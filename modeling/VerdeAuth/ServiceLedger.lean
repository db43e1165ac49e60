import VerdeAuth.AuditTrail
import VerdeAuth.OperationLedgers
import VerdeAuth.SessionRows

/-!
# What racing requests record

A login or a refresh writes its session, its audit row and its security event in this
order and at most once each; a logout writes a row and an event, and no other request
writes any. So whatever the interleaving, the tables and logs hold exactly what the
replies given so far account for.
-/

namespace VerdeAuth.ServiceLedger

open JsonTexts KeyedTables IamTables IamOperations ResumptionPrograms InterleavedPools UsersService
open TokenServices MfaServices AuthService MfaController IamEndpoints IamRules IamAssumptions
open UserRowChanges RequestFootprints AuditTrail VerificationTraces ResponseContracts
open OperationLedgers SessionRows

inductive Record where
  | session (userId : UserId) (deviceInfo ipAddress : Option String)
  | audit (a : AuditLog)
  | event (e : SecurityEvent)
  deriving DecidableEq

def Record.session? : Record → Option (UserId × Option String × Option String)
  | .session i device ip => some (i, device, ip)
  | _ => none

def Record.audit? : Record → Option AuditLog
  | .audit a => some a
  | _ => none

def Record.event? : Record → Option SecurityEvent
  | .event e => some e
  | _ => none

variable {N : Type} {env : Env N} {r : Request N} {α β : Type}

def record? : Op N → Option Record
  | .insertSession i _ device ip _ => some (.session i device ip)
  | .insertAuditLog a => some (.audit a)
  | .logSecurity e => some (.event e)
  | _ => none

/-- A row and its event. -/
def logRecords (env : Env N) (a : AuditLog) : List Record := [.audit a, .event (securityEvent env a)]

/-- The row a request leaves of itself. -/
def Request.audit (r : Request N) (i : Option UserId) (action : String) (success : Bool) :
    AuditLog := ⟨i, action, some r.ip, some r.device, success⟩

/-- The action under which a route hands out a session. -/
def grantAction : Route N → Option String
  | .login _ => some "LOGIN_SUCCESS"
  | .refresh _ => some "TOKEN_REFRESH"
  | _ => none

/-- The results that leave no record. -/
def Unrecorded (r : Request N) (res : Except Failure Reply) : Prop :=
  match r.route with
  | .login _ => res = .error .internal
  | .refresh _ => ∃ e, res = .error e
  | .logout _ => res = .error .internal
  | _ => ∀ t, res ≠ .ok (.session t)

/-- What a request has recorded when it ends with a result. -/
inductive Trail (env : Env N) (r : Request N) : List Record → Except Failure Reply → Prop
  | granted {t i action} (hr : grantAction r.route = some action) (ht : TokensFor i t) :
      Trail env r (.session i (some r.device) (some r.ip) ::
        logRecords env (Request.audit r (some i) action true)) (.ok (.session t))
  | pending {dto i tempToken method biometric} (hr : r.route = .login dto) :
      Trail env r (logRecords env (Request.audit r (some i) "MFA_PENDING" true))
        (.ok (.needsMfa tempToken method biometric))
  | failed {dto} (i : Option UserId) (hr : r.route = .login dto) :
      Trail env r (logRecords env (Request.audit r i "LOGIN_FAILED" false))
        (.error (.unauthorized "Credenciales inválidas"))
  | locked {dto} (i : UserId) (hr : r.route = .login dto) :
      Trail env r (logRecords env (Request.audit r (some i) "LOGIN_LOCKED" false))
        (.error (.forbidden "Cuenta bloqueada. Intente más tarde."))
  | loggedOut {token} (hr : r.route = .logout token) :
      Trail env r (logRecords env (Request.audit r (auditId r.userId) "LOGOUT" true))
        (.ok (.message true "Sesión cerrada correctamente"))
  | unrecorded {res} (h : Unrecorded r res) : Trail env r [] res

/-- What a request may have recorded on its way. -/
def Begun (env : Env N) (r : Request N) (l : List Record) : Prop :=
  ∃ l' res, Trail env r (l ++ l') res

theorem trail_internal (env : Env N) (r : Request N) : Trail env r [] (.error .internal) := by
  apply Trail.unrecorded
  unfold Unrecorded
  split <;> simp

theorem begun_nil (env : Env N) (r : Request N) : Begun env r [] :=
  ⟨[], _, trail_internal env r⟩

/-- The rest of a request that has recorded `l`. -/
abbrev Recording (env : Env N) (r : Request N) (l : List Record) (p : Iam N Reply) : Prop :=
  Leaves record? (Begun env r) (Trail env r) l p

/-- A program that records nothing, and returns a value with `P` or throws an internal error. -/
def Calm (P : α → Prop) (p : Iam N α) : Prop :=
  Prog.Every (fun o => record? o = none) (fun res => res = .error .internal ∨ ∃ a, res = .ok a ∧ P a)
    p

section Calm

theorem calm_ret {P : α → Prop} {a : α} (h : P a) : Calm P (.ret a : Iam N α) := .inr ⟨a, rfl, h⟩

theorem calm_internal {P : α → Prop} : Calm P (.throw .internal : Iam N α) := .inl rfl

theorem calm_perform (o : Op N) (ho : record? o = none) :
    Calm (fun _ => True) (Prog.perform o : Iam N _) := ⟨ho, fun r => .inr ⟨r, rfl, trivial⟩⟩

theorem Calm.bind {P : α → Prop} {P' : β → Prop} {p : Iam N α} {f : α → Iam N β} (hp : Calm P p)
    (hf : ∀ a, P a → Calm P' (f a)) : Calm P' (p >>= f) := by
  refine (Prog.every_bind p f).mpr (Prog.Every.mono hp (fun _ h => h) fun res hres => ?_)
  rcases hres with rfl | ⟨a, rfl, ha⟩
  · exact .inl rfl
  · exact hf a ha

theorem calm_now : Calm (fun _ => True) (now : Iam N Time) := calm_perform .now rfl

theorem calm_draw : Calm (fun _ => True) (draw : Iam N ℕ) := calm_perform .draw rfl

theorem calm_compare (data : JsonField N) (hash : String) :
    Calm (fun _ => True) (compare data hash) := by
  rcases data with _ | (_ | _ | _ | s | _ | _)
  case some.str => exact calm_perform (.bcryptCompare s hash) rfl
  all_goals exact calm_internal

theorem calm_isLocked (lock : Option Time) : Calm (fun _ => True) (isLocked lock : Iam N Bool) := by
  cases lock with
  | none => exact calm_ret trivial
  | some t => exact calm_now.bind fun _ _ => calm_ret trivial

theorem calm_verifyToken (key : String) (token : JsonField N) :
    Calm (fun _ => True) (verifyToken env key token) := by
  rcases token with _ | (_ | _ | _ | s | _ | _)
  case some.str => exact calm_now.bind fun _ _ => calm_ret trivial
  all_goals exact calm_ret trivial

theorem calm_findSessions (i : IdParam) : Calm (fun _ => True) (findSessions i : Iam N _) := by
  cases i with
  | invalid => exact calm_internal
  | undefined => exact calm_perform (.findSessions none) rfl
  | uuid i => exact calm_perform (.findSessions (some i)) rfl

theorem calm_anyValid (token : JsonField N) (ss : List Session) :
    Calm (fun _ => True) (anyValid token ss) := by
  induction ss with
  | nil => exact calm_ret trivial
  | cons s ss ih =>
    refine (calm_compare token _).bind fun b _ => ?_
    cases b with
    | false => exact ih
    | true =>
      refine calm_now.bind fun t _ => ?_
      split
      · exact calm_ret trivial
      · exact ih

theorem calm_revokeFirst (token : JsonField N) (ss : List Session) :
    Calm (fun _ => True) (revokeFirst token ss) := by
  induction ss with
  | nil => exact calm_ret trivial
  | cons s ss ih =>
    refine (calm_compare token _).bind fun b _ => ?_
    cases b with
    | false => exact ih
    | true => exact calm_perform (.saveSession _) rfl

theorem calm_generateAccessToken (i : UserId) (email : String) :
    Calm (fun t => t.payload.sub = i) (generateAccessToken env i email) :=
  calm_now.bind fun _ _ => calm_ret rfl

theorem calm_generateRefreshToken (i : UserId) :
    Calm (fun t => t.payload.sub = i) (generateRefreshToken env i) :=
  calm_draw.bind fun _ _ => calm_draw.bind fun _ _ => calm_now.bind fun _ _ => calm_ret rfl

theorem calm_generateToken : Calm (fun _ => True) (generateToken env) :=
  calm_draw.bind fun _ _ => calm_draw.bind fun _ _ => calm_draw.bind fun _ _ =>
    calm_draw.bind fun _ _ => calm_ret trivial

theorem calm_incrementFailedAttempts (u : User) :
    Calm (fun _ => True) (incrementFailedAttempts u : Iam N Unit) := by
  rw [incrementFailedAttempts]
  simp only
  split
  · exact calm_now.bind fun _ _ => calm_perform (.saveUser _) rfl
  · exact calm_perform (.saveUser _) rfl

end Calm

section Rules

variable {l : List Record}

/-- A first part that records nothing; the second may rely on its value. -/
theorem recording_calm {P : α → Prop} {p : Iam N α} {f : α → Iam N Reply} (hp : Calm P p)
    (hl : Begun env r l) (hthrow : Trail env r l (.error .internal))
    (hf : ∀ a, P a → Recording env r l (f a)) : Recording env r l (p >>= f) := by
  refine leaves_bind hp hl (fun e he => ?_) fun a ha => ?_
  · rcases he with he | ⟨a, ha, -⟩
    · cases he
      exact hthrow
    · cases ha
  · rcases ha with ha | ⟨b, hb, hP⟩
    · cases ha
    · cases hb
      exact hf a hP

/-- As long as nothing is recorded, nothing need be said of exceptions. -/
theorem recording_first {P : α → Prop} {p : Iam N α} {f : α → Iam N Reply} (hp : Calm P p)
    (hf : ∀ a, P a → Recording env r [] (f a)) : Recording env r [] (p >>= f) :=
  recording_calm hp (begun_nil env r) (trail_internal env r) hf

theorem recording_throw {e : Failure} (h : Unrecorded r (.error e)) :
    Recording env r [] (.throw e) := .unrecorded h

/-- The last part of a request that is recorded. -/
theorem recording_log {i : Option UserId} {action : String} {success : Bool}
    {f : Unit → Iam N Reply} {res : Except Failure Reply}
    (h : Trail env r (l ++ logRecords env (Request.audit r i action success)) res)
    (hf : ∀ l', Trail env r l' res → Recording env r l' (f ())) :
    Recording env r l (log env action i r.ip r.device success >>= f) := by
  have hl : l ++ logRecords env (Request.audit r i action success) =
      l ++ [Record.audit (Request.audit r i action success)] ++
        [Record.event (securityEvent env (Request.audit r i action success))] := by
    simp [logRecords]
  rw [hl] at h
  refine leaves_call rfl ⟨_, _, h⟩ fun _ => leaves_call rfl ⟨[], res, ?_⟩ fun _ => hf _ h
  rw [List.append_nil]
  exact h

end Rules

section Handlers

theorem recording_createRefreshToken {u : UserId} {action : String} {t : TokenPair}
    (hr : grantAction r.route = some action) (ht : TokensFor u t) {f : String → Iam N Reply}
    (hf : ∀ token, f token = (log env action (some u) r.ip r.device true >>= fun _ =>
      .ret (.session t))) :
    Recording env r [] (createRefreshToken env u r.device r.ip >>= f) := by
  have htrail : Trail env r ([Record.session u (some r.device) (some r.ip)] ++
      logRecords env (Request.audit r (some u) action true)) (.ok (.session t)) := .granted hr ht
  rw [createRefreshToken, bind_assoc]
  refine recording_first calm_generateToken fun token _ => ?_
  rw [bind_assoc]
  refine recording_first calm_draw fun salt _ => ?_
  rw [bind_assoc]
  refine recording_first calm_now fun s _ => ?_
  refine leaves_call rfl ⟨_, _, htrail⟩ fun _ => ?_
  change Recording env r _ (f token)
  rw [hf token]
  exact recording_log htrail fun _ h => h

theorem recording_completeLogin {dto : LoginDto N} (hr : r.route = .login dto) (u : User) :
    Recording env r [] (completeLogin env u r.ip r.device) := by
  have hreset : Calm (fun _ => True) (resetFailedAttempts u : Iam N Unit) :=
    calm_perform (.saveUser _) rfl
  rw [completeLogin]
  refine recording_first hreset fun _ _ => ?_
  cases u.mfaEnabled with
  | true =>
    refine recording_first calm_draw fun n _ => recording_first calm_now fun t _ => ?_
    refine recording_first (calm_perform (.updateUser _ _) rfl) fun _ _ => ?_
    exact recording_log (l := []) (.pending hr) fun _ h => h
  | false =>
    refine recording_first (calm_generateAccessToken u.id u.email) fun a ha => ?_
    refine recording_first (calm_generateRefreshToken u.id) fun t ht => ?_
    have haction : grantAction r.route = some "LOGIN_SUCCESS" := by rw [hr]; rfl
    have hfor : TokensFor u.id ⟨a, t, 900⟩ := ⟨ha, ht⟩
    exact recording_createRefreshToken haction hfor fun _ => rfl

theorem recording_login {dto : LoginDto N} (hr : r.route = .login dto) :
    Recording env r [] (login env dto r.ip r.device) := by
  rw [login]
  refine recording_first (calm_perform (.findUser _) rfl) fun row _ => ?_
  cases row with
  | none => exact recording_log (l := []) (.failed none hr) fun _ h => h
  | some u =>
    refine recording_first (calm_isLocked u.lockedUntil) fun b _ => ?_
    cases b with
    | true => exact recording_log (l := []) (.locked u.id hr) fun _ h => h
    | false =>
      refine recording_first (calm_compare dto.password u.passwordHash) fun b _ => ?_
      cases b with
      | true => exact recording_completeLogin hr u
      | false =>
        refine recording_first (calm_incrementFailedAttempts u) fun _ _ => ?_
        exact recording_log (l := []) (.failed (some u.id) hr) fun _ h => h

theorem recording_refresh {token : JsonField N} (hr : r.route = .refresh token) :
    Recording env r [] (refresh env token r.ip r.device) := by
  have hthrow : ∀ e : Failure, Recording env r [] (.throw e) := by
    intro e
    apply recording_throw
    simp [Unrecorded, hr]
  rw [refresh]
  refine recording_first (calm_verifyToken (refreshKey env) token) fun payload _ => ?_
  cases payload with
  | none => exact hthrow _
  | some p =>
    refine recording_first ((calm_findSessions _).bind fun ss _ => calm_anyValid token ss) ?_
    rintro (_ | _) -
    · exact hthrow _
    · refine recording_first (calm_perform (.findUser _) rfl) fun row _ => ?_
      cases row with
      | none => exact hthrow _
      | some u =>
        simp only
        cases u.isActive with
        | false => exact hthrow _
        | true =>
          refine recording_first (calm_generateAccessToken u.id u.email) fun a ha => ?_
          refine recording_first (calm_generateRefreshToken u.id) fun t ht => ?_
          refine recording_first
            ((calm_findSessions _).bind fun ss _ => calm_revokeFirst token ss) fun _ _ => ?_
          have haction : grantAction r.route = some "TOKEN_REFRESH" := by rw [hr]; rfl
          have hfor : TokensFor u.id ⟨a, t, 900⟩ := ⟨ha, ht⟩
          exact recording_createRefreshToken haction hfor fun _ => rfl

theorem recording_logout {token : JsonField N} (hr : r.route = .logout token) :
    Recording env r [] (logout env token r.userId r.ip r.device) := by
  rw [logout]
  refine recording_first ((calm_findSessions _).bind fun ss _ => calm_revokeFirst token ss) ?_
  intro _ _
  exact recording_log (l := []) (.loggedOut hr) fun _ h => h

end Handlers

/-- A program that ends without a session. -/
def Sessionless (p : Iam N Reply) : Prop :=
  Prog.Every (fun _ => True) (fun res => ∀ t, res ≠ .ok (.session t)) p

section Sessionless

theorem sessionless_throw (e : Failure) : Sessionless (.throw e : Iam N Reply) :=
  fun _ he => by cases he

theorem sessionless_ret {y : Reply} (h : ∀ t, y ≠ .session t) : Sessionless (.ret y : Iam N Reply) :=
  fun t ht => h t (Except.ok.inj ht)

theorem sessionless_bind (p : Iam N α) {f : α → Iam N Reply} (hf : ∀ a, Sessionless (f a)) :
    Sessionless (p >>= f) := by
  induction p with
  | ret a => exact hf a
  | throw e => exact sessionless_throw e
  | call o next ih => exact ⟨trivial, ih⟩

theorem sessionless_ite {b : Bool} {p q : Iam N Reply} (hp : Sessionless p) (hq : Sessionless q) :
    Sessionless (if b then p else q) := by
  cases b with
  | true => exact hp
  | false => exact hq

theorem sessionless_guarded {header : Option String} {handler : Iam N Reply}
    (h : Sessionless handler) : Sessionless (guarded env header handler) := by
  refine sessionless_bind _ fun payload => ?_
  cases payload with
  | none => exact sessionless_throw _
  | some p => exact h

theorem sessionless_verifyFactor {token : JsonField N} {refusal : String}
    {check : User → Iam N (Option (Iam N Unit))} :
    Sessionless (verifyFactor env token refusal check) := by
  refine sessionless_bind _ fun row => ?_
  cases row with
  | none => exact sessionless_ret (by simp)
  | some u =>
    refine sessionless_bind _ fun t => ?_
    split
    · exact sessionless_ret (by simp)
    · refine sessionless_bind _ fun locked => ?_
      refine sessionless_ite (sessionless_ret (by simp)) (sessionless_bind _ fun result => ?_)
      cases result with
      | none => exact sessionless_bind _ fun _ => sessionless_ret (by simp)
      | some commit =>
        refine sessionless_bind _ fun _ => sessionless_bind _ fun _ => ?_
        exact sessionless_bind _ fun _ => sessionless_bind _ fun _ => sessionless_ret (by simp)

theorem sessionless_adminUpdate [JsNumber N] {email : JsonField N} {p : UserPatch} {done : String} :
    Sessionless (adminUpdate env email p done) := by
  refine sessionless_bind _ fun row => ?_
  cases row with
  | none => exact sessionless_ret (by simp)
  | some u => exact sessionless_bind _ fun _ => sessionless_bind _ fun _ => sessionless_ret (by simp)

theorem sessionless_me (header : Option String) : Sessionless (me env header) := by
  cases header with
  | none => exact sessionless_ret (by simp)
  | some header =>
    refine sessionless_ite (sessionless_bind _ fun payload => ?_) (sessionless_ret (by simp))
    cases payload with
    | none => exact sessionless_ret (by simp)
    | some p =>
      refine sessionless_bind _ fun row => ?_
      cases row with
      | none => exact sessionless_ret (by simp)
      | some u => exact sessionless_ret (by simp)

end Sessionless

section Silent

theorem record?_of_onUsers {o : Op N} (h : OnUsers o) : record? o = none := by
  cases o <;> first | rfl | contradiction

theorem usersOnly_verifyToken (key : String) (token : JsonField N) :
    UsersOnly (verifyToken env key token) := by
  rcases token with _ | (_ | _ | _ | s | _ | _)
  case some.str => exact usersOnly_now.bind fun _ => usersOnly_ret _
  all_goals exact usersOnly_ret _

theorem usersOnly_adminUpdate [JsNumber N] (email : JsonField N) (p : UserPatch) (done : String) :
    UsersOnly (adminUpdate env email p done) := by
  have hfind : UsersOnly (findByEmail env email) := usersOnly_perform (.findUser _) trivial
  refine hfind.bind fun row => ?_
  cases row with
  | none => exact usersOnly_ret _
  | some u =>
    refine (usersOnly_update u.id p).bind fun _ => UsersOnly.bind ?_ fun _ => usersOnly_ret _
    exact usersOnly_of_headerOnly (i := .invalid) (headerOnly_orThrow _)

theorem usersOnly_me (header : Option String) : UsersOnly (me env header) := by
  cases header with
  | none => exact usersOnly_ret _
  | some header =>
    rw [me]
    split
    · refine (usersOnly_verifyToken _ _).bind fun payload => ?_
      cases payload with
      | none => exact usersOnly_ret _
      | some p =>
        refine (usersOnly_findById p.sub).bind fun row => ?_
        cases row with
        | none => exact usersOnly_ret _
        | some u => exact usersOnly_ret _
    · exact usersOnly_ret _

end Silent

theorem recording_plain {p : Iam N Reply}
    (hr : ∀ res : Except Failure Reply, (∀ t, res ≠ .ok (.session t)) → Unrecorded r res)
    (hp : UsersOnly p) (hs : Sessionless p) : Recording env r [] p :=
  leaves_of_every (Prog.Every.mono hp (fun _ => record?_of_onUsers) fun _ h => h)
    (Prog.Every.mono hs (fun _ h => h) fun res h => .unrecorded (hr res h)) (begun_nil env r)

section Tables

/-- A session without what changes or is random. -/
def sessionKey (s : Session) : UserId × Option String × Option String :=
  (s.userId, s.deviceInfo, s.ipAddress)

variable {rs : List (Request N)}

theorem auditLog_replay (w : World) (log : List (Event (Res N) Time)) :
    (Pool.replay (exec env) tick w log).auditLog =
      w.auditLog ++ (ledger record? log).filterMap Record.audit? := by
  induction log generalizing w with
  | nil => simp [Pool.replay, ledger]
  | cons e log ih =>
    cases e with
    | outside t => exact ih _
    | op i o res =>
      rw [Pool.replay, ih]
      cases o with
      | insertAuditLog a => simp [ledger, record?, Record.audit?, exec]
      | _ => rfl

theorem securityLog_replay (w : World) (log : List (Event (Res N) Time)) :
    (Pool.replay (exec env) tick w log).securityLog =
      w.securityLog ++ (ledger record? log).filterMap Record.event? := by
  induction log generalizing w with
  | nil => simp [Pool.replay, ledger]
  | cons e log ih =>
    cases e with
    | outside t => exact ih _
    | op i o res =>
      rw [Pool.replay, ih]
      cases o with
      | logSecurity e => simp [ledger, record?, Record.event?, exec]
      | _ => rfl

theorem sessions_replay {w : World} {log : List (Event (Res N) Time)}
    (h : Lawful (exec env) tick (WritesSession env rs) w log) :
    (Pool.replay (exec env) tick w log).sessions.rows.map sessionKey =
      w.sessions.rows.map sessionKey ++ (ledger record? log).filterMap Record.session? := by
  induction log generalizing w with
  | nil => simp [Pool.replay, ledger]
  | cons e log ih =>
    cases e with
    | outside t => exact ih h
    | op i o res =>
      obtain ⟨ho, hlog⟩ := h
      rw [Pool.replay, ih hlog]
      cases o with
      | insertSession i hash device ip e =>
        have hrows := put_fresh (t := w.sessions)
          (r := Session.mk (freshId w.sessions) i hash device ip e false) rfl
        simp [exec, World.saveSession, hrows, ledger, record?, Record.session?, sessionKey]
      | saveSession s =>
        obtain ⟨-, ⟨s₀, hs₀, hlater⟩, -⟩ := ho
        have hkey : sessionKey s = sessionKey s₀ := by
          rw [hlater.same]
          rfl
        have hrows := Table.map_put (f := sessionKey) hs₀ hlater.id_eq hkey
        simp [exec, World.saveSession, hrows, ledger, record?]
      | revokeSessions i => exact ho.elim
      | deleteSessions t => exact ho.elim
      | _ => rfl

end Tables

section Counts

variable {l : List Record} {res : Except Failure Reply}

/-- The replies that hand a session of the user out. -/
def givesSession (i : UserId) : Except Failure Reply → Bool
  | .ok (.session t) => t.accessToken.payload.sub = i
  | _ => false

def isLogin : Route N → Bool
  | .login _ => true
  | _ => false

/-- A login that is refused. -/
def refusesLogin (r : Request N) : Except Failure Reply → Bool
  | .error .internal => false
  | .error _ => isLogin r.route
  | .ok _ => false

def grantRecord (i : UserId) (x : Record) : Bool := (x.audit?.map (isGrant i)).getD false

def sessionRecord (i : UserId) (x : Record) : Bool := 
  (x.session?.map fun k => decide (k.1 = i)).getD false

def refusalRecord (x : Record) : Bool := (x.audit?.map (!·.success)).getD false

/-- The records of a request that has ended. -/
structure Tallied (env : Env N) (r : Request N) (i : UserId) (l : List Record)
    (res : Except Failure Reply) : Prop where
  rows : l.countP (grantRecord i) = (givesSession i res).toNat
  sessions : l.countP (sessionRecord i) = (givesSession i res).toNat
  refusals : l.countP refusalRecord = (refusesLogin r res).toNat
  events : l.filterMap Record.event? = (l.filterMap Record.audit?).map (securityEvent env)

/-- A row that grants nothing. -/
theorem tallied_logRecords {i : UserId} {a : AuditLog} (ha : isGrant i a = false)
    (hres : givesSession i res = false) (hrefuses : refusesLogin r res = !a.success) :
    Tallied env r i (logRecords env a) res where
  rows := by simp [logRecords, grantRecord, Record.audit?, ha, hres]
  sessions := by simp [logRecords, sessionRecord, Record.session?, hres]
  refusals := by
    cases hs : a.success <;>
      simp [logRecords, refusalRecord, Record.audit?, hrefuses, hs]
  events := rfl

theorem isGrant_audit {i j : UserId} {action : String} (hr : grantAction r.route = some action) :
    isGrant i (Request.audit r (some j) action true) = decide (j = i) := by
  cases hroute : r.route <;> simp [grantAction, hroute] at hr <;> subst hr <;>
    simp [isGrant, Request.audit]

theorem tallied_of_trail (i : UserId) (h : Trail env r l res) : Tallied env r i l res := by
  cases h with
  | @granted t j action hr ht =>
    refine ⟨?_, ?_, ?_, rfl⟩
    · have hrows : givesSession i (.ok (.session t)) = decide (j = i) := by simp [givesSession, ht.1]
      rw [hrows, ← isGrant_audit hr]
      cases hg : isGrant i (Request.audit r (some j) action true) <;>
        simp [logRecords, grantRecord, Record.audit?, hg]
    · by_cases hj : j = i <;>
        simp [logRecords, sessionRecord, Record.session?, hj, givesSession, ht.1]
    · simp [logRecords, refusalRecord, Record.audit?, Request.audit, refusesLogin]
  | pending hr => exact tallied_logRecords (by simp [isGrant, Request.audit]) rfl rfl
  | failed j hr =>
    exact tallied_logRecords (by simp [isGrant, Request.audit]) rfl
      (by simp [refusesLogin, hr, isLogin, Request.audit])
  | locked j hr =>
    exact tallied_logRecords (by simp [isGrant, Request.audit]) rfl
      (by simp [refusesLogin, hr, isLogin, Request.audit])
  | loggedOut hr => exact tallied_logRecords (by simp [isGrant, Request.audit]) rfl rfl
  | unrecorded h =>
    have hsession : givesSession i res = false := by
      rcases res with e | y
      · rfl
      · cases y with
        | session t => cases hr : r.route <;> simp [Unrecorded, hr] at h
        | _ => rfl
    have hrefuses : refusesLogin r res = false := by
      rcases res with e | y
      · cases hr : r.route <;> simp [Unrecorded, hr] at h <;> cases e <;>
          simp_all [refusesLogin, isLogin]
      · rfl
    exact ⟨by simp [hsession], by simp [hsession], by simp [hrefuses], rfl⟩

/-- The records of a request on its way. -/
structure Partial (env : Env N) (i : UserId) (l : List Record) : Prop where
  rows : l.countP (grantRecord i) ≤ l.countP (sessionRecord i)
  events : (l.filterMap Record.event? : Multiset SecurityEvent) ≤
    (l.filterMap Record.audit? : Multiset AuditLog).map (securityEvent env)

theorem partial_nil (i : UserId) : Partial env i [] := ⟨le_rfl, le_rfl⟩

theorem partial_audit {i : UserId} {a : AuditLog} (ha : isGrant i a = false) :
    Partial env i [.audit a] where
  rows := by simp [grantRecord, Record.audit?, ha]
  events := Multiset.zero_le _

theorem Tallied.partial {i : UserId} (h : Tallied env r i l res) : Partial env i l where
  rows := (h.rows.trans h.sessions.symm).le
  events := by
    rw [h.events]
    exact (Multiset.map_coe _ _).ge

/-- The records come in their order: a session before its row, a row before its event. -/
theorem partial_of_begun (i : UserId) (h : Begun env r l) : Partial env i l := by
  obtain ⟨l', res, h⟩ := h
  have htallied := tallied_of_trail i h
  have hinits : l ∈ (l ++ l').inits := (List.mem_inits l (l ++ l')).mpr ⟨l', rfl⟩
  generalize l ++ l' = L at h htallied hinits
  have hlog : ∀ a, L = logRecords env a → isGrant i a = false → Partial env i l := by
    rintro a rfl ha
    simp only [logRecords, List.inits, List.map_cons, List.map_nil, List.mem_cons,
      List.not_mem_nil, or_false] at hinits
    rcases hinits with rfl | rfl | rfl
    · exact partial_nil i
    · exact partial_audit ha
    · exact htallied.partial
  cases h with
  | @granted t j action hr ht =>
    simp only [logRecords, List.inits, List.map_cons, List.map_nil, List.mem_cons,
      List.not_mem_nil, or_false] at hinits
    rcases hinits with rfl | rfl | rfl | rfl
    · exact partial_nil i
    · exact ⟨Nat.zero_le _, le_rfl⟩
    · constructor
      · by_cases hj : j = i <;> simp [grantRecord, sessionRecord, Record.audit?, Record.session?,
          isGrant_audit hr, hj]
      · exact Multiset.zero_le _
    · exact htallied.partial
  | pending hr => exact hlog _ rfl (by simp [isGrant, Request.audit])
  | failed j hr => exact hlog _ rfl (by simp [isGrant, Request.audit])
  | locked j hr => exact hlog _ rfl (by simp [isGrant, Request.audit])
  | loggedOut hr => exact hlog _ rfl (by simp [isGrant, Request.audit])
  | unrecorded h =>
    rw [List.inits, List.mem_singleton] at hinits
    subst hinits
    exact partial_nil i

end Counts

variable [JsNumber N] [DecidableEq N]

theorem recording_guarded {handler : Iam N Reply} (hr : GuardedRoute r.route)
    (hhandle : handle env r = guarded env r.authorization handler) (hs : Sessionless handler) :
    Recording env r [] (handle env r) := by
  have hroute : ∀ res : Except Failure Reply, (∀ t, res ≠ .ok (.session t)) → Unrecorded r res := by
    intro res hres
    generalize hq : r.route = route at hr
    cases hr <;> simpa [Unrecorded, hq] using hres
  refine recording_plain hroute (usersOnly_of_headerOnly (headerOnly_handle hr)) ?_
  rw [hhandle]
  exact sessionless_guarded hs

/-- Every request records what its result tells. -/
theorem recording_handle (env : Env N) (r : Request N) : Recording env r [] (handle env r) := by
  cases hr : r.route with
  | login dto =>
    simp only [handle, hr]
    exact recording_login hr
  | refresh token =>
    simp only [handle, hr]
    exact recording_refresh hr
  | logout token =>
    simp only [handle, hr]
    exact recording_logout hr
  | verifyToken token =>
    simp only [handle, hr]
    refine recording_plain (by simp [Unrecorded, hr]) ?_ (sessionless_bind _ fun _ => ?_)
    · exact (usersOnly_verifyToken _ _).bind fun _ => usersOnly_ret _
    · exact sessionless_ret (by simp)
  | me =>
    simp only [handle, hr]
    exact recording_plain (by simp [Unrecorded, hr]) (usersOnly_me _) (sessionless_me _)
  | setup =>
    simp only [handle, hr]
    refine recording_plain (by simp [Unrecorded, hr]) (usersOnly_of_headerOnly headerOnly_setup) ?_
    refine sessionless_bind _ fun _ => sessionless_bind _ fun _ => ?_
    exact sessionless_bind _ fun _ => sessionless_bind _ fun _ => sessionless_ret (by simp)
  | verifySetup code =>
    refine recording_guarded (hr ▸ .verifySetup code) (by rw [handle, hr]) ?_
    refine sessionless_bind _ fun _ => sessionless_bind _ fun _ => sessionless_bind _ fun _ => ?_
    refine sessionless_ite (sessionless_bind _ fun _ => sessionless_bind _ fun _ => ?_) ?_
    · exact sessionless_bind _ fun _ => sessionless_ret (by simp)
    · exact sessionless_ret (by simp)
  | disable password code =>
    refine recording_guarded (hr ▸ .disable password code) (by rw [handle, hr]) ?_
    refine sessionless_bind _ fun _ => sessionless_bind _ fun _ => ?_
    refine sessionless_ite (sessionless_bind _ fun _ => sessionless_bind _ fun _ => ?_) ?_
    · refine sessionless_ite (sessionless_bind _ fun _ => ?_) ?_
      · exact sessionless_ret (by simp)
      · exact sessionless_ret (by simp)
    · exact sessionless_ret (by simp)
  | status =>
    have hstatus : Sessionless (getStatus r.userId : Iam N Reply) := by
      refine sessionless_bind _ fun _ => sessionless_ite (sessionless_bind _ fun _ => ?_) ?_
      · exact sessionless_ret (by simp)
      · exact sessionless_ret (by simp)
    exact recording_guarded (hr ▸ .status) (by rw [handle, hr]) hstatus
  | enableBiometric device =>
    refine recording_guarded (hr ▸ .enableBiometric device) (by rw [handle, hr]) ?_
    refine sessionless_bind _ fun _ => sessionless_ite (sessionless_bind _ fun _ => ?_) ?_
    · exact sessionless_ret (by simp)
    · exact sessionless_ret (by simp)
  | disableBiometric =>
    refine recording_guarded (hr ▸ .disableBiometric) (by rw [handle, hr]) ?_
    exact sessionless_bind _ fun _ => sessionless_ret (by simp)
  | verify token code =>
    simp only [handle, hr]
    exact recording_plain (by simp [Unrecorded, hr])
      (usersOnly_verifyFactor (usersOnlyCheck_totp code)) sessionless_verifyFactor
  | verifyBackup token code =>
    simp only [handle, hr]
    exact recording_plain (by simp [Unrecorded, hr])
      (usersOnly_verifyFactor (usersOnlyCheck_backup code)) sessionless_verifyFactor
  | verifyBiometric token device =>
    simp only [handle, hr]
    exact recording_plain (by simp [Unrecorded, hr])
      (usersOnly_verifyFactor (usersOnlyCheck_biometric device)) sessionless_verifyFactor
  | unlockUser email =>
    simp only [handle, hr]
    exact recording_plain (by simp [Unrecorded, hr]) (usersOnly_adminUpdate _ _ _)
      sessionless_adminUpdate
  | resetUser email =>
    simp only [handle, hr]
    exact recording_plain (by simp [Unrecorded, hr]) (usersOnly_adminUpdate _ _ _)
      sessionless_adminUpdate

section Pools

/-- The requests that have ended with a result of a kind. -/
def replied (kind : Request N → Except Failure Reply → Bool) (rs : List (Request N))
    (qs : List (Iam N Reply)) : ℕ :=
  (rs.zip qs).countP fun x => (ended x.2).any (kind x.1)

def sessionsOf (i : UserId) (w : World) : ℕ := w.sessions.rows.countP (·.userId = i)

def refusals (rows : List AuditLog) : ℕ := rows.countP (!·.success)

/-- What has been recorded covers what has been answered: a session handed out has its
row in the trail and in the sessions table, a refusal its row, and an event its row. -/
structure Covered (env : Env N) (rs : List (Request N)) (i : UserId) (w : World)
    (c : Pool (Res N) Failure Reply World Time) : Prop where
  granted : grants i w.auditLog + replied (fun _ => givesSession i) rs c.threads ≤
    grants i c.state.auditLog
  opened : grants i c.state.auditLog + sessionsOf i w ≤ grants i w.auditLog + sessionsOf i c.state
  refused : refusals w.auditLog + replied refusesLogin rs c.threads ≤ refusals c.state.auditLog
  sent : ∃ rows events, c.state.auditLog = w.auditLog ++ rows ∧
    c.state.securityLog = w.securityLog ++ events ∧
    events.Subperm (rows.map (securityEvent env))

/-- What has been recorded is what has been answered. -/
structure Exact (env : Env N) (rs : List (Request N)) (i : UserId) (w : World)
    (c : Pool (Res N) Failure Reply World Time) : Prop where
  granted : grants i w.auditLog + replied (fun _ => givesSession i) rs c.threads =
    grants i c.state.auditLog
  opened : grants i c.state.auditLog + sessionsOf i w = grants i w.auditLog + sessionsOf i c.state
  refused : refusals w.auditLog + replied refusesLogin rs c.threads = refusals c.state.auditLog
  sent : ∃ rows events, c.state.auditLog = w.auditLog ++ rows ∧
    c.state.securityLog = w.securityLog ++ events ∧
    events.Perm (rows.map (securityEvent env))

variable {w : World} {rs : List (Request N)} {sched : List (Turn Time)}

/-- The records of one request of an interleaving. -/
def recordsOf (env : Env N) (w : World) (rs : List (Request N)) (sched : List (Turn Time))
    (k : ℕ) : List Record := recorded record? (own k (together env w rs sched).log)

theorem length_threads (env : Env N) (w : World) (rs : List (Request N)) (sched : List (Turn Time)) :
    (together env w rs sched).threads.length = rs.length := by
  have hlen : (together env w rs sched).threads.length = (rs.map (handle env)).length :=
    length_threads_exec _ w sched
  rwa [List.length_map] at hlen

/-- Each request has recorded what it may have. -/
theorem recordsOf_cases (env : Env N) (w : World) (rs : List (Request N)) (sched : List (Turn Time))
    {k : ℕ} (hk : k < rs.length) :
    ∃ r q, (rs.zip (together env w rs sched).threads)[k]? = some (r, q) ∧
      Begun env r (recordsOf env w rs sched k) ∧
      ∀ res, ended q = some res → Trail env r (recordsOf env w rs sched k) res := by
  have hlt : k < (together env w rs sched).threads.length := (length_threads env w rs sched).symm ▸ hk
  have hr : rs[k]? = some rs[k] := List.getElem?_eq_getElem hk
  have hq := List.getElem?_eq_getElem hlt
  obtain ⟨p, hp, hf⟩ : ∃ p, (rs.map (handle env))[k]? = some p ∧
      Follows p (own k (together env w rs sched).log) _ := exec_thread _ w sched hq
  rw [List.getElem?_map, hr, Option.map_some, Option.some.injEq] at hp
  subst hp
  obtain ⟨hbegun, hrec⟩ := (recording_handle env rs[k]).follows hf (begun_nil env rs[k])
  rw [List.nil_append] at hbegun hrec
  exact ⟨rs[k], _, List.getElem?_zip_eq_some.mpr ⟨hr, hq⟩, hbegun, fun res he => hrec.of_ended he⟩

theorem ledger_together :
    (ledger record? (together env w rs sched).log : Multiset Record) =
      ∑ k ∈ Finset.range rs.length, (recordsOf env w rs sched k : Multiset Record) := by
  have h : (ledger record? (together env w rs sched).log : Multiset Record) =
      ∑ k ∈ Finset.range (rs.map (handle env)).length,
        (recordsOf env w rs sched k : Multiset Record) := exec_ledger _ w sched
  rwa [List.length_map] at h

/-- The results at one place are bounded by the records at that place. -/
theorem replied_eq_sum (kind : Request N → Except Failure Reply → Bool) :
    replied kind rs (together env w rs sched).threads =
      ∑ k ∈ Finset.range rs.length, ((rs.zip (together env w rs sched).threads)[k]?.toList.countP
        fun x => (ended x.2).any (kind x.1)) := 
  countP_zip _ _ _ (length_threads env w rs sched)

theorem replied_le {kind : Request N → Except Failure Reply → Bool} {p : Record → Bool}
    (h : ∀ r l res, Trail env r l res → l.countP p = (kind r res).toNat) :
    replied kind rs (together env w rs sched).threads ≤
      (ledger record? (together env w rs sched).log).countP p := by
  rw [replied_eq_sum, countP_ledger p ledger_together]
  refine Finset.sum_le_sum fun k hk => ?_
  obtain ⟨r, q, hz, -, hend⟩ := recordsOf_cases env w rs sched (Finset.mem_range.mp hk)
  simp only [hz, Option.toList_some, List.countP_singleton]
  cases he : ended q with
  | none => simp
  | some res =>
    have hcount := h r _ res (hend res he)
    cases hkind : kind r res <;> simp [hcount, hkind]

theorem replied_eq {kind : Request N → Except Failure Reply → Bool} {p : Record → Bool}
    (h : ∀ r l res, Trail env r l res → l.countP p = (kind r res).toNat)
    (hdone : ∀ q ∈ (together env w rs sched).threads, ended q ≠ none) :
    replied kind rs (together env w rs sched).threads =
      (ledger record? (together env w rs sched).log).countP p := by
  rw [replied_eq_sum, countP_ledger p ledger_together]
  refine Finset.sum_congr rfl fun k hk => ?_
  obtain ⟨r, q, hz, -, hend⟩ := recordsOf_cases env w rs sched (Finset.mem_range.mp hk)
  simp only [hz, Option.toList_some, List.countP_singleton]
  cases he : ended q with
  | none => exact absurd he (hdone q (List.of_mem_zip (List.mem_of_getElem? hz)).2)
  | some res =>
    have hcount := h r _ res (hend res he)
    cases hkind : kind r res <;> simp [hcount, hkind]

section State

/-- The log of a run that goes by the rules for sessions. -/
theorem lawful_together (env : Env N) (w : World) (rs : List (Request N)) (sched : List (Turn Time)) :
    (together env w rs sched).state =
        Pool.replay (exec env) tick w (together env w rs sched).log ∧
      Lawful (exec env) tick (WritesSession env rs) w (together env w rs sched).log := by
  refine ⟨(Pool.exec_log _ w sched).1, ?_⟩
  have hps : ∀ p ∈ rs.map (handle env), ∀ w', Accounted env rs w w' →
      Under (SessionsHeld env w') (WritesSession env rs w') (fun _ => True) p := by
    intro p hp w' _
    obtain ⟨r, hr, rfl⟩ := List.mem_map.mp hp
    exact (RequestContracts.serves_handle env (SessionsHeld env w') r).mono (fun _ _ h => h)
      (fun _ h => writesSession_of_asks hr h) fun _ _ => trivial
  exact ((stable_accounted env rs w).exec hps (accounted_refl env rs w) sched).2.2

/-- The rows and sessions of a run are those of its ledger. -/
theorem state_ledger (env : Env N) (w : World) (rs : List (Request N)) (sched : List (Turn Time)) :
    let c := together env w rs sched
    c.state.auditLog = w.auditLog ++ (ledger record? c.log).filterMap Record.audit? ∧
      c.state.securityLog = w.securityLog ++ (ledger record? c.log).filterMap Record.event? ∧
      c.state.sessions.rows.map sessionKey =
        w.sessions.rows.map sessionKey ++ (ledger record? c.log).filterMap Record.session? := by
  intro c
  obtain ⟨hstate, hlawful⟩ := lawful_together env w rs sched
  rw [show c.state = _ from hstate]
  exact ⟨auditLog_replay w _, securityLog_replay w _, sessions_replay hlawful⟩

theorem grants_together (env : Env N) (w : World) (rs : List (Request N)) (sched : List (Turn Time))
    (i : UserId) : grants i (together env w rs sched).state.auditLog = grants i w.auditLog +
      (ledger record? (together env w rs sched).log).countP (grantRecord i) := by
  rw [(state_ledger env w rs sched).1, grants_append]
  exact congrArg (grants i w.auditLog + ·) List.countP_filterMap

theorem refusals_together (env : Env N) (w : World) (rs : List (Request N))
    (sched : List (Turn Time)) : refusals (together env w rs sched).state.auditLog =
      refusals w.auditLog +
        (ledger record? (together env w rs sched).log).countP refusalRecord := by
  rw [(state_ledger env w rs sched).1, refusals, List.countP_append]
  exact congrArg (refusals w.auditLog + ·) List.countP_filterMap

theorem sessionsOf_together (env : Env N) (w : World) (rs : List (Request N))
    (sched : List (Turn Time)) (i : UserId) : sessionsOf i (together env w rs sched).state =
      sessionsOf i w + (ledger record? (together env w rs sched).log).countP (sessionRecord i) := by
  have hkeys : ∀ w : World, sessionsOf i w =
      (w.sessions.rows.map sessionKey).countP fun k => decide (k.1 = i) := by
    intro w
    rw [List.countP_map]
    rfl
  rw [hkeys, hkeys, (state_ledger env w rs sched).2.2, List.countP_append]
  exact congrArg _ List.countP_filterMap

theorem events_ledger (env : Env N) (w : World) (rs : List (Request N)) (sched : List (Turn Time)) :
    ((ledger record? (together env w rs sched).log).filterMap Record.event? :
        Multiset SecurityEvent) = ∑ k ∈ Finset.range rs.length,
      ((recordsOf env w rs sched k).filterMap Record.event? : Multiset SecurityEvent) :=
  additive_ledger (Multiset.filterMap Record.event?) rfl (Multiset.filterMap_add _) ledger_together

theorem rows_ledger (env : Env N) (w : World) (rs : List (Request N)) (sched : List (Turn Time)) :
    ((ledger record? (together env w rs sched).log).filterMap Record.audit? :
        Multiset AuditLog).map (securityEvent env) = ∑ k ∈ Finset.range rs.length,
      ((recordsOf env w rs sched k).filterMap Record.audit? : Multiset AuditLog).map
        (securityEvent env) := by
  refine additive_ledger
    (fun l => (Multiset.filterMap Record.audit? l).map (securityEvent env)) rfl (fun l l' => ?_)
    ledger_together
  rw [Multiset.filterMap_add, Multiset.map_add]

theorem covered_together (env : Env N) (w : World) (rs : List (Request N))
    (sched : List (Turn Time)) (i : UserId) : Covered env rs i w (together env w rs sched) where
  granted := by
    rw [grants_together]
    exact Nat.add_le_add_left (replied_le fun r l res h => (tallied_of_trail i h).rows) _
  opened := by
    have hle : (ledger record? (together env w rs sched).log).countP (grantRecord i) ≤
        (ledger record? (together env w rs sched).log).countP (sessionRecord i) := by
      rw [countP_ledger _ ledger_together, countP_ledger _ ledger_together]
      refine Finset.sum_le_sum fun k hk => ?_
      obtain ⟨r, q, -, hbegun, -⟩ := recordsOf_cases env w rs sched (Finset.mem_range.mp hk)
      exact (partial_of_begun i hbegun).rows
    rw [grants_together, sessionsOf_together]
    omega
  refused := by
    rw [refusals_together]
    exact Nat.add_le_add_left (replied_le fun r l res h => (tallied_of_trail i h).refusals) _
  sent := by
    obtain ⟨haudit, hevents, -⟩ := state_ledger env w rs sched
    refine ⟨_, _, haudit, hevents, ?_⟩
    rw [← Multiset.coe_le, ← Multiset.map_coe, events_ledger, rows_ledger]
    refine Finset.sum_le_sum fun k hk => ?_
    obtain ⟨r, q, -, hbegun, -⟩ := recordsOf_cases env w rs sched (Finset.mem_range.mp hk)
    exact (partial_of_begun i hbegun).events

theorem exact_together (env : Env N) (w : World) (rs : List (Request N))
    (sched : List (Turn Time)) (i : UserId)
    (hdone : ∀ q ∈ (together env w rs sched).threads, ended q ≠ none) :
    Exact env rs i w (together env w rs sched) := by
  have hrows : replied (fun _ => givesSession i) rs (together env w rs sched).threads =
      (ledger record? (together env w rs sched).log).countP (grantRecord i) :=
    replied_eq (fun r l res h => (tallied_of_trail i h).rows) hdone
  have hsessions : replied (fun _ => givesSession i) rs (together env w rs sched).threads =
      (ledger record? (together env w rs sched).log).countP (sessionRecord i) :=
    replied_eq (fun r l res h => (tallied_of_trail i h).sessions) hdone
  refine ⟨?_, ?_, ?_, ?_⟩
  · rw [grants_together, hrows]
  · rw [grants_together, sessionsOf_together]
    omega
  · rw [refusals_together, replied_eq (fun r l res h => (tallied_of_trail i h).refusals) hdone]
  · obtain ⟨haudit, hevents, -⟩ := state_ledger env w rs sched
    refine ⟨_, _, haudit, hevents, ?_⟩
    rw [← Multiset.coe_eq_coe, ← Multiset.map_coe, events_ledger, rows_ledger]
    refine Finset.sum_congr rfl fun k hk => ?_
    obtain ⟨r, q, hz, -, hend⟩ := recordsOf_cases env w rs sched (Finset.mem_range.mp hk)
    cases he : ended q with
    | none => exact absurd he (hdone q (List.of_mem_zip (List.mem_of_getElem? hz)).2)
    | some res => rw [(tallied_of_trail i (hend res he)).events, Multiset.map_coe]

/-- However requests interleave, at every point what has been recorded covers what has
been answered, and once all have ended it is exactly that. -/
theorem trail_balanced (env : Env N) (w : World) (rs : List (Request N)) (sched : List (Turn Time))
    (i : UserId) : Covered env rs i w (together env w rs sched) ∧
      ((∀ q ∈ (together env w rs sched).threads, ended q ≠ none) →
        Exact env rs i w (together env w rs sched)) :=
  ⟨covered_together env w rs sched i, exact_together env w rs sched i⟩

end State

end Pools

end VerdeAuth.ServiceLedger
