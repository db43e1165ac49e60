import VerdeAuth.RefreshTokenChain
import VerdeAuth.SessionCalls
import VerdeAuth.TokenRaces

/-!
# Refreshes that race for one session

A refresh reads the sessions to validate the token, and reads them again to revoke
the one that matches. Where no validating read falls between another one that found
a session and its revocation, the session is exchanged at most once.
-/

namespace VerdeAuth.TokenExchanges

open JsonTexts KeyedTables IamTables IamOperations ResumptionPrograms InterleavedPools UsersService
open TokenServices AuthService IamEndpoints IamAssumptions RequestFootprints RefreshTokenChain
open SessionCalls

variable {N α : Type}

abbrev Refreshes (N : Type) := Pool (Res N) Failure Reply World Time

/-- Refreshes of one token, each with its ip and its device. -/
def refreshedTogether (env : Env N) (w : World) (token : String) (calls : List (String × String))
    (sched : List (Turn Time)) : Refreshes N :=
  (Pool.start (calls.map fun c => refresh env (some (.str token)) c.1 c.2) w).exec (exec env) tick
    sched

/-! When the validating reads are alone -/

/-- The sessions were read. -/
def looked (l : List (Exchange (Res N))) : Bool :=
  l.any fun
    | ⟨.findSessions _, _⟩ => true
    | _ => false

/-- A session that was read matches the token. -/
def found (env : Env N) (token : String) (l : List (Exchange (Res N))) : Bool :=
  l.any fun
    | ⟨.findSessions _, ss⟩ =>
      List.any (α := Session) ss fun s => env.bcryptCompare token s.refreshToken
    | _ => false

def saved (l : List (Exchange (Res N))) : Bool :=
  l.any fun
    | ⟨.saveSession _, _⟩ => true
    | _ => false

/-- The refresh has found a session and has neither saved it nor stopped. -/
def open? (env : Env N) (token : String) (c : Refreshes N) (k : ℕ) : Bool :=
  TokenRaces.running c k && found env token (own k c.log) && !saved (own k c.log)

/-- No refresh makes its first read of the sessions while another one is open, and
the clock is not set back. -/
def alone (env : Env N) (token : String) (c : Refreshes N) : Turn Time → Bool
  | .thread j => match c.threads[j]? with
    | some (.call (.findSessions _) _) => looked (own j c.log) ||
        !(List.range c.threads.length).any (open? env token c)
    | _ => true
  | .outside t => c.state.clock ≤ t

/-- The one session of the table that the token may be exchanged for, and the first
of those that are not revoked that `revokeSession` finds. -/
structure OnlySession (env : Env N) (w : World) (token : String) (s₀ : Session) : Prop where
  mem : s₀ ∈ w.sessions.rows
  live : s₀.isRevoked = false ∧ w.clock < s₀.expiresAt
  only : ∀ s ∈ w.sessions.rows, s.isRevoked = false → w.clock < s.expiresAt →
    env.bcryptCompare token s.refreshToken = true → s = s₀
  first : firstMatch env token (w.findSessions (some s₀.userId)) = some s₀

/-! What a refresh may still do -/

def SparesSessions : Op N → Prop
  | .insertSession .. => False
  | .saveSession _ => False
  | .revokeSessions _ => False
  | .deleteSessions _ => False
  | _ => True

/-- What the semantics may answer, from a start on. -/
def Answers (env : Env N) (w : World) : (o : Op N) → Res N o → Prop
  | .findUser (.id (some i)), some u => u.id = i
  | .bcryptCompare data hash, b => b = env.bcryptCompare data hash
  | .now, t => w.clock ≤ t
  | _, _ => True

/-- Reads of the sessions are answered from the rows there were at the start. -/
def Unchanged (w : World) : (o : Op N) → Res N o → Prop
  | .findSessions i, ss => ss = w.findSessions i
  | _, _ => True

/-- The refresh writes no session, and gets no tokens. -/
def Refused (env : Env N) (w : World) : Iam N Reply → Prop
  | .ret reply => reply.tokens? = none
  | .throw _ => True
  | .call o next => SparesSessions o ∧ ∀ r, Answers env w o r → Refused env w (next r)

/-- The refresh inserts at most one session, if it still may, and none of the token. -/
def Finishing (env : Env N) (token : String) : Bool → Iam N Reply → Prop
  | _, .ret _ => True
  | _, .throw _ => True
  | b, .call o next => (SparesSessions o ∧ ∀ r, Finishing env token b (next r)) ∨
      (b = true ∧ (∃ i hash d ip e, o = .insertSession i hash d ip e ∧
        env.bcryptCompare token hash = false) ∧ ∀ r, Finishing env token false (next r))

/-- While the sessions are unchanged, the refresh gets to tokens only through
revoking the session. -/
def Exchanging (env : Env N) (w : World) (token : String) (s₀ : Session) : Iam N Reply → Prop
  | .ret reply => reply.tokens? = none
  | .throw _ => True
  | .call o next =>
      (o = .saveSession { s₀ with isRevoked := true } ∧ ∀ r, Finishing env token true (next r)) ∨
      (SparesSessions o ∧ ∀ r, Answers env w o r → Unchanged w o r →
        Exchanging env w token s₀ (next r))

/-- No new session token is the token. -/
def NotReissued (env : Env N) (token : String) : Prop :=
  ∀ salt a b c d, env.bcryptCompare token (env.bcryptHash salt (env.random36 a ++ env.random36 b ++
    env.random36 c ++ env.random36 d)) = false

theorem notReissued_signed {env : Env N} (hb : IdealBcrypt env) (hu : SessionTokensUnsigned env)
    (key : String) (payload : JwtPayload) : NotReissued env (env.jwtSign key payload) := by
  intro salt a b c d
  apply Bool.eq_false_iff.mpr
  intro hmatch
  exact hu key payload a b c d ((hb salt _ _).mp hmatch)

/-- The part of `refresh` behind the check of the signature. -/
def exchange (env : Env N) (token : String) (ip device : String) (payload : JwtPayload) :
    Iam N Reply := do
  if ← validateRefreshToken (.uuid payload.sub) (some (.str token)) then
    match ← findById (.uuid payload.sub) with
    | none => Prog.throw (.unauthorized "Usuario no encontrado o inactivo")
    | some user =>
      if user.isActive then
        let accessToken ← generateAccessToken env user.id user.email
        let newRefreshToken ← generateRefreshToken env user.id
        revokeSession (.uuid user.id) (some (.str token))
        let _ ← createRefreshToken env user.id device ip
        log env "TOKEN_REFRESH" (some user.id) ip device true
        return .session ⟨accessToken, newRefreshToken, 900⟩
      else Prog.throw (.unauthorized "Usuario no encontrado o inactivo")
  else Prog.throw (.unauthorized "Refresh token inválido o expirado")

/-- The refresh has yet to read the sessions. -/
inductive Waiting (env : Env N) (token : String) : Iam N Reply → Prop
  | start (ip device : String) : Waiting env token (refresh env (some (.str token)) ip device)
  | verified (ip device : String) (payload : JwtPayload) :
      Waiting env token (exchange env token ip device payload)

section Programs

variable {env : Env N} {w : World} {token : String} {s₀ : Session}

theorem refresh_eq (env : Env N) (token ip device : String) :
    refresh env (some (.str token)) ip device = .call .now fun t =>
      match env.jwtVerify (refreshKey env) token t with
      | none => .throw (.unauthorized "Refresh token inválido")
      | some payload => exchange env token ip device payload := by
  simp only [refresh, verifyRefreshToken, verifyToken, now, Prog.perform, Prog.call_bind,
    Prog.ret_bind, Prog.pure_eq]
  congr 1

/-- A refresh that has checked the signature. -/
theorem verified_or_refused (ip device : String) (t : Time) :
    Waiting env token (match env.jwtVerify (refreshKey env) token t with
      | none => .throw (.unauthorized "Refresh token inválido")
      | some payload => exchange env token ip device payload) ∨
    Refused env w (match env.jwtVerify (refreshKey env) token t with
      | none => .throw (.unauthorized "Refresh token inválido")
      | some payload => exchange env token ip device payload) := by
  cases env.jwtVerify (refreshKey env) token t with
  | none => exact Or.inr trivial
  | some payload => exact Or.inl (.verified ip device payload)

theorem exchanging_bind {p : Iam N α} {f : α → Iam N Reply}
    (hp : Prog.Every SparesSessions (fun _ => True) p)
    (hf : ∀ a, Exchanging env w token s₀ (f a)) : Exchanging env w token s₀ (p >>= f) := by
  induction p with
  | ret a => exact hf a
  | throw e => trivial
  | call o next ih => exact Or.inr ⟨hp.1, fun r _ _ => ih r (hp.2 r)⟩

theorem spares_generateAccessToken (i : UserId) (email : String) :
    Prog.Every SparesSessions (fun _ => True) (generateAccessToken env i email) :=
  ⟨trivial, fun _ => trivial⟩

theorem spares_generateRefreshToken (i : UserId) :
    Prog.Every SparesSessions (fun _ => True) (generateRefreshToken env i) :=
  ⟨trivial, fun _ => ⟨trivial, fun _ => ⟨trivial, fun _ => trivial⟩⟩⟩

/-- What is left of a refresh whose session is revoked. -/
theorem finishing_createRefreshToken (hnew : NotReissued env token) (i : UserId)
    (ip device : String) (reply : Reply) :
    Finishing env token true (createRefreshToken env i device ip >>= fun _ =>
      log env "TOKEN_REFRESH" (some i) ip device true >>= fun _ => .ret reply) := by
  refine Or.inl ⟨trivial, fun a => Or.inl ⟨trivial, fun b => Or.inl ⟨trivial, fun c =>
    Or.inl ⟨trivial, fun d => Or.inl ⟨trivial, fun salt => Or.inl ⟨trivial, fun t => ?_⟩⟩⟩⟩⟩⟩
  refine Or.inr ⟨rfl, ⟨_, _, _, _, _, rfl, hnew salt a b c d⟩, fun _ => ?_⟩
  exact Or.inl ⟨trivial, fun _ => Or.inl ⟨trivial, fun _ => trivial⟩⟩

/-- A validation all of whose matching sessions have expired. -/
theorem refused_anyValid {ss : List Session} {f : Bool → Iam N Reply} {e : Failure}
    (hf : f false = .throw e)
    (hss : ∀ s ∈ ss, env.bcryptCompare token s.refreshToken = true → s.expiresAt ≤ w.clock) :
    Refused env w (anyValid (some (.str token)) ss >>= f) := by
  induction ss with
  | nil =>
    change Refused env w (f false)
    rw [hf]
    trivial
  | cons s ss ih =>
    have htail := ih fun s' hs' => hss s' (List.mem_cons_of_mem s hs')
    refine ⟨trivial, fun b hb => ?_⟩
    cases b with
    | false => exact htail
    | true =>
      have hexpired := hss s List.mem_cons_self hb.symm
      refine ⟨trivial, fun t ht => ?_⟩
      have hnot : ¬ t < s.expiresAt := Nat.not_lt.mpr (Nat.le_trans hexpired ht)
      change Refused env w ((if t < s.expiresAt then _ else _) >>= f)
      rw [if_neg hnot]
      exact htail

theorem exchanging_anyValid {ss : List Session} {f : Bool → Iam N Reply} {e : Failure}
    (hf : f false = .throw e)
    (hvalid : ∀ s ∈ ss, env.bcryptCompare token s.refreshToken = true → w.clock < s.expiresAt →
      Exchanging env w token s₀ (f true)) :
    Exchanging env w token s₀ (anyValid (some (.str token)) ss >>= f) := by
  induction ss with
  | nil =>
    change Exchanging env w token s₀ (f false)
    rw [hf]
    trivial
  | cons s ss ih =>
    have htail := ih fun s' hs' => hvalid s' (List.mem_cons_of_mem s hs')
    refine Or.inr ⟨trivial, fun b hb _ => ?_⟩
    cases b with
    | false => exact htail
    | true =>
      refine Or.inr ⟨trivial, fun t ht _ => ?_⟩
      change Exchanging env w token s₀ ((if t < s.expiresAt then _ else _) >>= f)
      split
      · next hlt =>
        exact hvalid s List.mem_cons_self hb.symm (Nat.lt_of_le_of_lt ht hlt)
      · exact htail

theorem exchanging_revokeFirst {ss : List Session} {f : Unit → Iam N Reply}
    (hfirst : firstMatch env token ss = some s₀) (hf : Finishing env token true (f ())) :
    Exchanging env w token s₀ (revokeFirst (some (.str token)) ss >>= f) := by
  induction ss with
  | nil => cases hfirst
  | cons s ss ih =>
    refine Or.inr ⟨trivial, fun b hb _ => ?_⟩
    cases b with
    | true =>
      have hmatch : env.bcryptCompare token s.refreshToken = true := hb.symm
      obtain rfl : s = s₀ := by simpa [firstMatch, hmatch] using hfirst
      exact Or.inl ⟨rfl, fun _ => hf⟩
    | false =>
      have hmatch : env.bcryptCompare token s.refreshToken = false := hb.symm
      exact ih (by simpa [firstMatch, hmatch] using hfirst)

/-- A refresh that has read the sessions there were at the start. -/
theorem exchanging_exchange (honly : OnlySession env w token s₀) (hnew : NotReissued env token)
    (ip device : String) (payload : JwtPayload) :
    ∃ next, exchange env token ip device payload =
        .call (.findSessions (some payload.sub)) next ∧
      Exchanging env w token s₀ (next (w.findSessions (some payload.sub))) ∧
      ∀ ss : List Session, (∀ s ∈ ss, env.bcryptCompare token s.refreshToken = true →
        s.expiresAt ≤ w.clock) → Refused env w (next ss) := by
  refine ⟨_, rfl, ?_, fun ss hss => refused_anyValid rfl hss⟩
  apply exchanging_anyValid rfl
  intro s hs hmatch hlive
  obtain ⟨hmem, hcond⟩ := List.mem_filter.mp hs
  simp only [Bool.and_eq_true, Bool.not_eq_true', Option.all_some, decide_eq_true_eq] at hcond
  obtain rfl := honly.only s hmem hcond.1 hlive hmatch
  refine Or.inr ⟨trivial, fun u hu _ => ?_⟩
  cases u with
  | none => trivial
  | some user =>
    have hid : user.id = s.userId := hu.trans hcond.2.symm
    change Exchanging env w token s (if user.isActive then _ else _)
    split
    · apply exchanging_bind (spares_generateAccessToken _ _)
      intro accessToken
      apply exchanging_bind (spares_generateRefreshToken _)
      intro newRefreshToken
      refine Or.inr ⟨trivial, fun ss _ hss => ?_⟩
      apply exchanging_revokeFirst
      · rw [show ss = w.findSessions (some user.id) from hss, hid]
        exact honly.first
      · exact finishing_createRefreshToken hnew _ _ _ _
    · trivial

end Programs

/-! The two stages of a run -/

section Stages

variable {env : Env N} {w : World} {token : String} {s₀ : Session} {c : Refreshes N}

/-- Where the refresh `k` is, with its operations and what is left of it, as long as
no session is revoked. -/
inductive Phase (env : Env N) (w : World) (token : String) (s₀ : Session) (j : Option ℕ) (k : ℕ)
    (l : List (Exchange (Res N))) (p : Iam N Reply) : Prop
  | waiting (unread : looked l = false) (waiting : Waiting env token p)
  | refused (refused : Refused env w p)
  | exchanging (only : j = some k) (found : found env token l = true)
      (exchanging : Exchanging env w token s₀ p)

/-- No session is revoked yet. At most one refresh, `j`, has found one and is going on. -/
structure Before (env : Env N) (w : World) (token : String) (s₀ : Session) (j : Option ℕ)
    (c : Refreshes N) : Prop where
  sessions : c.state.sessions = w.sessions
  clock : w.clock ≤ c.state.clock
  unsaved : ∀ k, saved (own k c.log) = false
  threads : ∀ (k : ℕ) (p : Iam N Reply), c.threads[k]? = some p →
    Phase env w token s₀ j k (own k c.log) p

/-- The refresh `j` has revoked the session, and the token matches no other one that
has not expired. `b` says whether it has yet to insert one. -/
structure After (env : Env N) (w : World) (token : String) (j : ℕ) (b : Bool)
    (c : Refreshes N) : Prop where
  clock : w.clock ≤ c.state.clock
  drained : ∀ s ∈ c.state.sessions.rows, s.isRevoked = false →
    env.bcryptCompare token s.refreshToken = true → s.expiresAt ≤ w.clock
  size : c.state.sessions.rows.length + b.toNat ≤ w.sessions.rows.length + 1
  finishing : ∃ p, c.threads[j]? = some p ∧ Finishing env token b p
  others : ∀ (k : ℕ) (p : Iam N Reply), k ≠ j → c.threads[k]? = some p →
    Waiting env token p ∨ Refused env w p

theorem clock_exec (env : Env N) (o : Op N) (w : World) : (exec env o w).2.clock = w.clock := by
  cases o <;> rfl

theorem sessions_exec (env : Env N) {o : Op N} (h : SparesSessions o) (w : World) :
    (exec env o w).2.sessions = w.sessions := by
  cases o <;> first | rfl | exact h.elim

theorem answers_exec (env : Env N) {w w' : World} (h : w.clock ≤ w'.clock) (o : Op N) :
    Answers env w o (exec env o w').1 := by
  cases o with
  | findUser c =>
    have hsound := TokenRaces.sound_exec env (.findUser c) w'
    rcases c with (_ | i) | c | c
    case id.some =>
      change Answers env w (.findUser (.id (some i))) (w'.findUser (.id (some i)))
      cases hu : w'.findUser (.id (some i)) with
      | none => trivial
      | some u =>
        have hid : TokenRaces.Sound (.findUser (.id (some i)) : Op N)
            (w'.findUser (.id (some i))) := hsound
        rw [hu] at hid
        exact hid
    all_goals trivial
  | bcryptCompare data hash => rfl
  | now => exact h
  | _ => trivial

theorem unchanged_exec (env : Env N) {w w' : World} (h : w'.sessions = w.sessions) (o : Op N) :
    Unchanged w o (exec env o w').1 := by
  cases o with
  | findSessions i =>
    change w'.findSessions i = w.findSessions i
    rw [World.findSessions, World.findSessions, h]
  | _ => trivial

theorem saved_snoc {o : Op N} (h : SparesSessions o) (l : List (Exchange (Res N))) (r : Res N o) :
    saved (l ++ [⟨o, r⟩]) = saved l := by
  cases o <;> first | exact h.elim | simp [saved]

/-- A refresh makes a step that leaves the sessions as they are. -/
theorem before_perform {j j' : Option ℕ} {k : ℕ} {o : Op N} {next : Res N o → Iam N Reply}
    (h : Before env w token s₀ j c) (hk : c.threads[k]? = some (.call o next))
    (ho : SparesSessions o)
    (hphase : Phase env w token s₀ j' k (own k c.log ++ [⟨o, (exec env o c.state).1⟩])
      (next (exec env o c.state).1))
    (hothers : ∀ k' p, c.threads[k']? = some p → Phase env w token s₀ j' k' (own k' c.log) p) :
    Before env w token s₀ j' (c.perform (exec env) k o next) := by
  constructor
  · exact (sessions_exec env ho c.state).trans h.sessions
  · exact h.clock.trans (clock_exec env o c.state).ge
  · intro k'
    by_cases hk' : k' = k
    · rw [hk', Pool.own_perform_self, saved_snoc ho]
      exact h.unsaved k
    · rw [Pool.own_perform_of_ne hk']
      exact h.unsaved k'
  · intro k' p hp
    rcases Pool.threads_perform_cases hk hp with ⟨rfl, rfl⟩ | ⟨hk', hp⟩
    · rw [Pool.own_perform_self]
      exact hphase
    · rw [Pool.own_perform_of_ne hk']
      exact hothers k' p hp

/-- No refresh is open when one makes its first read. -/
theorem phase_of_alone {j : Option ℕ} {k : ℕ} {i : Option UserId}
    {next : List Session → Iam N Reply} (h : Before env w token s₀ j c)
    (hk : c.threads[k]? = some (.call (.findSessions i) next))
    (hlook : looked (own k c.log) = false) (ha : alone env token c (.thread k) = true) (k' : ℕ)
    (p : Iam N Reply) (hp : c.threads[k']? = some p) :
    Phase env w token s₀ (some k) k' (own k' c.log) p := by
  cases h.threads k' p hp with
  | waiting hl hw => exact .waiting hl hw
  | refused hr => exact .refused hr
  | exchanging _ hf he =>
    have hnone : (List.range c.threads.length).any (open? env token c) = false := by
      simpa [alone, hk, hlook] using ha
    have hlt : k' < c.threads.length := (List.getElem?_eq_some_iff.mp hp).1
    have hclosed : open? env token c k' = false := by
      simpa using List.any_eq_false.mp hnone k' (List.mem_range.mpr hlt)
    have hstopped : TokenRaces.running c k' = false := by
      simpa [open?, hf, h.unsaved k'] using hclosed
    apply Phase.refused
    cases p with
    | ret reply => exact he
    | throw e => trivial
    | call o next => simp [TokenRaces.running, hp] at hstopped

/-- The session is saved as revoked. -/
theorem after_of_save (honly : OnlySession env w token s₀) {j : Option ℕ} {k : ℕ}
    {next : Unit → Iam N Reply} (h : Before env w token s₀ j c) (hj : j = some k)
    (hk : c.threads[k]? = some (.call (.saveSession { s₀ with isRevoked := true }) next))
    (hnext : ∀ r, Finishing env token true (next r)) :
    After env w token k true
      (c.perform (exec env) k (.saveSession { s₀ with isRevoked := true }) next) := by
  have hput : (c.perform (exec env) k (.saveSession { s₀ with isRevoked := true })
      next).state.sessions = w.sessions.put { s₀ with isRevoked := true } :=
    congrArg (·.put { s₀ with isRevoked := true }) h.sessions
  constructor
  · exact h.clock
  · rw [hput]
    intro s hs hlive hmatch
    rcases Table.mem_put hs with rfl | ⟨hs, hid⟩
    · cases hlive
    · apply Nat.le_of_not_lt
      intro hlt
      have hsame := honly.only s hs hlive hlt hmatch
      exact hid (by rw [hsame])
  · have hlength := Table.length_put_of_mem (r := { s₀ with isRevoked := true }) honly.mem rfl
    rw [hput, hlength]
    exact Nat.le_refl _
  · exact ⟨_, Pool.threads_perform_self hk, hnext ()⟩
  · intro k' p hk' hp
    rw [Pool.threads_perform_of_ne hk'] at hp
    cases h.threads k' p hp with
    | waiting _ hw => exact Or.inl hw
    | refused hr => exact Or.inr hr
    | exchanging hjk' _ _ => exact absurd (Option.some.inj (hjk'.symm.trans hj)) hk'

/-- A refresh that has not read the sessions makes a step, which may be that read. -/
theorem before_waiting (honly : OnlySession env w token s₀) (hnew : NotReissued env token)
    {j : Option ℕ} {k : ℕ} {o : Op N} {next : Res N o → Iam N Reply}
    (h : Before env w token s₀ j c) (hk : c.threads[k]? = some (.call o next))
    (hlook : looked (own k c.log) = false) (hwaiting : Waiting env token (.call o next))
    (ha : alone env token c (.thread k) = true) :
    ∃ j, Before env w token s₀ j (c.perform (exec env) k o next) := by
  generalize hp : Prog.call o next = p at hwaiting
  cases hwaiting with
  | start ip device =>
    rw [refresh_eq] at hp
    cases hp
    refine ⟨j, before_perform h hk trivial ?_ h.threads⟩
    have hlook' : looked (own k c.log ++ [⟨.now, c.state.clock⟩]) = false := by
      simpa [looked] using hlook
    rcases verified_or_refused (w := w) ip device c.state.clock with hw | hr
    · exact .waiting hlook' hw
    · exact .refused hr
  | verified ip device payload =>
    obtain ⟨next', hcall, hexchanging, hrefused⟩ :=
      exchanging_exchange honly hnew ip device payload
    rw [hcall] at hp
    cases hp
    refine ⟨some k, before_perform h hk trivial ?_ (phase_of_alone h hk hlook ha)⟩
    have hread : (exec env (.findSessions (some payload.sub)) c.state).1 =
        w.findSessions (some payload.sub) := unchanged_exec env h.sessions (.findSessions _)
    rw [hread]
    by_cases hmatch : (w.findSessions (some payload.sub)).any
        fun s => env.bcryptCompare token s.refreshToken
    · refine .exchanging rfl ?_ hexchanging
      rw [found, List.any_append]
      exact Bool.or_eq_true_iff.mpr (Or.inr (by simpa using hmatch))
    · refine .refused (hrefused _ fun s hs hs' => ?_)
      exact absurd (List.any_eq_true.mpr ⟨s, hs, hs'⟩) hmatch

/-- A run that has not revoked the session makes a step. -/
theorem before_turn (honly : OnlySession env w token s₀) (hnew : NotReissued env token)
    {j : Option ℕ} {k : ℕ} {o : Op N} {next : Res N o → Iam N Reply}
    (h : Before env w token s₀ j c) (hk : c.threads[k]? = some (.call o next))
    (ha : alone env token c (.thread k) = true) :
    (∃ j, Before env w token s₀ j (c.perform (exec env) k o next)) ∨
      ∃ j b, After env w token j b (c.perform (exec env) k o next) := by
  have hanswer := answers_exec env h.clock o
  cases h.threads k _ hk with
  | waiting hlook hwaiting => exact Or.inl (before_waiting honly hnew h hk hlook hwaiting ha)
  | refused hr =>
    left
    exact ⟨j, before_perform h hk hr.1 (.refused (hr.2 _ hanswer)) h.threads⟩
  | exchanging hj hf he =>
    rcases he with ⟨rfl, hnext⟩ | ⟨hspares, hnext⟩
    · exact Or.inr ⟨k, true, after_of_save honly h hj hk hnext⟩
    · left
      refine ⟨j, before_perform h hk hspares (.exchanging hj ?_ ?_) h.threads⟩
      · rw [found, List.any_append]
        exact Bool.or_eq_true_iff.mpr (Or.inl hf)
      · exact hnext _ hanswer (unchanged_exec env h.sessions o)

/-- A step that leaves the sessions as they are, behind the revocation. -/
theorem after_perform {j k : ℕ} {b : Bool} {o : Op N} {next : Res N o → Iam N Reply}
    (h : After env w token j b c) (hk : c.threads[k]? = some (.call o next))
    (ho : SparesSessions o)
    (hself : k = j → Finishing env token b (next (exec env o c.state).1))
    (hother : k ≠ j → Waiting env token (next (exec env o c.state).1) ∨
      Refused env w (next (exec env o c.state).1)) :
    After env w token j b (c.perform (exec env) k o next) := by
  have hsessions : (c.perform (exec env) k o next).state.sessions = c.state.sessions :=
    sessions_exec env ho c.state
  constructor
  · exact h.clock.trans (clock_exec env o c.state).ge
  · rw [hsessions]
    exact h.drained
  · rw [hsessions]
    exact h.size
  · by_cases hkj : k = j
    · subst hkj
      exact ⟨_, Pool.threads_perform_self hk, hself rfl⟩
    · rw [Pool.threads_perform_of_ne fun he => hkj he.symm]
      exact h.finishing
  · intro k' p hk' hp
    rcases Pool.threads_perform_cases hk hp with ⟨rfl, rfl⟩ | ⟨-, hp⟩
    · exact hother hk'
    · exact h.others k' p hk' hp

/-- The refresh that has revoked the session inserts one. -/
theorem after_insert {j : ℕ} {i : UserId} {hash : String} {d ip : Option String} {e : Time}
    {next : Unit → Iam N Reply} (h : After env w token j true c)
    (hj : c.threads[j]? = some (.call (.insertSession i hash d ip e) next))
    (hnew : env.bcryptCompare token hash = false) (hnext : ∀ r, Finishing env token false (next r)) :
    After env w token j false (c.perform (exec env) j (.insertSession i hash d ip e) next) := by
  constructor
  · exact h.clock
  · intro s hs hlive hmatch
    rcases Table.mem_put hs with rfl | ⟨hs, -⟩
    · rw [hnew] at hmatch
      cases hmatch
    · exact h.drained s hs hlive hmatch
  · have hlength := Table.length_put_le c.state.sessions
      ⟨freshId c.state.sessions, i, hash, d, ip, e, false⟩
    exact hlength.trans h.size
  · exact ⟨_, Pool.threads_perform_self hj, hnext ()⟩
  · intro k p hk hp
    rw [Pool.threads_perform_of_ne hk] at hp
    exact h.others k p hk hp

/-- A run that has revoked the session makes a step. -/
theorem after_turn (honly : OnlySession env w token s₀) (hnew : NotReissued env token)
    {j k : ℕ} {b : Bool} {o : Op N} {next : Res N o → Iam N Reply}
    (h : After env w token j b c) (hk : c.threads[k]? = some (.call o next)) :
    ∃ b, After env w token j b (c.perform (exec env) k o next) := by
  by_cases hkj : k = j
  · subst hkj
    obtain ⟨p, hp, hfinishing⟩ := h.finishing
    obtain rfl := Option.some.inj (hp.symm.trans hk)
    rcases hfinishing with ⟨hspares, hnext⟩ | ⟨rfl, ⟨i, hash, d, ip, e, rfl, hfalse⟩, hnext⟩
    · exact ⟨b, after_perform h hk hspares (fun _ => hnext _) fun hne => absurd rfl hne⟩
    · exact ⟨false, after_insert h hk hfalse hnext⟩
  · have hnot : k = j → Finishing env token b (next (exec env o c.state).1) :=
      fun he => absurd he hkj
    rcases h.others k _ hkj hk with hwaiting | hr
    · generalize hp : Prog.call o next = p at hwaiting
      cases hwaiting with
      | start ip device =>
        rw [refresh_eq] at hp
        cases hp
        exact ⟨b, after_perform h hk trivial hnot fun _ => verified_or_refused ip device _⟩
      | verified ip device payload =>
        obtain ⟨next', hcall, -, hrefused⟩ := exchanging_exchange honly hnew ip device payload
        rw [hcall] at hp
        cases hp
        refine ⟨b, after_perform h hk trivial hnot fun _ => Or.inr (hrefused _ fun s hs hs' => ?_)⟩
        obtain ⟨hmem, hcond⟩ := List.mem_filter.mp hs
        simp only [Bool.and_eq_true, Bool.not_eq_true'] at hcond
        exact h.drained s hmem hcond.1 hs'
    · have hnext := hr.2 _ (answers_exec env h.clock o)
      exact ⟨b, after_perform h hk hr.1 hnot fun _ => Or.inr hnext⟩

/-- The run is at one of its stages. -/
def Staged (env : Env N) (w : World) (token : String) (s₀ : Session) (c : Refreshes N) : Prop :=
  (∃ j, Before env w token s₀ j c) ∨ ∃ j b, After env w token j b c

theorem staged_turn (honly : OnlySession env w token s₀) (hnew : NotReissued env token)
    (t : Turn Time) (h : Staged env w token s₀ c) (ha : alone env token c t = true) :
    Staged env w token s₀ (c.turn (exec env) tick t) := by
  cases t with
  | outside t =>
    have hclock : c.state.clock ≤ t := by simpa [alone] using ha
    have hown : ∀ k, own k (c.turn (exec env) tick (.outside t)).log = own k c.log := by
      intro k
      simp [Pool.turn, own]
    rcases h with ⟨j, h⟩ | ⟨j, b, h⟩
    · left
      refine ⟨j, h.sessions, h.clock.trans hclock, fun k => ?_, fun k p hp => ?_⟩
      · rw [hown k]
        exact h.unsaved k
      · rw [hown k]
        exact h.threads k p hp
    · exact Or.inr ⟨j, b, h.clock.trans hclock, h.drained, h.size, h.finishing, h.others⟩
  | thread k =>
    rcases Pool.turn_thread_cases (exec env) tick c k with ⟨o, next, hk, hturn⟩ | ⟨-, hturn⟩
    · rw [hturn]
      rcases h with ⟨j, h⟩ | ⟨j, b, h⟩
      · exact before_turn honly hnew h hk ha
      · exact Or.inr ⟨j, after_turn honly hnew h hk⟩
    · rw [hturn]
      exact h

theorem staged_start (w : World) (token : String) (s₀ : Session) (calls : List (String × String)) :
    Staged env w token s₀
      (Pool.start (calls.map fun c => refresh env (some (.str token)) c.1 c.2) w) := by
  left
  refine ⟨none, rfl, Nat.le_refl _, fun k => rfl, fun k p hp => ?_⟩
  obtain ⟨call, -, rfl⟩ := List.mem_map.mp (List.mem_of_getElem? hp)
  exact .waiting rfl (.start call.1 call.2)

/-- Only the refresh that has revoked the session has tokens. -/
theorem Staged.one_reply (h : Staged env w token s₀ c) {k k' : ℕ} {t t' : TokenPair}
    (hk : c.threads[k]? = some (.ret (.session t)))
    (hk' : c.threads[k']? = some (.ret (.session t'))) : k = k' := by
  have hwaiting : ∀ t, ¬ Waiting env token (.ret (.session t) : Iam N Reply) := by
    intro t hw
    generalize hp : (.ret (.session t) : Iam N Reply) = p at hw
    cases hw with
    | start ip device =>
      rw [refresh_eq] at hp
      cases hp
    | verified ip device payload => cases hp
  rcases h with ⟨j, h⟩ | ⟨j, b, h⟩
  · cases h.threads k _ hk with
    | waiting _ hw => exact absurd hw (hwaiting t)
    | refused hr => cases hr
    | exchanging _ _ he => cases he
  · have hone : ∀ k t, c.threads[k]? = some (.ret (.session t)) → k = j := by
      intro k t hk
      by_contra hne
      rcases h.others k _ hne hk with hw | hr
      · exact hwaiting t hw
      · cases hr
    rw [hone k t hk, hone k' t' hk']

theorem Staged.one_session (h : Staged env w token s₀ c) :
    c.state.sessions.rows.length ≤ w.sessions.rows.length + 1 := by
  rcases h with ⟨j, h⟩ | ⟨j, b, h⟩
  · rw [h.sessions]
    exact Nat.le_succ _
  · exact (Nat.le_add_right _ _).trans h.size

end Stages

/-- Where every validating read is alone, at most one refresh of a token is given new
tokens and at most one session is inserted. -/
theorem exchanged_once (env : Env N) (hb : IdealBcrypt env) (hu : SessionTokensUnsigned env)
    (w : World) (payload : JwtPayload) (s₀ : Session)
    (honly : OnlySession env w (env.jwtSign (refreshKey env) payload) s₀)
    (calls : List (String × String)) (sched : List (Turn Time))
    (halone : Pool.Admits (exec env) tick
      (fun c t => alone env (env.jwtSign (refreshKey env) payload) c t = true)
      (refreshedTogether env w (env.jwtSign (refreshKey env) payload) calls []) sched) :
    let c := refreshedTogether env w (env.jwtSign (refreshKey env) payload) calls sched
    (∀ (j k : ℕ) (t t' : TokenPair), c.threads[j]? = some (.ret (.session t)) →
      c.threads[k]? = some (.ret (.session t')) → j = k) ∧
    c.state.sessions.rows.length ≤ w.sessions.rows.length + 1 := by
  intro c
  have hnew : NotReissued env (env.jwtSign (refreshKey env) payload) :=
    notReissued_signed hb hu (refreshKey env) payload
  have hstaged : Staged env w (env.jwtSign (refreshKey env) payload) s₀ c :=
    Pool.exec_invariant (Staged env w _ s₀) _ (fun c t h ha => staged_turn honly hnew t h ha)
      (staged_start w _ s₀ calls) halone
  exact ⟨fun j k t t' hj hk => hstaged.one_reply hj hk, hstaged.one_session⟩

/-- The session of Eva's refresh token. -/
def evaSession : Session :=
  ⟨0, 3, "$2b$" ++ evaToken.text, some "movil", some "::1", 9000, false⟩

def evaRefreshing : World := { evaWorld.saveSession evaSession with clock := 2000 }

theorem onlySession_evaRefreshing :
    OnlySession evaEnv evaRefreshing evaToken.text evaSession where
  mem := by decide
  live := by decide
  only := by decide
  first := by decide

def evaCalls : List (String × String) := [("::1", "movil"), ("::1", "movil")]

/-- The second refresh runs between the first one's validation and its revocation. -/
def overlapping : List (Turn Time) :=
  List.replicate 5 (.thread 0) ++ List.replicate 21 (.thread 1) ++ List.replicate 16 (.thread 0)

set_option maxRecDepth 2000 in
/-- Both are given new tokens for the one session there is. -/
theorem exchanged_twice :
    OnlySession evaEnv evaRefreshing evaToken.text evaSession ∧
    evaEnv.jwtVerify (refreshKey evaEnv) evaToken.text 2000 = some evaPayload ∧
    (evaRefreshing.findUser (.id (some 3))).map User.isActive = some true ∧
    (∃ t, (refreshedTogether evaEnv evaRefreshing evaToken.text evaCalls
      overlapping).threads[0]? = some (.ret (.session t))) ∧
    (∃ t, (refreshedTogether evaEnv evaRefreshing evaToken.text evaCalls
      overlapping).threads[1]? = some (.ret (.session t))) ∧
    (refreshedTogether evaEnv evaRefreshing evaToken.text evaCalls
      overlapping).state.sessions.rows.length = 3 :=
  ⟨onlySession_evaRefreshing, by decide, by decide, ⟨_, by rfl⟩, ⟨_, by rfl⟩, by decide⟩

def inTurn : List (Turn Time) := List.replicate 21 (.thread 0) ++ List.replicate 4 (.thread 1)

set_option maxRecDepth 2000 in
theorem exchanged_once_inTurn :
    let c := refreshedTogether evaEnv evaRefreshing evaToken.text evaCalls inTurn
    (∃ t, c.threads[0]? = some (.ret (.session t))) ∧
    (∀ (j k : ℕ) (t t' : TokenPair), c.threads[j]? = some (.ret (.session t)) →
      c.threads[k]? = some (.ret (.session t')) → j = k) ∧
    c.state.sessions.rows.length ≤ evaRefreshing.sessions.rows.length + 1 :=
  ⟨⟨_, by rfl⟩, exchanged_once evaEnv (idealBcrypt_plainEnv _) (sessionTokensUnsigned_plainEnv _)
    evaRefreshing evaPayload evaSession onlySession_evaRefreshing evaCalls inTurn (by decide)⟩

set_option maxRecDepth 2000 in
/-- An expired session in front of the other one: one refresh after the other is given
tokens. -/
example :
    let w := { evaWorld with
      sessions := (Table.empty.put { evaSession with id := 1, expiresAt := 1500 }).put evaSession
      clock := 2000 }
    let c := refreshedTogether evaEnv w evaToken.text evaCalls
      (List.replicate 23 (.thread 0) ++ List.replicate 23 (.thread 1))
    c.state.sessions.rows.length = 4 := by decide

end VerdeAuth.TokenExchanges
