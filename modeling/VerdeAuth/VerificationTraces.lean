import VerdeAuth.RefreshTokenChain
import VerdeAuth.RequestFootprints
import VerdeAuth.SecondFactorGate

/-!
# What a verification leaves in the other tables

A login without MFA opens a session. A verification changes user rows only: it
opens no session and writes no audit row, whatever device and address its tokens
are made for.
-/

namespace VerdeAuth.VerificationTraces

open JsonTexts KeyedTables IamTables IamOperations ResumptionPrograms UsersService TokenServices
open MfaServices AuthService MfaController IamEndpoints IamRules IamAssumptions UserRowChanges
open RequestEndings RequestRuns RequestFootprints RefreshTokenChain SecondFactorGate

variable {N α β : Type} {env : Env N}

/-- The operations that write neither a session nor a log. -/
def OnUsers : Op N → Prop
  | .insertSession .. => False
  | .saveSession _ => False
  | .revokeSessions _ => False
  | .deleteSessions _ => False
  | .insertAuditLog _ => False
  | .logSecurity _ => False
  | _ => True

/-- The sessions and the logs are the same. -/
def SameTraces (w w' : World) : Prop :=
  w'.sessions = w.sessions ∧ w'.auditLog = w.auditLog ∧ w'.securityLog = w.securityLog

theorem sameTraces_exec (env : Env N) (w : World) (o : Op N) (w' : World) (ho : OnUsers o)
    (h : SameTraces w w') : SameTraces w (exec env o w').2 := by
  cases o <;> first | contradiction | exact h

def UsersOnly (p : Iam N α) : Prop := Prog.Every OnUsers (fun _ => True) p

theorem UsersOnly.bind {p : Iam N α} {f : α → Iam N β} (hp : UsersOnly p)
    (hf : ∀ a, UsersOnly (f a)) : UsersOnly (p >>= f) := Prog.Every.seq hp hf

theorem usersOnly_ret (a : α) : UsersOnly (.ret a : Iam N α) := trivial

theorem usersOnly_perform (o : Op N) (ho : OnUsers o) : UsersOnly (Prog.perform o : Iam N _) :=
  ⟨ho, fun _ => trivial⟩

theorem usersOnly_of_headerOnly {i : IdParam} {p : Iam N α} (hp : HeaderOnly i p) :
    UsersOnly p := by
  apply Prog.Every.mono hp
  · intro o ho
    cases o <;> trivial
  · exact fun _ _ => trivial

theorem UsersOnly.run {p : Iam N α} (hp : UsersOnly p) (w : World) :
    SameTraces w (p.run (exec env) w).2 :=
  (Prog.Every.holds hp (sameTraces_exec env w) ⟨rfl, rfl, rfl⟩).run_state

theorem usersOnly_update (i : UserId) (p : UserPatch) : UsersOnly (update (.uuid i) p : Iam N Unit) :=
  usersOnly_perform (.updateUser i p) trivial

theorem usersOnly_findById (i : UserId) : UsersOnly (findById (.uuid i) : Iam N (Option User)) :=
  usersOnly_perform (.findUser _) trivial

theorem usersOnly_now : UsersOnly (now : Iam N Time) := usersOnly_perform .now trivial

theorem usersOnly_isMfaLocked (i : UserId) : UsersOnly (isMfaLocked (.uuid i) : Iam N Bool) := by
  apply (usersOnly_findById i).bind
  rintro (_ | u)
  · exact usersOnly_ret false
  · cases hl : u.mfaLockedUntil with
    | none =>
      simp only [hl]
      exact usersOnly_ret false
    | some t =>
      simp only [hl]
      exact usersOnly_now.bind fun _ => usersOnly_ret _

theorem usersOnly_incrementMfaFailedAttempts (i : UserId) :
    UsersOnly (incrementMfaFailedAttempts (.uuid i) : Iam N Unit) := by
  apply (usersOnly_findById i).bind
  rintro (_ | u)
  · exact usersOnly_ret ()
  · simp only
    split
    · exact usersOnly_now.bind fun _ => usersOnly_perform (.saveUser _) trivial
    · exact usersOnly_perform (.saveUser _) trivial

theorem usersOnly_generateTokens (i : UserId) (email : String) :
    UsersOnly (generateTokens env i email) := by
  have hdraw : UsersOnly (draw : Iam N ℕ) := usersOnly_perform .draw trivial
  apply (usersOnly_now.bind fun _ => usersOnly_ret _).bind
  intro accessToken
  apply UsersOnly.bind ?_ fun _ => usersOnly_ret _
  exact hdraw.bind fun _ => hdraw.bind fun _ => usersOnly_now.bind fun _ => usersOnly_ret _

/-- A check of a factor, and what it leaves to write. -/
def UsersOnlyCheck (p : Iam N (Option (Iam N Unit))) : Prop :=
  Prog.Every OnUsers (fun res => ∀ commit, res = .ok (some commit) → UsersOnly commit) p

theorem usersOnlyCheck_plain {valid : Iam N Bool} (h : UsersOnly valid) :
    UsersOnlyCheck (plainCheck valid) := by
  apply (Prog.every_bind valid _).mpr
  apply Prog.Every.mono h (fun _ ho => ho)
  rintro (e | _ | _) - commit hcommit
  · cases hcommit
  · cases hcommit
  · cases hcommit
    exact usersOnly_ret ()

theorem usersOnly_verifyFactor {tempToken : JsonField N} {refusal : String}
    {check : User → Iam N (Option (Iam N Unit))} (hcheck : ∀ u, UsersOnlyCheck (check u)) :
    UsersOnly (verifyFactor env tempToken refusal check) := by
  apply (usersOnly_perform (.findUser _) trivial).bind
  rintro (_ | u)
  · exact usersOnly_ret _
  apply usersOnly_now.bind
  intro t
  split
  · exact usersOnly_ret _
  apply (usersOnly_isMfaLocked u.id).bind
  intro locked
  split
  · exact usersOnly_ret _
  apply (Prog.every_bind (check u) _).mpr
  apply Prog.Every.mono (hcheck u) (fun _ ho => ho)
  rintro (e | _ | commit) hcommit
  · trivial
  · exact (usersOnly_incrementMfaFailedAttempts u.id).bind fun _ => usersOnly_ret _
  · apply (usersOnly_update u.id _).bind
    intro _
    apply (hcommit commit rfl).bind
    intro _
    apply (usersOnly_now.bind fun _ => usersOnly_update u.id _).bind
    intro _
    exact (usersOnly_generateTokens u.id u.email).bind fun _ => usersOnly_ret _

theorem usersOnlyCheck_totp (code : JsonField N) (u : User) :
    UsersOnlyCheck (totpCheck env code u) := by
  apply usersOnlyCheck_plain
  apply usersOnly_of_headerOnly (i := .invalid)
  exact (headerOnly_decryptSecret u.mfaSecret).bind fun s => headerOnly_verifyTotp s code

theorem usersOnlyCheck_biometric [DecidableEq N] (device : JsonField N) (u : User) :
    UsersOnlyCheck (biometricCheck device u) := by
  apply usersOnlyCheck_plain
  apply (usersOnly_findById u.id).bind
  rintro (_ | v)
  · exact usersOnly_ret _
  · exact usersOnly_ret _

section Verifications

variable [JsNumber N] [DecidableEq N]

theorem usersOnlyCheck_backup (code : JsonField N) (u : User) :
    UsersOnlyCheck (backupCheck env code u) := by
  have hvalidate : UsersOnly (validateBackupCode env u.mfaBackupCodes code) :=
    usersOnly_of_headerOnly (headerOnly_validateBackupCode (i := .invalid) u.mfaBackupCodes code)
  apply (Prog.every_bind _ _).mpr
  apply Prog.Every.mono hvalidate (fun _ ho => ho)
  rintro (e | validation) - commit hcommit
  · cases hcommit
  · cases hv : validation.valid with
    | false =>
      simp only [hv] at hcommit
      cases hcommit
    | true =>
      simp only [hv, if_true] at hcommit
      cases hcommit
      exact ⟨trivial, fun _ => usersOnly_update u.id _⟩

/-- A verification writes neither a session nor a log. -/
theorem sameTraces_verification (env : Env N) (w : World) (t : Time) {r : Request N}
    {tempToken : JsonField N} (hr : presented r.route = some tempToken) :
    SameTraces w (serve env t r w).2 := by
  have husers : UsersOnly (handle env r) := by
    rw [handle]
    cases hroute : r.route with
    | verify token code => exact usersOnly_verifyFactor (usersOnlyCheck_totp code)
    | verifyBackup token code => exact usersOnly_verifyFactor (usersOnlyCheck_backup code)
    | verifyBiometric token device => exact usersOnly_verifyFactor (usersOnlyCheck_biometric device)
    | _ =>
      rw [hroute] at hr
      cases hr
  exact husers.run _

/-- The table has one session more: of the user, live, with the device and the
address, for seven days. -/
structure Opened (w w' : World) (i : UserId) (device ip : String) (t : Time) (s : Session) :
    Prop where
  added : w'.sessions.rows = w.sessions.rows ++ [s]
  user : s.userId = i
  live : s.isRevoked = false
  device : s.deviceInfo = some device
  ip : s.ipAddress = some ip
  expires : s.expiresAt = t + sessionMs

/-- A session was opened and the refresh token belongs to it. -/
def OpensFor (env : Env N) (w w' : World) (i : UserId) (device ip : String) (t : Time)
    (tokens : TokenPair) : Prop :=
  ∃ s, Opened w w' i device ip t s ∧
    env.bcryptCompare tokens.refreshToken.text s.refreshToken = true

omit [JsNumber N] [DecidableEq N] in
theorem opened_of_put {w w' : World} {i : UserId} {device ip hash : String} {t : Time}
    (hput : w'.sessions = w.sessions.put
      ⟨freshId w.sessions, i, hash, some device, some ip, t + sessionMs, false⟩) :
    ∃ s, Opened w w' i device ip t s := by
  have hadded : w'.sessions.rows = w.sessions.rows ++
      [⟨freshId w.sessions, i, hash, some device, some ip, t + sessionMs, false⟩] := by
    rw [hput]
    exact put_fresh rfl
  exact ⟨_, hadded, rfl, rfl, rfl, rfl, rfl⟩

omit [JsNumber N] [DecidableEq N] in
theorem opened_completeLogin (env : Env N) (w : World) {u : User} (hm : u.mfaEnabled = false)
    (ip device : String) :
    ∃ s, Opened w ((completeLogin env u ip device).run (exec env) w).2 u.id device ip w.clock s := by
  rw [completeLogin, hm]
  exact opened_of_put rfl

omit [JsNumber N] [DecidableEq N] in
theorem sessions_completeLogin (env : Env N) (w : World) {u : User} (hm : u.mfaEnabled = true)
    (ip device : String) :
    ((completeLogin env u ip device).run (exec env) w).2.sessions = w.sessions := by
  rw [completeLogin, hm]
  rfl

variable {w : World} {t : Time} {r : Request N} {dto : LoginDto N}

/-- A login without MFA opens a session for its device and address. -/
theorem opened_of_login (hr : r.route = .login dto) {tokens : TokenPair}
    (hok : (serve env t r w).1 = .ok (.session tokens)) :
    ∃ s, Opened w (serve env t r w).2 tokens.accessToken.payload.sub r.device r.ip t s := by
  have hending := login_of_route (q := (t, r)) env hr w
  have hserve : serve env t r w = (login env dto r.ip r.device).run (exec env)
      { w with clock := t } := by rw [serve, handle, hr]
  generalize hres : (serve env t r w).1 = res at hending hok
  cases hending with
  | session tokens' hchecked hm hw hfor =>
    cases hok
    rw [hserve, run_login_of_checked hchecked, hfor.1]
    obtain ⟨s, hs⟩ := opened_completeLogin env { w with clock := t } hm r.ip r.device
    exact ⟨s, hs.added, hs.user, hs.live, hs.device, hs.ip, hs.expires⟩
  | unknown => cases hok
  | locked => cases hok
  | broken => cases hok
  | refused => cases hok
  | pending => cases hok

/-- A login that waits for a second factor opens none. -/
theorem sessions_of_pending (hr : r.route = .login dto) {tempToken : String} {method : MfaMethod}
    {biometric : Bool} (hok : (serve env t r w).1 = .ok (.needsMfa tempToken method biometric)) :
    (serve env t r w).2.sessions = w.sessions := by
  have hending := login_of_route (q := (t, r)) env hr w
  have hserve : serve env t r w = (login env dto r.ip r.device).run (exec env)
      { w with clock := t } := by rw [serve, handle, hr]
  generalize hres : (serve env t r w).1 = res at hending hok
  cases hending with
  | pending hchecked hm hw =>
    rw [hserve, run_login_of_checked hchecked]
    exact sessions_completeLogin env { w with clock := t } hm r.ip r.device
  | unknown => cases hok
  | locked => cases hok
  | broken => cases hok
  | refused => cases hok
  | session => cases hok

/-- Of two runs that log the same user in, without MFA and with it, the first opens
a session and the second none. -/
theorem no_session_with_mfa (env : Env N) (w wMfa : World) (t : Time) (r : Request N)
    (dto : LoginDto N) (hr : r.route = .login dto) (tokens : TokenPair)
    (hplain : (serve env t r w).1 = .ok (.session tokens)) (pending : String) (method : MfaMethod)
    (biometric : Bool)
    (hpending : (serve env t r wMfa).1 = .ok (.needsMfa pending method biometric)) (t' : Time)
    (r' : Request N) (tempToken : JsonField N) (hr' : presented r'.route = some tempToken) :
    (∃ s, Opened w (serve env t r w).2 tokens.accessToken.payload.sub r.device r.ip t s) ∧
      ¬ ∃ tokens', (serve env t' r' (serve env t r wMfa).2).1 = .ok (.verified tokens') ∧
        ∃ i device ip t'', OpensFor env wMfa (serve env t' r' (serve env t r wMfa).2).2 i device ip
          t'' tokens' := by
  refine ⟨opened_of_login hr hplain, ?_⟩
  rintro ⟨tokens', -, i, device, ip, t'', s, hopened, -⟩
  have hsame := (sameTraces_verification env (serve env t r wMfa).2 t' hr').1
  rw [sessions_of_pending hr hpending] at hsame
  have hadded := hopened.added
  rw [hsame] at hadded
  simp at hadded

end Verifications

/-- Ana before she turned MFA on. -/
def plainWorld : World := { World.empty.saveUser { ana with mfaEnabled := false } with drawn := 2 }

def anaLogin : Request ℕ :=
  anaRequest (.login ⟨some (.str "ana@verde.ec"), some (.str "clave")⟩)

def anaVerification : Request ℕ := anaRequest (.verify (some (.str "2")) (some (.str "000007")))

/-- What her login with MFA leaves, its second factor included. -/
def anaVerified : World := (serve anaEnv 2000 anaVerification (serve anaEnv 1000 anaLogin anaWorld).2).2

theorem no_session_for_ana :
    (∃ tokens, (serve anaEnv 2000 anaVerification (serve anaEnv 1000 anaLogin anaWorld).2).1 =
      .ok (.verified tokens)) ∧
    (serve anaEnv 1000 anaLogin plainWorld).2.sessions.rows.length = 1 ∧
    anaVerified.sessions.rows = [] ∧
    ∀ t s, ¬ Opened anaWorld anaVerified 1 anaVerification.device anaVerification.ip t s := by
  refine ⟨⟨_, rfl⟩, by decide, by decide, fun t s hopened => ?_⟩
  have hadded := hopened.added
  revert hadded
  simp [show anaVerified.sessions.rows = [] by decide]

theorem no_session_with_mfa_ana :
    (∃ s, Opened plainWorld (serve anaEnv 1000 anaLogin plainWorld).2 1 "unknown" "::1" 1000 s) ∧
      ¬ ∃ tokens, (serve anaEnv 2000 anaVerification
          (serve anaEnv 1000 anaLogin anaWorld).2).1 = .ok (.verified tokens) ∧
        ∃ i device ip t, OpensFor anaEnv anaWorld anaVerified i device ip t tokens :=
  no_session_with_mfa anaEnv plainWorld anaWorld 1000 anaLogin _ rfl _ rfl _ _ _ rfl 2000
    anaVerification _ rfl

end VerdeAuth.VerificationTraces
