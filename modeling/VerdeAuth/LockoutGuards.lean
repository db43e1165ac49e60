import VerdeAuth.AccountWeakening
import VerdeAuth.FactorEnrolment
import VerdeAuth.RefreshTokenChain

/-!
# Lockouts at every check of a secret

What a request does before it has a password or a second factor checked, as a
program of its own. A login and the verifications look at the locks there and
count what fails; `disable` does neither.
-/

namespace VerdeAuth.LockoutGuards

open JsonTexts KeyedTables IamTables IamOperations ResumptionPrograms UsersService TokenServices
open MfaServices AuthService MfaController IamEndpoints IamRules IamAssumptions UserRowChanges
open RequestEndings RequestRuns EnrolmentEvents FactorEnrolment AccountWeakening
open RefreshTokenChain UserRowConsistency

variable {N : Type} {env : Env N} {w : World} {r : Request N} {u : User}

/-- `login` up to its password check, for the user it then checks. -/
def loginGate (env : Env N) (dto : LoginDto N) (ip device : String) : Iam N User := do
  match ← findByEmail env dto.email with
  | none =>
    log env "LOGIN_FAILED" none ip device false
    Prog.throw (.unauthorized "Credenciales inválidas")
  | some user =>
    if ← isLocked user.lockedUntil then
      log env "LOGIN_LOCKED" (some user.id) ip device false
      Prog.throw (.forbidden "Cuenta bloqueada. Intente más tarde.")
    else return user

/-- `disable` behind its guard, up to its password check. -/
def disableGate (env : Env N) (authorization : Option String) (userId : IdParam) : Iam N User := do
  match ← verifyAccessToken env ((authorization.bind env.bearerToken).map Json.str) with
  | none => Prog.throw (.unauthorized "Unauthorized")
  | some _ => requireUser userId

def passwordGate (env : Env N) (r : Request N) : Iam N User :=
  match r.route with
  | .login dto => loginGate env dto r.ip r.device
  | .disable _ _ => disableGate env r.authorization r.userId
  | _ => .throw .internal

/-- A verification up to its factor check, or what it answers before. -/
def sessionGate (env : Env N) (tempToken : JsonField N) : Iam N (Except Reply User) := do
  match ← findByMfaTempToken env tempToken with
  | none => return .error (.message false "Sesión MFA expirada o inválida")
  | some user =>
    if user.mfaTempTokenExpires.getD 0 < (← now) then
      return .error (.message false "Sesión MFA expirada")
    else if ← isMfaLocked (.uuid user.id) then
      return .error (.message false "MFA bloqueado por demasiados intentos fallidos")
    else return .ok user

def factorGate (env : Env N) (r : Request N) : Iam N (Except Reply User) :=
  match r.route with
  | .verify tempToken _ => sessionGate env tempToken
  | .verifyBackup tempToken _ => sessionGate env tempToken
  | .verifyBiometric tempToken _ => sessionGate env tempToken
  | .disable password _ => do
    let user ← disableGate env r.authorization r.userId
    if ← validatePassword user password then return .ok user
    else return .error (.message false "Contraseña incorrecta")
  | _ => .throw .internal

section Factors

variable [JsNumber N] [DecidableEq N]

/-- The check of a second factor, and what else its success has to write. -/
def factorTest (env : Env N) (route : Route N) (user : User) : Iam N (Option (Iam N Unit)) :=
  match route with
  | .verify _ code => totpCheck env code user
  | .verifyBackup _ backupCode => backupCheck env backupCode user
  | .verifyBiometric _ deviceBiometricId => biometricCheck deviceBiometricId user
  | .disable _ code => totpCheck env code user
  | _ => .throw .internal

/-- The requests that check a password, and those that check a second factor. -/
inductive ChecksPassword : Route N → Prop
  | login (dto : LoginDto N) : ChecksPassword (.login dto)
  | disable (password code : JsonField N) : ChecksPassword (.disable password code)

inductive ChecksFactor : Route N → Prop
  | verification {route : Route N} {t : JsonField N} (h : presented route = some t) :
      ChecksFactor route
  | disable (password code : JsonField N) : ChecksFactor (.disable password code)

end Factors

theorem loginGate_ok {dto : LoginDto N} {ip device : String} :
    ((loginGate env dto ip device).run (exec env) w).1 = .ok u ↔
      w.findUser (.email (criterion env dto.email)) = some u ∧
        lockedAt w.clock u.lockedUntil = false := by
  cases hu : w.findUser (.email (criterion env dto.email)) with
  | none => simp [loginGate, findByEmail, exec, hu, log]
  | some v =>
    cases hl : lockedAt w.clock v.lockedUntil with
    | true =>
      simp [loginGate, findByEmail, exec, hu, run_isLocked, hl, log]
      rintro rfl
      simp [hl]
    | false =>
      simp [loginGate, findByEmail, exec, hu, run_isLocked, hl]
      rintro rfl
      exact hl

/-- The row a handler reads for a header; the first one where it is missing. -/
def readRow (w : World) : IdParam → Option User
  | .undefined => w.findUser (.id none)
  | .invalid => none
  | .uuid i => w.users.get? i

theorem run_requireUser (userId : IdParam) :
    (requireUser userId : Iam N User).run (exec env) w =
      ((readRow w userId).elim (.error .internal) .ok, w) := by
  cases userId with
  | undefined =>
    cases hu : w.findUser (.id none) <;>
      simp [requireUser, findById, exec, readRow, hu, orThrow]
  | invalid => rfl
  | uuid i =>
    have hfind : w.findUser (.id (some i)) = w.users.get? i := rfl
    cases hu : w.users.get? i <;>
      simp [requireUser, findById, exec, readRow, hfind, hu, orThrow]

theorem run_verifyAccessToken :
    (verifyAccessToken env ((r.authorization.bind env.bearerToken).map Json.str)).run (exec env) w =
      (.ok (bearerPayload env w r), w) := by
  cases hb : r.authorization.bind env.bearerToken with
  | none =>
    simp [verifyAccessToken, verifyToken, bearerPayload, hb]
  | some s =>
    simp [verifyAccessToken, verifyToken, bearerPayload, hb, now, exec]

theorem run_disableGate :
    (disableGate env r.authorization r.userId).run (exec env) w =
      (if (bearerPayload env w r).isSome then (readRow w r.userId).elim (.error .internal) .ok
        else .error (.unauthorized "Unauthorized"), w) := by
  rw [disableGate, Prog.run_bind, run_verifyAccessToken]
  cases bearerPayload env w r <;> simp [run_requireUser]

theorem disableGate_ok :
    ((disableGate env r.authorization r.userId).run (exec env) w).1 = .ok u ↔
      Authorized env w r ∧ readRow w r.userId = some u := by
  rw [run_disableGate, Authorized]
  by_cases ha : (bearerPayload env w r).isSome = true
  · cases hu : readRow w r.userId <;> simp [ha]
  · simp [ha]

theorem run_isMfaLocked (hu : w.users.get? u.id = some u) :
    (isMfaLocked (.uuid u.id) : Iam N Bool).run (exec env) w =
      (.ok (lockedAt w.clock u.mfaLockedUntil), w) := by
  have hfind : w.findUser (.id (some u.id)) = some u := hu
  cases hl : u.mfaLockedUntil <;>
    simp [isMfaLocked, findById, exec, hfind, hl, lockedAt, now]

theorem sessionGate_ok {tempToken : JsonField N} :
    ((sessionGate env tempToken).run (exec env) w).1 = .ok (.ok u) ↔
      w.findUser (.mfaTempToken (criterion env tempToken)) = some u ∧
        w.clock ≤ u.mfaTempTokenExpires.getD 0 ∧ lockedAt w.clock u.mfaLockedUntil = false := by
  cases hu : w.findUser (.mfaTempToken (criterion env tempToken)) with
  | none => simp [sessionGate, findByMfaTempToken, exec, hu]
  | some v =>
    have hrow : w.users.get? v.id = some v := get?_of_findUser hu
    by_cases ht : v.mfaTempTokenExpires.getD 0 < w.clock
    · simp [sessionGate, findByMfaTempToken, exec, hu, now, ht]
      rintro rfl hle
      exact absurd ht (Nat.not_lt.mpr hle)
    · cases hl : lockedAt w.clock v.mfaLockedUntil with
      | true =>
        simp [sessionGate, findByMfaTempToken, exec, hu, now, ht, run_isMfaLocked hrow, hl]
        rintro rfl _
        exact hl
      | false =>
        simp [sessionGate, findByMfaTempToken, exec, hu, now, ht, run_isMfaLocked hrow, hl]
        rintro rfl
        exact ⟨Nat.le_of_not_lt ht, hl⟩

theorem run_validatePassword {password : JsonField N} {s : String} (hs : password = some (.str s)) :
    (validatePassword u password).run (exec env) w =
      (.ok (env.bcryptCompare s u.passwordHash), w) := by
  subst hs
  rfl

theorem disableFactorGate_ok {password code : JsonField N} (hr : r.route = .disable password code) :
    ((factorGate env r).run (exec env) w).1 = .ok (.ok u) ↔
      Authorized env w r ∧ readRow w r.userId = some u ∧
        ∃ s, password = some (.str s) ∧ env.bcryptCompare s u.passwordHash = true := by
  simp only [factorGate, hr]
  rw [Prog.run_bind]
  have hgate : ∀ v, ((disableGate env r.authorization r.userId).run (exec env) w).1 = .ok v ↔
      Authorized env w r ∧ readRow w r.userId = some v := fun v => disableGate_ok
  rw [run_disableGate] at hgate ⊢
  generalize (if (bearerPayload env w r).isSome then
    (readRow w r.userId).elim (.error .internal) .ok
    else .error (.unauthorized "Unauthorized") : Except Failure User) = res at hgate ⊢
  cases res with
  | error e =>
    simp
    intro ha hu
    exact absurd ((hgate u).mpr ⟨ha, hu⟩) (by simp)
  | ok v =>
    obtain ⟨ha, hv⟩ := (hgate v).mp rfl
    rw [Prog.andThen_ok, Prog.run_bind]
    rcases hp : password with _ | (_ | _ | _ | s | _ | _)
    case some.str =>
      rw [run_validatePassword rfl, Prog.andThen_ok]
      cases hc : env.bcryptCompare s v.passwordHash <;> simp [ha, hv]
      · rintro rfl
        exact hc
      · rintro rfl
        exact hc
    all_goals
      simp [validatePassword, UsersService.compare]

variable [JsNumber N] [DecidableEq N]

/-- The request has a password of the user compared, with the outcome. -/
structure PasswordEvaluated (env : Env N) (w : World) (r : Request N) (u : User) (valid : Bool) :
    Prop where
  gate : ((passwordGate env r).run (exec env) w).1 = .ok u
  password : ∃ s, carriedPassword r.route = some (.str s) ∧ env.bcryptCompare s u.passwordHash = valid

/-- Whether the second factor a request brings passes; `none` where its check throws. -/
def factorOutcome (env : Env N) (t : Time) (u : User) : Route N → Option Bool
  | .disable _ code => totpResult env t u.mfaSecret code
  | route => factorResult env t u route

/-- The request has a second factor of the user checked, with the outcome. -/
structure FactorEvaluated (env : Env N) (w : World) (r : Request N) (u : User) (valid : Bool) :
    Prop where
  gate : ((factorGate env r).run (exec env) w).1 = .ok (.ok u)
  factor : factorOutcome env w.clock u r.route = some valid

/-- While the user is locked no secret of it is evaluated and its lock stays, and an
evaluation that fails is counted. -/
structure LockoutHolds (env : Env N) (w : World) (q : Timed N) (u : User) : Prop where
  password : lockedAt q.1 u.lockedUntil = true →
    ∀ valid, ¬ PasswordEvaluated env { w with clock := q.1 } q.2 u valid
  passwordCounted : PasswordEvaluated env { w with clock := q.1 } q.2 u false →
    ∃ u', (served env w q).users.get? u.id = some u' ∧ u'.failedAttempts = u.failedAttempts + 1
  factor : lockedAt q.1 u.mfaLockedUntil = true →
    (∀ valid, ¬ FactorEvaluated env { w with clock := q.1 } q.2 u valid) ∧
      ∃ u', (served env w q).users.get? u.id = some u' ∧ u'.mfaLockedUntil = u.mfaLockedUntil
  factorCounted : FactorEvaluated env { w with clock := q.1 } q.2 u false →
    ∃ u', (served env w q).users.get? u.id = some u' ∧
      u'.mfaFailedAttempts = u.mfaFailedAttempts + 1

/-- An authorized `disable` that reads the row of the user and brings a password:
while the account is locked, or a wrong password, or a code that is wrong or
checked while the second factor is locked. -/
structure Unguarded (env : Env N) (w : World) (r : Request N) (u : User) (password : String)
    (code : JsonField N) : Prop where
  route : r.route = .disable (some (.str password)) code
  authorized : Authorized env w r
  row : readRow w r.userId = some u
  unguarded : lockedAt w.clock u.lockedUntil = true ∨
    env.bcryptCompare password u.passwordHash = false ∨
    totpResult env w.clock u.mfaSecret code = some false ∨
    (lockedAt w.clock u.mfaLockedUntil = true ∧
      totpResult env w.clock u.mfaSecret code ≠ none)

variable {q : Timed N} {valid : Bool}

omit [JsNumber N] [DecidableEq N] in
theorem passwordEvaluated_login {dto : LoginDto N} (hr : r.route = .login dto) :
    PasswordEvaluated env w r u valid ↔ LoginChecked env w dto valid u := by
  constructor
  · rintro ⟨hgate, hpassword⟩
    simp only [passwordGate, hr, loginGate_ok] at hgate
    rw [hr] at hpassword
    exact ⟨hgate.1, hgate.2, hpassword⟩
  · intro h
    constructor
    · simp only [passwordGate, hr, loginGate_ok]
      exact ⟨h.selected, h.unlocked⟩
    · rw [hr]
      exact h.password

omit [JsNumber N] [DecidableEq N] in
theorem passwordEvaluated_disable {password code : JsonField N}
    (hr : r.route = .disable password code) :
    PasswordEvaluated env w r u valid ↔ Authorized env w r ∧ readRow w r.userId = some u ∧
      ∃ s, password = some (.str s) ∧ env.bcryptCompare s u.passwordHash = valid := by
  constructor
  · rintro ⟨hgate, hpassword⟩
    simp only [passwordGate, hr, disableGate_ok] at hgate
    rw [hr] at hpassword
    exact ⟨hgate.1, hgate.2, hpassword⟩
  · rintro ⟨ha, hu, hpassword⟩
    constructor
    · simp only [passwordGate, hr, disableGate_ok]
      exact ⟨ha, hu⟩
    · rw [hr]
      exact hpassword

omit [JsNumber N] [DecidableEq N] in
theorem not_passwordEvaluated {t : JsonField N} (hp : presented r.route = some t) :
    ¬ PasswordEvaluated env w r u valid := by
  intro h
  have hgate := h.gate
  cases hr : r.route <;> rw [hr] at hp <;> simp [presented] at hp
  all_goals
    simp [passwordGate, hr] at hgate

theorem factorEvaluated_presented {t : JsonField N} (hp : presented r.route = some t) :
    FactorEvaluated env w r u valid ↔ FactorChecked env w r.route valid u := by
  have hgate : ((factorGate env r).run (exec env) w).1 = .ok (.ok u) ↔
      w.findUser (.mfaTempToken (criterion env t)) = some u ∧
        w.clock ≤ u.mfaTempTokenExpires.getD 0 ∧ lockedAt w.clock u.mfaLockedUntil = false := by
    cases hr : r.route <;> rw [hr] at hp <;> simp [presented] at hp
    all_goals
      subst hp
      simp only [factorGate, hr, sessionGate_ok]
  have hfactor : factorOutcome env w.clock u r.route = factorResult env w.clock u r.route := by
    cases hr : r.route <;> rw [hr] at hp <;> simp [presented] at hp
    all_goals rfl
  constructor
  · rintro ⟨h, hf⟩
    obtain ⟨hu, hfresh, hl⟩ := hgate.mp h
    exact ⟨⟨t, hp, hu⟩, hfresh, hl, hfactor ▸ hf⟩
  · intro h
    obtain ⟨t', hp', hu⟩ := h.selected
    rw [hp] at hp'
    cases hp'
    exact ⟨hgate.mpr ⟨hu, h.fresh, h.unlocked⟩, hfactor ▸ h.factor⟩

theorem factorEvaluated_disable {password code : JsonField N}
    (hr : r.route = .disable password code) :
    FactorEvaluated env w r u valid ↔ Authorized env w r ∧ readRow w r.userId = some u ∧
      (∃ s, password = some (.str s) ∧ env.bcryptCompare s u.passwordHash = true) ∧
      totpResult env w.clock u.mfaSecret code = some valid := by
  constructor
  · rintro ⟨hgate, hf⟩
    obtain ⟨ha, hu, hpassword⟩ := (disableFactorGate_ok hr).mp hgate
    rw [hr] at hf
    exact ⟨ha, hu, hpassword, hf⟩
  · rintro ⟨ha, hu, hpassword, hf⟩
    refine ⟨(disableFactorGate_ok hr).mpr ⟨ha, hu, hpassword⟩, ?_⟩
    rw [hr]
    exact hf

theorem not_factorEvaluated {dto : LoginDto N} (hr : r.route = .login dto) :
    ¬ FactorEvaluated env w r u valid := by
  intro h
  have hgate := h.gate
  simp [factorGate, hr] at hgate

/-- A lock of the second factor outlasts a request that does not lift it openly. -/
theorem mfaLock_kept (hu : w.users.get? u.id = some u)
    (hl : lockedAt q.1 u.mfaLockedUntil = true)
    (hroute : ChecksPassword q.2.route ∨ ChecksFactor q.2.route)
    (hdisable : ∀ s code, q.2.route = .disable (some (.str s)) code →
      Authorized env { w with clock := q.1 } q.2 → Addressed { w with clock := q.1 } q.2 u →
      totpResult env q.1 u.mfaSecret code ≠ some true) :
    ∃ u', (served env w q).users.get? u.id = some u' ∧ u'.mfaLockedUntil = u.mfaLockedUntil := by
  have hunlocked : ∀ {valid}, ¬ FactorChecked env { w with clock := q.1 } q.2.route valid u := by
    intro valid h
    have hopen : lockedAt q.1 u.mfaLockedUntil = false := h.unlocked
    rw [hl] at hopen
    cases hopen
  have hopenly : (∀ email, q.2.route ≠ .unlockUser email) ∧
      ∀ email, q.2.route ≠ .resetUser email := by
    constructor <;> intro email hr <;> rw [hr] at hroute <;> rcases hroute with h | h
    all_goals
      cases h
      try contradiction
  rcases get?_of_serve env w q u.id with hsame | ⟨v, u', hchange, hv, hu'⟩
  · exact ⟨u, hsame.trans hu, rfl⟩
  · obtain rfl : v = u := Option.some.inj (hv.symm.trans hu)
    refine ⟨u', hu', ?_⟩
    cases hchange with
    | factorRefused h => exact absurd h hunlocked
    | factorAccepted h => exact absurd h hunlocked
    | codesSpent h => exact absurd h hunlocked
    | factorCompleted h => exact absurd h hunlocked
    | mfaDisabled hr ha haddr hs hp hc => exact absurd hc (hdisable _ _ (hs ▸ hr) ha haddr)
    | unlocked hr => exact absurd hr (hopenly.1 _)
    | reset hr => exact absurd hr (hopenly.2 _)
    | _ => rfl

theorem lockoutHolds_login {dto : LoginDto N} (hr : q.2.route = .login dto)
    (hu : w.users.get? u.id = some u) : LockoutHolds env w q u := by
  constructor
  · intro hl valid h
    have hopen := ((passwordEvaluated_login hr).mp h).unlocked
    rw [hl] at hopen
    cases hopen
  · intro h
    have hl := (passwordEvaluated_login hr).mp h
    obtain ⟨s, hs, hwrong⟩ := hl.password
    have husers := serve_users env q.1 q.2 w
    have hfinal : finalRow env { w with clock := q.1 } q.2 = some (attemptFailed q.1 u) := by
      simp [finalRow, hr, loginRow, hl.selected, hl.unlocked, hs, hwrong]
    rw [hfinal] at husers
    refine ⟨attemptFailed q.1 u, ?_, rfl⟩
    rw [husers]
    exact Table.get?_put_self w.users (attemptFailed q.1 u)
  · intro hl
    refine ⟨fun valid h => not_factorEvaluated hr h, ?_⟩
    apply mfaLock_kept hu hl (Or.inl (hr ▸ .login dto))
    intro s code hr'
    rw [hr] at hr'
    cases hr'
  · intro h
    exact absurd h (not_factorEvaluated hr)

theorem lockoutHolds_presented {t : JsonField N} (hp : presented q.2.route = some t)
    (hu : w.users.get? u.id = some u) : LockoutHolds env w q u := by
  constructor
  · intro _ valid h
    exact not_passwordEvaluated hp h
  · intro h
    exact absurd h (not_passwordEvaluated hp)
  · intro hl
    constructor
    · intro valid h
      have hopen := ((factorEvaluated_presented hp).mp h).unlocked
      rw [hl] at hopen
      cases hopen
    · apply mfaLock_kept hu hl (Or.inr (.verification hp))
      intro s code hr
      rw [hr] at hp
      cases hp
  · intro h
    have husers := serve_users env q.1 q.2 w
    rw [finalRow_of_checked ((factorEvaluated_presented hp).mp h)] at husers
    refine ⟨mfaAttemptFailed q.1 u, ?_, rfl⟩
    rw [husers]
    exact Table.get?_put_self w.users (mfaAttemptFailed q.1 u)

theorem lockoutHolds_disable {password code : JsonField N}
    (hr : q.2.route = .disable password code) (hu : w.users.get? u.id = some u)
    (h : ∀ password code, ¬ Unguarded env { w with clock := q.1 } q.2 u password code) :
    LockoutHolds env w q u := by
  constructor
  · intro hl valid heval
    obtain ⟨ha, hrow, s, rfl, -⟩ := (passwordEvaluated_disable hr).mp heval
    exact h s code ⟨hr, ha, hrow, Or.inl hl⟩
  · intro heval
    obtain ⟨ha, hrow, s, rfl, hwrong⟩ := (passwordEvaluated_disable hr).mp heval
    exact absurd ⟨hr, ha, hrow, Or.inr (Or.inl hwrong)⟩ (h s code)
  · intro hl
    have hnever : ∀ s, password = some (.str s) → Authorized env { w with clock := q.1 } q.2 →
        readRow { w with clock := q.1 } q.2.userId = some u →
        ∀ valid, totpResult env q.1 u.mfaSecret code ≠ some valid := by
      rintro s rfl ha hrow valid hf
      have hsome : totpResult env q.1 u.mfaSecret code ≠ none := by simp [hf]
      exact h s code ⟨hr, ha, hrow, Or.inr (Or.inr (Or.inr ⟨hl, hsome⟩))⟩
    constructor
    · intro valid heval
      obtain ⟨ha, hrow, ⟨s, hs, -⟩, hf⟩ := (factorEvaluated_disable hr).mp heval
      exact hnever s hs ha hrow valid hf
    · apply mfaLock_kept hu hl (Or.inl (hr ▸ .disable password code))
      intro s code' hr' ha haddr hf
      rw [hr] at hr'
      cases hr'
      have hrow : readRow { w with clock := q.1 } q.2.userId = some u := by
        rw [haddr.header]
        exact haddr.row
      exact hnever s rfl ha hrow true hf
  · intro heval
    obtain ⟨ha, hrow, ⟨s, rfl, -⟩, hf⟩ := (factorEvaluated_disable hr).mp heval
    exact absurd ⟨hr, ha, hrow, Or.inr (Or.inr (Or.inl hf))⟩ (h s code)

/-- A `disable` with a wrong password or code changes no row. -/
theorem users_of_refused {password : String} {code : JsonField N}
    (hr : q.2.route = .disable (some (.str password)) code)
    (hrow : readRow { w with clock := q.1 } q.2.userId = some u)
    (h : env.bcryptCompare password u.passwordHash = false ∨
      totpResult env q.1 u.mfaSecret code = some false) :
    (served env w q).users = w.users := by
  have hnone : finalRow env { w with clock := q.1 } q.2 = none := by
    simp only [finalRow, hr]
    rw [Option.eq_none_iff_forall_ne_some]
    intro v hv
    obtain ⟨-, u', haddr, hdisabled⟩ := guardedRow_eq_some.mp hv
    have hsame : u' = u := by
      rw [haddr.header] at hrow
      exact Option.some.inj (haddr.row.symm.trans hrow)
    rw [hsame] at hdisabled
    rcases h with h | h <;> simp [disabledRow, h] at hdisabled
  have husers := serve_users env q.1 q.2 w
  rw [hnone] at husers
  exact husers

theorem not_lockoutHolds {password : String} {code : JsonField N}
    (hu : w.users.get? u.id = some u)
    (h : Unguarded env { w with clock := q.1 } q.2 u password code) : ¬ LockoutHolds env w q u := by
  intro hholds
  have hevaluated : ∀ {valid}, env.bcryptCompare password u.passwordHash = valid →
      PasswordEvaluated env { w with clock := q.1 } q.2 u valid := fun hc =>
    (passwordEvaluated_disable h.route).mpr ⟨h.authorized, h.row, password, rfl, hc⟩
  rcases Bool.eq_false_or_eq_true (env.bcryptCompare password u.passwordHash) with hright | hwrong
  · have hfactor : ∀ {valid}, totpResult env q.1 u.mfaSecret code = some valid →
        FactorEvaluated env { w with clock := q.1 } q.2 u valid := fun hf =>
      (factorEvaluated_disable h.route).mpr ⟨h.authorized, h.row, ⟨password, rfl, hright⟩, hf⟩
    rcases h.unguarded with hl | hwrong | hf | ⟨hl, hsome⟩
    · exact hholds.password hl true (hevaluated hright)
    · rw [hright] at hwrong
      cases hwrong
    · obtain ⟨u', hu', hcount⟩ := hholds.factorCounted (hfactor hf)
      rw [users_of_refused h.route h.row (Or.inr hf), hu] at hu'
      cases hu'
      omega
    · obtain ⟨valid, hvalid⟩ := Option.ne_none_iff_exists'.mp hsome
      exact (hholds.factor hl).1 valid (hfactor hvalid)
  · obtain ⟨u', hu', hcount⟩ := hholds.passwordCounted (hevaluated hwrong)
    rw [users_of_refused h.route h.row (Or.inl hwrong), hu] at hu'
    cases hu'
    omega

/-- In every state, for every user: the lockouts hold for a request that checks a
secret exactly when it is no unguarded `disable`. -/
theorem lockout_holds_iff (env : Env N) (w : World) (q : Timed N)
    (hroute : ChecksPassword q.2.route ∨ ChecksFactor q.2.route) (u : User)
    (hu : u ∈ w.users.rows) :
    LockoutHolds env w q u ↔
      ∀ password code, ¬ Unguarded env { w with clock := q.1 } q.2 u password code := by
  have hrow : w.users.get? u.id = some u := Table.get?_of_mem hu
  constructor
  · intro hholds password code h
    exact not_lockoutHolds hrow h hholds
  · intro h
    generalize hr : q.2.route = route at hroute
    rcases hroute with hpassword | hfactor
    · cases hpassword with
      | login dto => exact lockoutHolds_login hr hrow
      | disable password code => exact lockoutHolds_disable hr hrow h
    · cases hfactor with
      | verification hp => exact lockoutHolds_presented (hr ▸ hp) hrow
      | disable password code => exact lockoutHolds_disable hr hrow h

/-- Ana, with MFA set up and locked out by five wrong passwords. -/
def lockedAna : User :=
  { User.create 1 "ana@verde.ec" "$2b$clave" with
    failedAttempts := 5
    lockedUntil := some 903000
    mfaEnabled := true
    mfaSecret := some "aabab"
    mfaBackupCodes := some ((plainEnv []).encrypt 11
      (stringifyBackupCodes (freshCodes (drawnCodes anaEnv 3 8) : Json ℕ))) }

def passwordGuess (t : Time) : Timed ℕ :=
  (t, ⟨.login ⟨some (.str "ana@verde.ec"), some (.str "otra")⟩, .undefined, none, none, "::1"⟩)

def lockedOut : World :=
  serveAll anaEnv newcomer (enrolment ++ List.replicate 5 (passwordGuess 3000))

theorem rows_lockedOut : lockedOut.users.rows = [lockedAna] := by decide +kernel

def disableGuess : Timed ℕ :=
  (4000, anaRequest (.disable (some (.str "otra")) (some (.str "000002"))))

/-- A `disable` still tells whether her password is right, and counts nothing. -/
theorem lockout_evaded : AllRows Created newcomer ∧ lockedAna ∈ lockedOut.users.rows ∧
    lockedAt disableGuess.1 lockedAna.lockedUntil = true ∧
    (serve anaEnv disableGuess.1 disableGuess.2 lockedOut).1 =
      .ok (.message false "Contraseña incorrecta") ∧
    ¬ LockoutHolds anaEnv lockedOut disableGuess lockedAna := by
  have hmem : lockedAna ∈ lockedOut.users.rows := by
    rw [rows_lockedOut]
    exact List.mem_singleton.mpr rfl
  have hrow : lockedOut.users.get? lockedAna.id = some lockedAna := Table.get?_of_mem hmem
  refine ⟨newcomer_created, hmem, rfl, by decide +kernel, ?_⟩
  have hunguarded : Unguarded anaEnv { lockedOut with clock := 4000 } disableGuess.2 lockedAna
      "otra" (some (.str "000002")) := ⟨rfl, rfl, hrow, Or.inl rfl⟩
  exact not_lockoutHolds hrow hunguarded

theorem lockout_holds_iff_lockedOut :
    LockoutHolds anaEnv lockedOut disableGuess lockedAna ↔ ∀ password code,
      ¬ Unguarded anaEnv { lockedOut with clock := 4000 } disableGuess.2 lockedAna password code :=
  lockout_holds_iff anaEnv lockedOut disableGuess (Or.inl (.disable _ _)) lockedAna
    (by rw [rows_lockedOut]; exact List.mem_singleton.mpr rfl)

end VerdeAuth.LockoutGuards
