import VerdeAuth.CallSites
import VerdeAuth.LockoutGuards
import VerdeAuth.RequestFootprints

/-!
# Checks that requests perform

The places in the handlers where a password or a second factor is checked. The
secrets that are said to be evaluated are those whose check, called at its place,
returns, and a login compares passwords nowhere else.
-/

namespace VerdeAuth.PerformedChecks

open JsonTexts KeyedTables IamTables IamOperations ResumptionPrograms CallSites UsersService
open TokenServices MfaServices AuthService MfaController IamEndpoints IamRules IamAssumptions
open UserRowChanges RequestEndings RequestRuns RequestFootprints EnrolmentEvents FactorEnrolment
open AccountWeakening LockoutGuards UserRowConsistency

variable {N : Type} {env : Env N} {w : World} {r : Request N} {u : User}

section Sites

/-- What `login` does with the outcome of its password check. -/
def loginAnswer (env : Env N) (ip device : String) (user : User) : Bool → Iam N Reply
  | true => completeLogin env user ip device
  | false => do
    incrementFailedAttempts user
    log env "LOGIN_FAILED" (some user.id) ip device false
    Prog.throw (.unauthorized "Credenciales inválidas")

def loginSite (env : Env N) (dto : LoginDto N) (ip device : String) :
    CallSite (login env dto ip device) fun user => validatePassword user dto.password where
  before := loginGate env dto ip device >>= fun user => .ret (.ok user)
  behind := loginAnswer env ip device
  eq := by
    rw [login, loginGate, bind_assoc, bind_assoc]
    congr 1
    funext user
    cases user with
    | none => rfl
    | some user =>
      simp only [bind_assoc]
      congr 1
      funext locked
      cases locked with
      | true => rfl
      | false =>
        simp only [Bool.false_eq_true, if_false, Prog.pure_eq, Prog.ret_bind]
        congr 1
        funext valid
        cases valid <;> rfl

/-- What `disable` does with the outcome of its factor check. -/
def disableAnswer (userId : IdParam) : Option (Iam N Unit) → Iam N Reply
  | some _ => do
    disableMfa userId
    return .done
  | none => return .message false "Código MFA incorrecto"

/-- What `disable` does with the outcome of its password check. -/
def disableRest (env : Env N) (userId : IdParam) (code : JsonField N) (user : User) :
    Bool → Iam N Reply
  | true => totpCheck env code user >>= disableAnswer userId
  | false => return .message false "Contraseña incorrecta"

theorem guarded_disable (password code : JsonField N) (authorization : Option String)
    (userId : IdParam) : guarded env authorization (disable env userId password code) =
      disableGate env authorization userId >>= fun user =>
        validatePassword user password >>= disableRest env userId code user := by
  rw [guarded, disableGate, bind_assoc]
  congr 1
  funext payload
  cases payload with
  | none => rfl
  | some payload =>
    change disable env userId password code = _
    rw [disable]
    congr 1
    funext user
    congr 1
    funext valid
    cases valid with
    | false => rfl
    | true =>
      simp only [if_true, disableRest, totpCheck, plainCheck, bind_assoc]
      congr 1
      funext secret
      congr 1
      funext passes
      cases passes <;> rfl

def disableSite (env : Env N) (authorization : Option String) (userId : IdParam)
    (password code : JsonField N) :
    CallSite (guarded env authorization (disable env userId password code))
      fun user => validatePassword user password where
  before := disableGate env authorization userId >>= fun user => .ret (.ok user)
  behind := disableRest env userId code
  eq := by
    rw [guarded_disable, bind_assoc]
    rfl

/-- What a verification does with the outcome of its factor check. -/
def factorAnswer (env : Env N) (refusal : String) (user : User) : Option (Iam N Unit) → Iam N Reply
  | none => do
    incrementMfaFailedAttempts (.uuid user.id)
    return .message false refusal
  | some commit => completeVerification env user commit

def verificationSite (env : Env N) (tempToken : JsonField N) (refusal : String)
    (check : User → Iam N (Option (Iam N Unit))) :
    CallSite (verifyFactor env tempToken refusal check) check where
  before := sessionGate env tempToken
  behind := factorAnswer env refusal
  eq := by
    rw [verifyFactor, sessionGate, bind_assoc]
    congr 1
    funext user
    cases user with
    | none => rfl
    | some user =>
      simp only [bind_assoc]
      congr 1
      funext t
      by_cases ht : user.mfaTempTokenExpires.getD 0 < t
      · simp [ht]
      · simp only [if_neg ht, bind_assoc]
        congr 1
        funext locked
        cases locked with
        | true => rfl
        | false =>
          simp only [Bool.false_eq_true, if_false, Prog.pure_eq, Prog.ret_bind]
          congr 1

variable [JsNumber N] [DecidableEq N]

/-- Where a request has a password checked, if it does. -/
def passwordSite (env : Env N) (r : Request N) :
    CallSite (handle env r) fun user => validatePassword user (carriedPassword r.route) :=
  match r with
  | ⟨.login dto, _, _, userAgent, ip⟩ => loginSite env dto ip (orUnknown (userAgent.getD ""))
  | ⟨.disable password code, userId, authorization, _, _⟩ =>
    disableSite env authorization userId password code
  | r => .never (handle env r) _

/-- Where a request has a second factor checked, if it does. -/
def factorSite (env : Env N) (r : Request N) : CallSite (handle env r) (factorTest env r.route) :=
  match r with
  | ⟨.verify tempToken code, _, _, _, _⟩ => verificationSite env tempToken _ (totpCheck env code)
  | ⟨.verifyBackup tempToken backupCode, _, _, _, _⟩ =>
    verificationSite env tempToken _ (backupCheck env backupCode)
  | ⟨.verifyBiometric tempToken device, _, _, _, _⟩ =>
    verificationSite env tempToken _ (biometricCheck device)
  | ⟨.disable password code, userId, authorization, userAgent, ip⟩ =>
    { before := factorGate env ⟨.disable password code, userId, authorization, userAgent, ip⟩
      behind := fun _ => disableAnswer userId
      eq := by
        simp only [handle, factorGate, guarded_disable, bind_assoc]
        congr 1
        funext user
        congr 1
        funext valid
        cases valid <;> rfl }
  | r => .never (handle env r) _

end Sites

section Gates

variable {valid : Bool} {w' : World}

theorem validatePassword_eq_ok {password : JsonField N} :
    ((validatePassword u password).run (exec env) w).1 = .ok valid ↔
      ∃ s, password = some (.str s) ∧ env.bcryptCompare s u.passwordHash = valid := by
  rcases password with _ | (_ | _ | _ | s | _ | _)
  case some.str => simp [run_validatePassword rfl]
  all_goals simp [validatePassword, UsersService.compare]

theorem sameUsers_run (env : Env N) {α : Type} {p : Iam N α} (hp : Quiet p) (w : World) :
    SameUsers w (p.run (exec env) w).2 := by
  have hholds : p.Holds (exec env) (fun _ => True) (fun _ w' => SameUsers w w') w :=
    hp.holds (fun _ _ => trivial) fun _ _ h => h
  exact hholds.final

theorem quiet_sessionGate (tempToken : JsonField N) : Quiet (sessionGate env tempToken) := by
  refine Quiet.bind (quiet_perform (.findUser _) trivial) fun user => ?_
  cases user with
  | none => exact quiet_ret _
  | some user =>
    refine quiet_now.bind fun t => ?_
    by_cases ht : user.mfaTempTokenExpires.getD 0 < t
    · simp only [if_pos ht]
      exact quiet_ret _
    · simp only [if_neg ht]
      refine (quiet_isMfaLocked user.id).bind fun locked => ?_
      cases locked <;> exact quiet_ret _

theorem quiet_disableGate (authorization : Option String) (userId : IdParam) :
    Quiet (disableGate env authorization userId) := by
  refine (quiet_verifyToken _ _).bind fun payload => ?_
  cases payload with
  | none => exact quiet_throw _
  | some payload =>
    refine (quiet_findById userId).bind fun user => ?_
    cases user with
    | none => exact quiet_throw _
    | some user => exact quiet_ret _

theorem quiet_factorGate (env : Env N) (r : Request N) : Quiet (factorGate env r) := by
  unfold factorGate
  cases r.route with
  | verify tempToken code => exact quiet_sessionGate tempToken
  | verifyBackup tempToken backupCode => exact quiet_sessionGate tempToken
  | verifyBiometric tempToken device => exact quiet_sessionGate tempToken
  | disable password code =>
    refine (quiet_disableGate _ _).bind fun user => (quiet_compare _ _).bind fun valid => ?_
    cases valid <;> exact quiet_ret _
  | _ => exact quiet_throw _

theorem get?_of_readRow {userId : IdParam} (h : readRow w userId = some u) :
    w.users.get? u.id = some u := by
  cases userId with
  | undefined => exact get?_of_findUser h
  | invalid => cases h
  | uuid i =>
    have hrow : w.users.get? i = some u := h
    rw [Table.key_of_get? hrow]
    exact hrow

/-- What lets a request through to its factor check. -/
theorem of_factorGate (h : (factorGate env r).run (exec env) w = (.ok (.ok u), w')) :
    ChecksFactor r.route ∧ w.users.get? u.id = some u := by
  have hgate : ((factorGate env r).run (exec env) w).1 = .ok (.ok u) := congrArg Prod.fst h
  cases hr : r.route with
  | verify tempToken code =>
    simp only [factorGate, hr, sessionGate_ok] at hgate
    exact ⟨.verification rfl, get?_of_findUser hgate.1⟩
  | verifyBackup tempToken backupCode =>
    simp only [factorGate, hr, sessionGate_ok] at hgate
    exact ⟨.verification rfl, get?_of_findUser hgate.1⟩
  | verifyBiometric tempToken device =>
    simp only [factorGate, hr, sessionGate_ok] at hgate
    exact ⟨.verification rfl, get?_of_findUser hgate.1⟩
  | disable password code =>
    exact ⟨.disable password code, get?_of_readRow ((disableFactorGate_ok hr).mp hgate).2.1⟩
  | _ => simp [factorGate, hr] at hgate

end Gates

section Evaluations

variable [JsNumber N] [DecidableEq N] {valid : Bool} {w' : World}

theorem entered_passwordSite : (passwordSite env r).entered (exec env) w = some (u, w') ↔
    (passwordGate env r).run (exec env) w = (.ok u, w') := by
  obtain ⟨route, userId, authorization, userAgent, ip⟩ := r
  cases route with
  | login dto => exact CallSite.entered_of_gate rfl
  | disable password code => exact CallSite.entered_of_gate rfl
  | _ =>
    constructor
    · intro h
      cases CallSite.entered_never.symm.trans h
    · intro h
      cases h

theorem entered_factorSite : (factorSite env r).entered (exec env) w = some (u, w') ↔
    (factorGate env r).run (exec env) w = (.ok (.ok u), w') := by
  obtain ⟨route, userId, authorization, userAgent, ip⟩ := r
  cases route with
  | verify tempToken code => exact CallSite.entered_eq_some
  | verifyBackup tempToken backupCode => exact CallSite.entered_eq_some
  | verifyBiometric tempToken device => exact CallSite.entered_eq_some
  | disable password code => exact CallSite.entered_eq_some
  | _ =>
    constructor
    · intro h
      cases CallSite.entered_never.symm.trans h
    · intro h
      cases h

/-- The passwords said to be evaluated are those that calls of `validatePassword` return on. -/
theorem passwordEvaluated_iff : PasswordEvaluated env w r u valid ↔
    (passwordSite env r).returned (exec env) w = some (u, valid) := by
  rw [CallSite.returned_eq_some]
  constructor
  · rintro ⟨hgate, hpassword⟩
    exact ⟨_, entered_passwordSite.mpr (Prod.ext hgate rfl), validatePassword_eq_ok.mpr hpassword⟩
  · rintro ⟨w', hentered, hresult⟩
    exact ⟨congrArg Prod.fst (entered_passwordSite.mp hentered), validatePassword_eq_ok.mp hresult⟩

/-- What a check with its rule returns, where it does. -/
theorem outcome_of_checks {route : Route N} {check : User → Iam N (Option (Iam N Unit))}
    (hcheck : Checks env route check) (hu : w.users.get? u.id = some u) :
    ((check u).run (exec env) w).1.toOption.map Option.isSome =
      factorResult env w.clock u route := by
  let answer : Bool → Reply := fun passed => .message passed ""
  have hholds : (check u >>= fun c => .ret (answer c.isSome)).Holds (exec env) (fun _ => True)
      (fun res _ => res.toOption = (factorResult env w.clock u route).map answer) w := by
    refine hcheck w u _ _ _ hu trivial (fun hf => ?_) (fun hf => ?_) fun commit hf _ => ?_
    · rw [hf]
      rfl
    · exact ⟨trivial, by rw [hf]; rfl⟩
    · exact ⟨trivial, by rw [hf]; rfl⟩
  have hfinal := hholds.final
  rw [Prog.run_bind] at hfinal
  generalize (check u).run (exec env) w = result at hfinal
  obtain ⟨c, w'⟩ := result
  cases c with
  | error e =>
    generalize factorResult env w.clock u route = outcome at hfinal
    cases outcome with
    | none => rfl
    | some passed => cases hfinal
  | ok c =>
    generalize factorResult env w.clock u route = outcome at hfinal
    cases outcome with
    | none => cases hfinal
    | some passed =>
      cases hfinal
      rfl

theorem outcome_factorTest (h : ChecksFactor r.route) (hu : w.users.get? u.id = some u) :
    ((factorTest env r.route u).run (exec env) w).1.toOption.map Option.isSome =
      factorOutcome env w.clock u r.route := by
  generalize r.route = route at h
  cases h with
  | verification hp =>
    cases route with
    | verify tempToken code => exact outcome_of_checks (checks_totp tempToken code) hu
    | verifyBackup tempToken code => exact outcome_of_checks (checks_backup tempToken code) hu
    | verifyBiometric tempToken device =>
      exact outcome_of_checks (checks_biometric tempToken device) hu
    | _ => cases hp
  | disable password code => exact outcome_of_checks (checks_totp none code) hu

/-- The factors said to be evaluated are those that calls of the check return on. -/
theorem factorEvaluated_iff : FactorEvaluated env w r u valid ↔
    ∃ commit, (factorSite env r).returned (exec env) w = some (u, commit) ∧
      commit.isSome = valid := by
  have houtcome : ∀ {w'}, (factorGate env r).run (exec env) w = (.ok (.ok u), w') →
      ((factorTest env r.route u).run (exec env) w').1.toOption.map Option.isSome =
        factorOutcome env w.clock u r.route := by
    intro w' hgate
    obtain ⟨hchecks, hrow⟩ := of_factorGate hgate
    have hsame : SameUsers w w' := by
      have hrun := sameUsers_run env (quiet_factorGate env r) w
      rwa [hgate] at hrun
    rw [outcome_factorTest hchecks (by rw [hsame.1]; exact hrow), hsame.2]
  constructor
  · rintro ⟨hgate, hfactor⟩
    generalize hrun : (factorGate env r).run (exec env) w = result at hgate
    obtain ⟨_, w'⟩ := result
    cases hgate
    have hresult := houtcome hrun
    rw [hfactor] at hresult
    obtain ⟨commit, hcommit, rfl⟩ := Option.map_eq_some_iff.mp hresult
    refine ⟨commit, CallSite.returned_eq_some.mpr ⟨w', entered_factorSite.mpr hrun, ?_⟩, rfl⟩
    generalize ((factorTest env r.route u).run (exec env) w').1 = c at hcommit
    cases c with
    | error e => cases hcommit
    | ok c => exact congrArg Except.ok (Option.some.inj hcommit)
  · rintro ⟨commit, hreturned, rfl⟩
    obtain ⟨w', hentered, hresult⟩ := CallSite.returned_eq_some.mp hreturned
    have hrun := entered_factorSite.mp hentered
    refine ⟨congrArg Prod.fst hrun, ?_⟩
    rw [← houtcome hrun, hresult]
    rfl

end Evaluations

section Guesses

variable [JsNumber N] [DecidableEq N] {i : UserId} {q : Timed N}

/-- The user whose second factor the request has checked, and what the check returns. -/
def factorReturned (env : Env N) (w : World) (r : Request N) : Option (UserId × Bool) :=
  ((factorSite env r).returned (exec env) w).map fun c => (c.1.id, c.2.isSome)

/-- The user `validatePassword` is called for, and what it returns where it does not throw. -/
def passwordCalled (env : Env N) (w : World) (r : Request N) : Option UserId :=
  ((passwordSite env r).called (exec env) w).map User.id

def passwordReturned (env : Env N) (w : World) (r : Request N) : Option (UserId × Bool) :=
  ((passwordSite env r).returned (exec env) w).map fun c => (c.1.id, c.2)

theorem factorReturned_eq_some {valid : Bool} : factorReturned env w r = some (i, valid) ↔
    ∃ u, FactorEvaluated env w r u valid ∧ u.id = i := by
  constructor
  · intro h
    obtain ⟨⟨u, commit⟩, hreturned, heq⟩ := Option.map_eq_some_iff.mp h
    obtain ⟨rfl, rfl⟩ := Prod.mk.inj heq
    exact ⟨u, factorEvaluated_iff.mpr ⟨commit, hreturned, rfl⟩, rfl⟩
  · rintro ⟨u, h, rfl⟩
    obtain ⟨commit, hreturned, rfl⟩ := factorEvaluated_iff.mp h
    simp [factorReturned, hreturned]

theorem passwordReturned_eq_some {valid : Bool} : passwordReturned env w r = some (i, valid) ↔
    ∃ u, PasswordEvaluated env w r u valid ∧ u.id = i := by
  constructor
  · intro h
    obtain ⟨⟨u, valid'⟩, hreturned, heq⟩ := Option.map_eq_some_iff.mp h
    obtain ⟨rfl, rfl⟩ := Prod.mk.inj heq
    exact ⟨u, passwordEvaluated_iff.mpr hreturned, rfl⟩
  · rintro ⟨u, h, rfl⟩
    simp [passwordReturned, passwordEvaluated_iff.mp h]

/-- A verification has the factor checked that its row change goes by. -/
theorem factorReturned_of_checked {valid : Bool} (h : FactorChecked env w r.route valid u) :
    factorReturned env w r = some (u.id, valid) := by
  obtain ⟨t, hp, -⟩ := h.selected
  exact factorReturned_eq_some.mpr ⟨u, (factorEvaluated_presented hp).mpr h, rfl⟩

theorem exists_checked {valid : Bool} (hr : ∀ password code, r.route ≠ .disable password code)
    (h : factorReturned env w r = some (i, valid)) :
    ∃ u, FactorChecked env w r.route valid u ∧ u.id = i := by
  obtain ⟨u, heval, hid⟩ := factorReturned_eq_some.mp h
  obtain ⟨w', hrun⟩ : ∃ w', (factorGate env r).run (exec env) w = (.ok (.ok u), w') :=
    ⟨_, Prod.ext heval.gate rfl⟩
  have hchecks := (of_factorGate hrun).1
  generalize hroute : r.route = route at hchecks
  cases hchecks with
  | verification hp =>
    rw [← hroute] at hp ⊢
    exact ⟨u, (factorEvaluated_presented hp).mp heval, hid⟩
  | disable password code => exact absurd hroute (hr password code)

theorem passwordCalled_login {dto : LoginDto N} (hr : r.route = .login dto) :
    passwordCalled env w r = some i ↔ ∃ u, w.findUser (.email (criterion env dto.email)) = some u ∧
      lockedAt w.clock u.lockedUntil = false ∧ u.id = i := by
  have hgate : ∀ v, ((passwordGate env r).run (exec env) w).1 = .ok v ↔
      w.findUser (.email (criterion env dto.email)) = some v ∧
        lockedAt w.clock v.lockedUntil = false := by
    intro v
    simp only [passwordGate, hr, loginGate_ok]
  constructor
  · intro h
    obtain ⟨u, hcalled, rfl⟩ := Option.map_eq_some_iff.mp h
    obtain ⟨⟨u', w'⟩, hentered, rfl⟩ := Option.map_eq_some_iff.mp hcalled
    obtain ⟨hu, hl⟩ := (hgate u').mp (congrArg Prod.fst (entered_passwordSite.mp hentered))
    exact ⟨u', hu, hl, rfl⟩
  · rintro ⟨u, hu, hl, rfl⟩
    have hentered := entered_passwordSite.mpr (Prod.ext ((hgate u).mpr ⟨hu, hl⟩) rfl)
    simp [passwordCalled, CallSite.called, hentered]

theorem passwordReturned_login {dto : LoginDto N} {valid : Bool} (hr : r.route = .login dto) :
    passwordReturned env w r = some (i, valid) ↔ ∃ u, LoginChecked env w dto valid u ∧ u.id = i := by
  rw [passwordReturned_eq_some]
  exact exists_congr fun u => and_congr_left fun _ => passwordEvaluated_login hr

end Guesses

section Comparisons

/-- An operation that compares a password or a token with a hash. -/
def isCompare : Op N → Bool
  | .bcryptCompare _ _ => true
  | _ => false

/-- The comparison that a call of `validatePassword` makes, if it gets that far. -/
def comparisonOf (password : JsonField N) (user : User) : List (Op N) :=
  match password with
  | some (.str s) => [.bcryptCompare s user.passwordHash]
  | _ => []

theorem without_perform {o : Op N} (ho : isCompare o = false) :
    Without isCompare (Prog.perform o : Iam N _) := ⟨ho, fun _ => trivial⟩

theorem without_log (action : String) (userId : Option UserId) (ip device : String)
    (success : Bool) : Without isCompare (log env action userId ip device success) :=
  Prog.Every.seq (without_perform rfl) fun _ => without_perform rfl

theorem without_loginGate (dto : LoginDto N) (ip device : String) :
    Without isCompare (loginGate env dto ip device) := by
  refine Prog.Every.seq (without_perform rfl) fun user => ?_
  cases user with
  | none => exact Prog.Every.seq (without_log _ _ _ _ _) fun _ => trivial
  | some user =>
    have hlocked : Without isCompare (isLocked user.lockedUntil : Iam N Bool) := by
      cases user.lockedUntil with
      | none => trivial
      | some l => exact Prog.Every.seq (without_perform rfl) fun _ => trivial
    refine Prog.Every.seq hlocked fun locked => ?_
    cases locked with
    | true => exact Prog.Every.seq (without_log _ _ _ _ _) fun _ => trivial
    | false => trivial

theorem without_completeLogin (user : User) (ip device : String) :
    Without isCompare (completeLogin env user ip device) := by
  have hdraw : Without isCompare (draw : Iam N ℕ) := without_perform rfl
  have hnow : Without isCompare (now : Iam N Time) := without_perform rfl
  refine Prog.Every.seq (without_perform rfl) fun _ => ?_
  by_cases hm : user.mfaEnabled = true
  · rw [if_pos hm]
    refine Prog.Every.seq hdraw fun k => Prog.Every.seq hnow fun t => ?_
    refine Prog.Every.seq (without_perform rfl) fun _ => ?_
    exact Prog.Every.seq (without_log _ _ _ _ _) fun _ => trivial
  · rw [if_neg hm]
    refine Prog.Every.seq (Prog.Every.seq hnow fun _ => trivial) fun accessToken => ?_
    have hrefresh : Without isCompare (generateRefreshToken env user.id) :=
      Prog.Every.seq hdraw fun _ => Prog.Every.seq hdraw fun _ =>
        Prog.Every.seq hnow fun _ => trivial
    have htoken : Without isCompare (generateToken env) :=
      Prog.Every.seq hdraw fun _ => Prog.Every.seq hdraw fun _ =>
        Prog.Every.seq hdraw fun _ => Prog.Every.seq hdraw fun _ => trivial
    have hsession : Without isCompare (createRefreshToken env user.id device ip) :=
      Prog.Every.seq htoken fun _ => Prog.Every.seq hdraw fun _ => Prog.Every.seq hnow fun _ =>
        Prog.Every.seq (without_perform rfl) fun _ => trivial
    refine Prog.Every.seq hrefresh fun refreshToken => Prog.Every.seq hsession fun _ => ?_
    exact Prog.Every.seq (without_log _ _ _ _ _) fun _ => trivial

theorem without_loginAnswer (ip device : String) (user : User) (valid : Bool) :
    Without isCompare (loginAnswer env ip device user valid) := by
  cases valid with
  | true => exact without_completeLogin user ip device
  | false =>
    have hcount : Without isCompare (incrementFailedAttempts user : Iam N Unit) := by
      unfold incrementFailedAttempts
      simp only []
      split
      · exact Prog.Every.seq (without_perform rfl) fun _ => without_perform rfl
      · exact without_perform rfl
    exact Prog.Every.seq hcount fun _ => Prog.Every.seq (without_log _ _ _ _ _) fun _ => trivial

variable [JsNumber N] [DecidableEq N]

/-- The comparisons a request performs. -/
def comparisons (env : Env N) (w : World) (r : Request N) : List (Op N) :=
  ((handle env r).performed (exec env) w).filter isCompare

/-- A login compares a password only where it calls `validatePassword`. -/
theorem comparisons_login {dto : LoginDto N} (hr : r.route = .login dto) : comparisons env w r =
    ((passwordSite env r).called (exec env) w).elim [] (comparisonOf dto.password) := by
  obtain ⟨route, userId, authorization, userAgent, ip⟩ := r
  obtain rfl : route = .login dto := hr
  let site := loginSite env dto ip (orUnknown (userAgent.getD ""))
  refine (site.filter_performed ?_ fun user valid => without_loginAnswer _ _ user valid).trans ?_
  · exact Prog.Every.seq (without_loginGate dto _ _) fun _ => trivial
  · have hcall : ∀ (user : User) (w' : World),
        ((validatePassword user dto.password).performed (exec env) w').filter isCompare =
          comparisonOf dto.password user := by
      intro user w'
      rcases dto.password with _ | (_ | _ | _ | s | _ | _) <;> rfl
    change _ = ((site.entered (exec env) w).map Prod.fst).elim [] _
    generalize site.entered (exec env) w = entered
    cases entered with
    | none => rfl
    | some c => exact hcall c.1 c.2

end Comparisons

end VerdeAuth.PerformedChecks
