import VerdeAuth.UserRowChanges

/-!
# How requests end

Every handler passes only through the changes of one row that `RowChange`
lists. The possible ends of a login and of a verification are listed with their
replies.
-/

namespace VerdeAuth.RequestEndings

open JsonTexts KeyedTables IamTables IamOperations ResumptionPrograms UsersService TokenServices
open MfaServices AuthService MfaController IamEndpoints IamRules UserRowChanges

variable {N : Type}

inductive LoginEnding (env : Env N) (w : World) (dto : LoginDto N) :
    Except Failure Reply → World → Prop
  | unknown {w'} (hu : w.findUser (.email (criterion env dto.email)) = none)
      (hw : SameUsers w w') :
      LoginEnding env w dto (.error (.unauthorized "Credenciales inválidas")) w'
  | locked {u w'} (hu : w.findUser (.email (criterion env dto.email)) = some u)
      (hl : lockedAt w.clock u.lockedUntil = true) (hw : SameUsers w w') :
      LoginEnding env w dto (.error (.forbidden "Cuenta bloqueada. Intente más tarde.")) w'
  | broken {u w'} (hu : w.findUser (.email (criterion env dto.email)) = some u)
      (hp : ∀ s, dto.password ≠ some (.str s)) (hw : SameUsers w w') :
      LoginEnding env w dto (.error .internal) w'
  | refused {u w'} (h : LoginChecked env w dto false u)
      (hw : w'.users = w.users.put (attemptFailed w.clock u)) :
      LoginEnding env w dto (.error (.unauthorized "Credenciales inválidas")) w'
  | pending {u w'} (h : LoginChecked env w dto true u) (hm : u.mfaEnabled = true)
      (hw : w'.users = w.users.put (pendingRow env w u)) :
      LoginEnding env w dto
        (.ok (.needsMfa (env.randomHex w.drawn 32) u.preferredMfaMethod u.biometricEnabled)) w'
  | session {u w'} (t : TokenPair) (h : LoginChecked env w dto true u)
      (hm : u.mfaEnabled = false) (hw : w'.users = w.users.put (attemptsReset u))
      (ht : TokensFor u.id t) : LoginEnding env w dto (.ok (.session t)) w'

variable {env : Env N} {w : World} {u : User}

/-- Saving the changed row, then updating it, leaves the row changed twice. -/
theorem users_save_update {v : User} (h₁ : v.id = u.id) (p : UserPatch) :
    ((w.saveUser v).updateUser u.id p).users = w.users.put (p.apply v) := by
  have hget : (w.saveUser v).users.get? u.id = some v := h₁ ▸ Table.get?_put_self w.users v
  refine (Table.modify_eq_put p.apply_id hget).trans ?_
  exact Table.put_put _ rfl

theorem users_update (hu : w.users.get? u.id = some u) (p : UserPatch) :
    (w.updateUser u.id p).users = w.users.put (p.apply u) := Table.modify_eq_put p.apply_id hu

theorem holds_incrementFailedAttempts_bind {β : Type} {Q : Except Failure β → World → Prop}
    {I : World → Prop} (u : User) (f : Unit → Iam N β) (hI : I w)
    (hf : (f ()).Holds (exec env) I Q (w.saveUser (attemptFailed w.clock u))) :
    (incrementFailedAttempts u >>= f).Holds (exec env) I Q w := by
  rw [incrementFailedAttempts]
  by_cases h : u.failedAttempts + 1 ≥ 5
  · rw [if_pos h, bind_assoc]
    refine holds_now_bind _ hI (holds_save_bind _ f hI ?_)
    rw [attemptFailed, if_pos h] at hf
    exact hf
  · rw [if_neg h]
    refine holds_save_bind _ f hI ?_
    rw [attemptFailed, if_neg h] at hf
    exact hf

theorem holds_incrementMfaFailedAttempts_bind {β : Type} {Q : Except Failure β → World → Prop}
    {I : World → Prop} (hu : w.users.get? u.id = some u) (f : Unit → Iam N β) (hI : I w)
    (hf : (f ()).Holds (exec env) I Q (w.saveUser (mfaAttemptFailed w.clock u))) :
    (incrementMfaFailedAttempts (.uuid u.id) >>= f).Holds (exec env) I Q w := by
  rw [incrementMfaFailedAttempts, bind_assoc]
  refine holds_findById_bind u.id _ hI ?_
  rw [hu]
  simp only
  by_cases h : u.mfaFailedAttempts + 1 ≥ 3
  · rw [if_pos h, bind_assoc]
    refine holds_now_bind _ hI (holds_save_bind _ f hI ?_)
    rw [mfaAttemptFailed, if_pos h] at hf
    exact hf
  · rw [if_neg h]
    refine holds_save_bind _ f hI ?_
    rw [mfaAttemptFailed, if_neg h] at hf
    exact hf

variable [JsNumber N] [DecidableEq N] {r : Request N}

theorem holds_completeLogin {dto : LoginDto N} (hr : r.route = .login dto)
    (h : LoginChecked env w dto true u) (ip device : String) :
    (completeLogin env u ip device).Holds (exec env) (Visited env w r)
      (LoginEnding env w dto) w := by
  have hrow : w.users.get? u.id = some u := get?_of_findUser h.selected
  have hreset : ∀ w', SameUsers (w.saveUser (attemptsReset u)) w' → Visited env w r w' := by
    intro w' hs
    exact visited_put (.loginAccepted hr h) hs.2 hs.1
  refine holds_save_bind _ _ (visited_sameUsers (.refl w)) ?_
  cases hm : u.mfaEnabled with
  | true =>
    refine holds_perform_bind _ _ (hreset _ (.refl _)) ?_
    refine holds_perform_bind _ _ (hreset _ ⟨rfl, rfl⟩) ?_
    refine holds_update_bind _ _ _ (hreset _ ⟨rfl, rfl⟩) ?_
    have husers := users_save_update (w := w) (u := u) (v := attemptsReset u) rfl
      { mfaTempToken := some (some (env.randomHex w.drawn 32))
        mfaTempTokenExpires := some (some (w.clock + mfaTempTokenMs)) }
    have hpending := RowChange.loginPending hr h hm
    refine holds_quietResult_bind (quietResult_log ..)
      (fun w' hs => visited_put hpending hs.2 (hs.1.trans husers)) fun _ w' _ hs => ?_
    exact ⟨visited_put hpending hs.2 (hs.1.trans husers), .pending h hm (hs.1.trans husers)⟩
  | false =>
    refine holds_quietResult_bind (quietResult_generateAccessToken u.id u.email) hreset ?_
    intro a w₁ ha h₁
    refine holds_quietResult_bind (quietResult_generateRefreshToken u.id)
      (fun w' hs => hreset w' (h₁.trans hs)) fun t w₂ ht h₂ => ?_
    have h₂ := h₁.trans h₂
    refine holds_quietResult_bind (quietResult_createRefreshToken u.id device ip)
      (fun w' hs => hreset w' (h₂.trans hs)) fun _ w₃ _ h₃ => ?_
    have h₃ := h₂.trans h₃
    refine holds_quietResult_bind (quietResult_log ..)
      (fun w' hs => hreset w' (h₃.trans hs)) fun _ w₄ _ h₄ => ?_
    have h₄ := h₃.trans h₄
    exact ⟨hreset w₄ h₄, .session _ h hm h₄.1 ⟨ha, ht⟩⟩

theorem holds_login {dto : LoginDto N} (hr : r.route = .login dto) (ip device : String) :
    (login env dto ip device).Holds (exec env) (Visited env w r) (LoginEnding env w dto) w := by
  have hsame : ∀ w', SameUsers w w' → Visited env w r w' := fun w' hs => visited_sameUsers hs
  refine holds_findByEmail_bind _ _ (hsame w (.refl w)) ?_
  cases hu : w.findUser (.email (criterion env dto.email)) with
  | none =>
    refine holds_quietResult_bind (quietResult_log ..) hsame fun _ w' _ hs => ?_
    exact ⟨hsame w' hs, .unknown hu hs⟩
  | some u =>
    refine holds_isLocked_bind _ _ (hsame w (.refl w)) ?_
    cases hl : lockedAt w.clock u.lockedUntil with
    | true =>
      refine holds_quietResult_bind (quietResult_log ..) hsame fun _ w' _ hs => ?_
      exact ⟨hsame w' hs, .locked hu hl hs⟩
    | false =>
      refine holds_compare_bind _ _ _ (hsame w (.refl w)) (fun hp => .broken hu hp (.refl w)) ?_
      intro s hs
      cases hc : env.bcryptCompare s u.passwordHash with
      | true => exact holds_completeLogin hr ⟨hu, hl, s, hs, hc⟩ ip device
      | false =>
        have hchecked : LoginChecked env w dto false u := ⟨hu, hl, s, hs, hc⟩
        have hfailed : ∀ w', SameUsers (w.saveUser (attemptFailed w.clock u)) w' →
            Visited env w r w' := fun w' hs => visited_put (.loginRefused hr hchecked) hs.2 hs.1
        refine holds_incrementFailedAttempts_bind u _ (hsame w (.refl w)) ?_
        refine holds_quietResult_bind (quietResult_log ..) hfailed fun _ w' _ hs => ?_
        exact ⟨hfailed w' hs, .refused hchecked hs.1⟩

inductive FactorEnding (env : Env N) (w : World) (route : Route N) :
    Except Failure Reply → World → Prop
  | rejected {w'} (text : String)
      (hu : ∀ u, FactorSelected env w route u → w.clock ≤ u.mfaTempTokenExpires.getD 0 →
        lockedAt w.clock u.mfaLockedUntil = true)
      (hw : SameUsers w w') : FactorEnding env w route (.ok (.message false text)) w'
  | broken {u w'} (hu : FactorSelected env w route u)
      (hf : factorResult env w.clock u route = none) (hw : SameUsers w w') :
      FactorEnding env w route (.error .internal) w'
  | refused {u w'} (text : String) (h : FactorChecked env w route false u)
      (hw : w'.users = w.users.put (mfaAttemptFailed w.clock u)) :
      FactorEnding env w route (.ok (.message false text)) w'
  | accepted {u w'} (t : TokenPair) (h : FactorChecked env w route true u)
      (hw : w'.users = w.users.put (tempTokenCleared w.clock (factorWritten env w route u)))
      (ht : TokensFor u.id t) : FactorEnding env w route (.ok (.verified t)) w'

section Checked

variable {res : Except Failure Reply} {w' : World}

omit [JsNumber N] [DecidableEq N] in
/-- A right password of a user without MFA is answered with its tokens. -/
theorem LoginEnding.session_of_checked {dto : LoginDto N} (h : LoginEnding env w dto res w')
    (hu : LoginChecked env w dto true u) (hm : u.mfaEnabled = false) :
    ∃ t, res = .ok (.session t) ∧ TokensFor u.id t := by
  cases h with
  | unknown hnone =>
    rw [hu.selected] at hnone
    cases hnone
  | locked hu' hl =>
    rw [hu.selected] at hu'
    cases hu'
    rw [hu.unlocked] at hl
    cases hl
  | broken hu' hp =>
    obtain ⟨s, hs, -⟩ := hu.password
    exact absurd hs (hp s)
  | refused h' => cases (hu.unique h').2
  | pending h' hm' =>
    rw [(hu.unique h').1, hm] at hm'
    cases hm'
  | session t h' _ _ ht => exact ⟨t, rfl, (hu.unique h').1 ▸ ht⟩

omit [JsNumber N] [DecidableEq N] in
theorem LoginEnding.unauthorized_of_none {dto : LoginDto N} (h : LoginEnding env w dto res w')
    (hu : w.findUser (.email (criterion env dto.email)) = none) :
    res = .error (.unauthorized "Credenciales inválidas") ∧ SameUsers w w' := by
  cases h with
  | unknown _ hw => exact ⟨rfl, hw⟩
  | locked hu' => cases hu.symm.trans hu'
  | broken hu' => cases hu.symm.trans hu'
  | refused h' => cases hu.symm.trans h'.selected
  | pending h' => cases hu.symm.trans h'.selected
  | session t h' => cases hu.symm.trans h'.selected

omit [JsNumber N] [DecidableEq N] in
/-- A wrong password counts as a failure. -/
theorem LoginEnding.unauthorized_of_checked {dto : LoginDto N} (h : LoginEnding env w dto res w')
    (hu : LoginChecked env w dto false u) :
    res = .error (.unauthorized "Credenciales inválidas") ∧
      w'.users = w.users.put (attemptFailed w.clock u) := by
  cases h with
  | unknown hnone => cases hu.selected.symm.trans hnone
  | locked hu' hl =>
    cases hu.selected.symm.trans hu'
    cases hu.unlocked.symm.trans hl
  | broken hu' hp =>
    obtain ⟨s, hs, -⟩ := hu.password
    exact absurd hs (hp s)
  | refused h' hw =>
    cases (h'.unique hu).1
    exact ⟨rfl, hw⟩
  | pending h' => cases (h'.unique hu).2
  | session t h' => cases (h'.unique hu).2

/-- A factor that passes is answered with the tokens of its user. -/
theorem FactorEnding.verified_of_checked {route : Route N} (h : FactorEnding env w route res w')
    (hu : FactorChecked env w route true u) :
    ∃ t, res = .ok (.verified t) ∧ TokensFor u.id t := by
  cases h with
  | rejected text hl =>
    have hlocked := hl u hu.selected hu.fresh
    rw [hu.unlocked] at hlocked
    cases hlocked
  | broken hu' hf =>
    rw [hu.selected.unique hu', hu.factor] at hf
    cases hf
  | refused text h' => cases (hu.unique h').2
  | accepted t h' _ ht => exact ⟨t, rfl, (hu.unique h').1 ▸ ht⟩

end Checked

/-- The writes an accepted factor still has to do. -/
def Commits (env : Env N) (t : Time) (u : User) (route : Route N) (commit : Iam N Unit) : Prop :=
  (spentCodes env t u route = none ∧ commit = .ret ()) ∨
    ∃ codes, spentCodes env t u route = some codes ∧
      commit = encrypt env codes >>= fun c => updateBackupCodes (.uuid u.id) c

/-- The check of the factor that belongs to the route, as a rule. -/
def Checks (env : Env N) (route : Route N) (check : User → Iam N (Option (Iam N Unit))) : Prop :=
  ∀ (w : World) (u : User) (I : World → Prop) (Q : Except Failure Reply → World → Prop)
    (f : Option (Iam N Unit) → Iam N Reply), w.users.get? u.id = some u → I w →
    (factorResult env w.clock u route = none → Q (.error .internal) w) →
    (factorResult env w.clock u route = some false → (f none).Holds (exec env) I Q w) →
    (∀ commit, factorResult env w.clock u route = some true →
      Commits env w.clock u route commit → (f (some commit)).Holds (exec env) I Q w) →
    (check u >>= f).Holds (exec env) I Q w

theorem holds_completeVerification {commit : Iam N Unit}
    (h : FactorChecked env w r.route true u) (hc : Commits env w.clock u r.route commit) :
    (completeVerification env u commit).Holds (exec env) (Visited env w r)
      (FactorEnding env w r.route) w := by
  have hrow : w.users.get? u.id = some u := by
    obtain ⟨_, -, hs⟩ := h.selected
    exact get?_of_findUser hs
  have hreset : (w.updateUser u.id
      { mfaFailedAttempts := some 0, mfaLockedUntil := some none }).users =
      w.users.put (mfaAttemptsReset u) := users_update hrow _
  have hrest : ∀ w' : World, w'.clock = w.clock →
      w'.users = w.users.put (factorWritten env w r.route u) →
      (clearMfaTempToken (.uuid u.id) >>= fun _ => do
        let t ← generateTokens env u.id u.email
        return Reply.verified t).Holds (exec env) (Visited env w r)
          (FactorEnding env w r.route) w' := by
    intro w' hclock husers
    have hspent : Visited env w r w' := visited_put (.codesSpent h) hclock husers
    rw [clearMfaTempToken, bind_assoc]
    refine holds_now_bind _ hspent (holds_update_bind _ _ _ hspent ?_)
    have hget : w'.users.get? u.id = some (factorWritten env w r.route u) := by
      rw [husers]
      exact Table.get?_put_self w.users (factorWritten env w r.route u)
    have hput : (w'.updateUser u.id
        { mfaTempToken := some none
          mfaTempTokenExpires := some none
          mfaLastVerified := some (some w'.clock) }).users =
        w.users.put (tempTokenCleared w.clock (factorWritten env w r.route u)) := by
      refine (users_update (u := factorWritten env w r.route u) hget _).trans ?_
      rw [husers, hclock]
      exact Table.put_put _ rfl
    refine holds_quietResult_bind (quietResult_generateTokens u.id u.email)
      (fun w'' hs => ?_) fun t w'' ht hs => ?_
    · exact visited_put (.factorCompleted h) (hs.2.trans hclock) (hs.1.trans hput)
    · have hdone : Visited env w r w'' :=
        visited_put (.factorCompleted h) (hs.2.trans hclock) (hs.1.trans hput)
      exact ⟨hdone, .accepted t h (hs.1.trans hput) ht⟩
  rw [completeVerification]
  refine holds_update_bind _ _ _ (visited_sameUsers (.refl w)) ?_
  rcases hc with ⟨hnone, rfl⟩ | ⟨codes, hsome, rfl⟩
  · refine hrest _ rfl (hreset.trans ?_)
    rw [factorWritten, hnone]
    rfl
  · rw [bind_assoc]
    refine holds_encrypt_bind codes _ (visited_put (.factorAccepted h) rfl hreset) ?_
    refine holds_update_bind _ _ _ (visited_put (.factorAccepted h) rfl hreset) (hrest _ rfl ?_)
    have hget : (w.updateUser u.id
        { mfaFailedAttempts := some 0, mfaLockedUntil := some none }).users.get? u.id =
        some (mfaAttemptsReset u) := by
      rw [hreset]
      exact Table.get?_put_self w.users (mfaAttemptsReset u)
    refine (users_update (u := mfaAttemptsReset u) hget _).trans ?_
    rw [hreset, factorWritten, hsome]
    exact Table.put_put _ rfl

theorem holds_verifyFactor {tempToken : JsonField N} {refusal : String}
    {check : User → Iam N (Option (Iam N Unit))} (hp : presented r.route = some tempToken)
    (hcheck : Checks env r.route check) :
    (verifyFactor env tempToken refusal check).Holds (exec env) (Visited env w r)
      (FactorEnding env w r.route) w := by
  have hsame : Visited env w r w := visited_sameUsers (.refl w)
  have hselected : ∀ u, FactorSelected env w r.route u ↔
      w.findUser (.mfaTempToken (criterion env tempToken)) = some u := by
    intro u
    simp [FactorSelected, hp]
  rw [verifyFactor]
  refine holds_findByMfaTempToken_bind _ _ hsame ?_
  cases hu : w.findUser (.mfaTempToken (criterion env tempToken)) with
  | none =>
    refine ⟨hsame, .rejected _ (fun u hs => ?_) (.refl w)⟩
    rw [hselected, hu] at hs
    cases hs
  | some u =>
    have hs : FactorSelected env w r.route u := (hselected u).mpr hu
    have hunique : ∀ u', FactorSelected env w r.route u' → u' = u := by
      intro u' hs'
      rw [hselected, hu] at hs'
      exact (Option.some.inj hs').symm
    have hrow : w.users.get? u.id = some u := get?_of_findUser hu
    refine holds_now_bind _ hsame ?_
    by_cases ht : u.mfaTempTokenExpires.getD 0 < w.clock
    · rw [if_pos ht]
      refine ⟨hsame, .rejected _ (fun u' hs' hle => ?_) (.refl w)⟩
      rw [hunique u' hs'] at hle
      exact absurd ht (Nat.not_lt.mpr hle)
    · rw [if_neg ht]
      refine holds_isMfaLocked_bind hrow _ hsame ?_
      cases hl : lockedAt w.clock u.mfaLockedUntil with
      | true =>
        refine ⟨hsame, .rejected _ (fun u' hs' _ => ?_) (.refl w)⟩
        rw [hunique u' hs', hl]
      | false =>
        have hfresh : w.clock ≤ u.mfaTempTokenExpires.getD 0 := Nat.le_of_not_lt ht
        refine hcheck w u _ _ _ hrow hsame (fun hf => .broken hs hf (.refl w)) ?_ ?_
        · intro hf
          have hchecked : FactorChecked env w r.route false u := ⟨hs, hfresh, hl, hf⟩
          refine holds_incrementMfaFailedAttempts_bind hrow _ hsame ?_
          exact ⟨visited_put (.factorRefused hchecked) rfl rfl, .refused _ hchecked rfl⟩
        · intro commit hf hc
          exact holds_completeVerification ⟨hs, hfresh, hl, hf⟩ hc

theorem checks_totp (tempToken code : JsonField N) :
    Checks env (.verify tempToken code) (totpCheck env code) := by
  intro w u I Q f _ hI hthrow hfalse htrue
  rw [totpCheck, plainCheck, bind_assoc, bind_assoc]
  refine holds_decryptSecret_bind _ _ hI (fun hd => hthrow ?_) fun s hs => ?_
  · simp [factorResult, totpResult, hd]
  · refine holds_verifyTotp_bind s code _ hI (fun hv => hthrow ?_) fun b hb => ?_
    · simp [factorResult, totpResult, hs, hv]
    · have hresult : factorResult env w.clock u (.verify tempToken code) = some b := by
        simp [factorResult, totpResult, hs, hb]
      cases b with
      | true => exact htrue _ hresult (.inl ⟨rfl, rfl⟩)
      | false => exact hfalse hresult

theorem checks_biometric (tempToken device : JsonField N) :
    Checks env (.verifyBiometric tempToken device) (biometricCheck device) := by
  intro w u I Q f hu hI _ hfalse htrue
  rw [biometricCheck, plainCheck, validateBiometric, bind_assoc, bind_assoc]
  refine holds_findById_bind u.id _ hI ?_
  rw [hu]
  cases hb : u.biometricEnabled &&
      Json.strictEq (some (columnValue u.deviceBiometricId)) device with
  | true => simpa [hb] using htrue (.ret ()) (by simp [factorResult, hb]) (.inl ⟨rfl, rfl⟩)
  | false => simpa [hb] using hfalse (by simp [factorResult, hb])

theorem holds_validateBackupCode_bind {β : Type} {Q : Except Failure β → World → Prop}
    {I : World → Prop} (stored : Option String) (code : JsonField N)
    (f : BackupValidation N → Iam N β) (hI : I w)
    (hthrow : backupResult env w.clock stored code = none → Q (.error .internal) w)
    (hwrong : backupResult env w.clock stored code = some none →
      (f ⟨false, parseBackupCodes stored⟩).Holds (exec env) I Q w)
    (hright : ∀ cs, backupResult env w.clock stored code = some (some cs) →
      (f ⟨true, .arr cs⟩).Holds (exec env) I Q w) :
    (validateBackupCode env stored code >>= f).Holds (exec env) I Q w := by
  rcases code with _ | (_ | _ | _ | input | _ | _)
  case some.str =>
    rw [validateBackupCode]
    cases hp : (parseBackupCodes stored : Json N) with
    | arr cs =>
      have hresult : backupResult env w.clock stored (some (.str input)) =
          markFirst (env.toUpperCase input) (env.toISOString w.clock) cs := by
        simp [backupResult, hp]
      rw [hresult] at hthrow hwrong hright
      simp only [bind_assoc]
      refine holds_now_bind _ hI ?_
      rcases hm : markFirst (env.toUpperCase input) (env.toISOString w.clock) cs with _ | _ | cs'
      · exact ⟨hI, hthrow hm⟩
      · exact hp ▸ hwrong hm
      · exact hright cs' hm
    | _ => exact ⟨hI, hthrow (by simp [backupResult, hp])⟩
  all_goals exact ⟨hI, hthrow (by simp [backupResult])⟩

theorem checks_backup (tempToken code : JsonField N) :
    Checks env (.verifyBackup tempToken code) (backupCheck env code) := by
  intro w u I Q f _ hI hthrow hfalse htrue
  rw [backupCheck, bind_assoc]
  refine holds_validateBackupCode_bind _ code _ hI (fun hb => hthrow ?_) (fun hb => ?_) ?_
  · simp [factorResult, hb]
  · exact hfalse (by simp [factorResult, hb])
  · intro cs hb
    refine htrue _ (by simp [factorResult, hb]) (.inr ⟨stringifyBackupCodes (.arr cs), ?_, rfl⟩)
    simp [spentCodes, hb]

/-- The three verifications. -/
theorem holds_factor {tempToken : JsonField N} (hp : presented r.route = some tempToken) :
    (handle env r).Holds (exec env) (Visited env w r) (FactorEnding env w r.route) w := by
  rw [handle]
  cases hr : r.route with
  | verify t code =>
    have hcheck : Checks env r.route (totpCheck env code) := by
      rw [hr]
      exact checks_totp t code
    have hrun : (MfaController.verify env t code).Holds (exec env) (Visited env w r)
        (FactorEnding env w r.route) w := holds_verifyFactor (hr ▸ rfl) hcheck
    rw [hr] at hrun
    exact hrun
  | verifyBackup t code =>
    have hcheck : Checks env r.route (backupCheck env code) := by
      rw [hr]
      exact checks_backup t code
    have hrun : (MfaController.verifyBackup env t code).Holds (exec env) (Visited env w r)
        (FactorEnding env w r.route) w := holds_verifyFactor (hr ▸ rfl) hcheck
    rw [hr] at hrun
    exact hrun
  | verifyBiometric t device =>
    have hcheck : Checks env r.route (biometricCheck device) := by
      rw [hr]
      exact checks_biometric t device
    have hrun : (MfaController.verifyBiometric env t device).Holds (exec env) (Visited env w r)
        (FactorEnding env w r.route) w := holds_verifyFactor (hr ▸ rfl) hcheck
    rw [hr] at hrun
    exact hrun
  | _ =>
    rw [hr] at hp
    cases hp

end VerdeAuth.RequestEndings
