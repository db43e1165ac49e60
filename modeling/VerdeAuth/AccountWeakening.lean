import VerdeAuth.IamAssumptions
import VerdeAuth.RequestRuns

/-!
# Requests without credentials

Which requests that carry no credential of a user weaken the account all the
same: those of `Exposes`, and no others.
-/

namespace VerdeAuth.AccountWeakening

open JsonTexts KeyedTables IamTables IamOperations ResumptionPrograms UsersService TokenServices
open MfaServices AuthService MfaController IamEndpoints IamRules IamAssumptions UserRowChanges
open RequestEndings RequestRuns

/-- The guarding columns are the same, and no counter or lock was lowered. -/
structure Unweakened (u u' : User) : Prop where
  mfaEnabled : u'.mfaEnabled = u.mfaEnabled
  mfaSecret : u'.mfaSecret = u.mfaSecret
  mfaBackupCodes : u'.mfaBackupCodes = u.mfaBackupCodes
  biometricEnabled : u'.biometricEnabled = u.biometricEnabled
  deviceBiometricId : u'.deviceBiometricId = u.deviceBiometricId
  preferredMfaMethod : u'.preferredMfaMethod = u.preferredMfaMethod
  failedAttempts : u.failedAttempts ≤ u'.failedAttempts
  mfaFailedAttempts : u.mfaFailedAttempts ≤ u'.mfaFailedAttempts
  lockedUntil : ∀ t ∈ u.lockedUntil, ∃ t' ∈ u'.lockedUntil, t ≤ t'
  mfaLockedUntil : ∀ t ∈ u.mfaLockedUntil, ∃ t' ∈ u'.mfaLockedUntil, t ≤ t'

theorem unweakened_refl (u : User) : Unweakened u u := by
  constructor
  case lockedUntil => exact fun t ht => ⟨t, ht, Nat.le_refl t⟩
  case mfaLockedUntil => exact fun t ht => ⟨t, ht, Nat.le_refl t⟩
  all_goals rfl

variable {N : Type}

/-- The password and the refresh token a request carries. -/
def carriedPassword : Route N → JsonField N
  | .login dto => dto.password
  | .disable password _ => password
  | _ => none

def carriedRefreshToken : Route N → JsonField N
  | .refresh token => token
  | .logout token => token
  | _ => none

/-- The request carries no credential of the user: no valid access token, no
correct password, no live refresh token and no live temporary token. -/
structure Uncredentialed (env : Env N) (w : World) (r : Request N) (u : User) : Prop where
  accessToken : ∀ payload, bearerPayload env w r = some payload → payload.sub ≠ u.id
  password : ∀ s, carriedPassword r.route = some (.str s) →
    env.bcryptCompare s u.passwordHash = false
  refreshToken : ∀ s, carriedRefreshToken r.route = some (.str s) →
    ∀ session ∈ w.findSessions (some u.id), w.clock < session.expiresAt →
      env.bcryptCompare s session.refreshToken = false
  tempToken : ∀ token s, presented r.route = some token → criterion env token = some s →
    ¬ (u.mfaTempToken = some s ∧ w.clock ≤ u.mfaTempTokenExpires.getD 0)

def LoginCountersClear (u : User) : Prop := u.failedAttempts = 0 ∧ u.lockedUntil = none

def MfaCountersClear (u : User) : Prop := u.mfaFailedAttempts = 0 ∧ u.mfaLockedUntil = none

/-- No drawn initialisation vector gives a ciphertext the row already stores. -/
def FreshCiphertexts (env : Env N) (w : World) (u : User) : Prop :=
  ∀ n s, w.drawn ≤ n →
    u.mfaSecret ≠ some (env.encrypt n s) ∧ u.mfaBackupCodes ≠ some (env.encrypt n s)

variable [JsNumber N] [DecidableEq N]

/-- The requests that need no credential of the user: those without a guard, those
that take the user from the header, and verifications without a token. -/
inductive Exposes (env : Env N) (w : World) (r : Request N) (u : User) : Prop
  | setup (hr : r.route = .setup) (hu : Addressed w r u) : Exposes env w r u
  | enabled {code} (hr : r.route = .verifySetup code) (ha : Authorized env w r)
      (hu : Addressed w r u) (hc : totpResult env w.clock u.mfaSecret code = some true) :
      Exposes env w r u
  | biometricEnabled {device} (hr : r.route = .enableBiometric device) (ha : Authorized env w r)
      (hu : Addressed w r u) (hm : u.mfaEnabled = true)
      (hne : ¬ (u.biometricEnabled = true ∧ u.preferredMfaMethod = .biometric ∧
        (columnUpdate env device).getD u.deviceBiometricId = u.deviceBiometricId)) :
      Exposes env w r u
  | biometricDisabled (hr : r.route = .disableBiometric) (ha : Authorized env w r)
      (hu : Addressed w r u)
      (hne : ¬ (u.biometricEnabled = false ∧ u.preferredMfaMethod = .totp ∧
        u.deviceBiometricId = none)) : Exposes env w r u
  | unlocked {email} (hr : r.route = .unlockUser email)
      (hu : w.findUser (.email (criterion env email)) = some u)
      (hne : ¬ (LoginCountersClear u ∧ MfaCountersClear u)) : Exposes env w r u
  | reset {email} (hr : r.route = .resetUser email)
      (hu : w.findUser (.email (criterion env email)) = some u)
      (hne : ¬ (LoginCountersClear u ∧ MfaCountersClear u ∧ u.mfaEnabled = false ∧
        u.mfaSecret = none ∧ u.mfaBackupCodes = none)) : Exposes env w r u
  | factor (h : FactorChecked env w r.route true u)
      (hne : ¬ (MfaCountersClear u ∧ spentCodes env w.clock u r.route = none)) :
      Exposes env w r u

variable {env : Env N} {w : World} {r : Request N} {u u' : User}

theorem le_of_not_lockedAt {t s : Time} {lock : Option Time} (h : lockedAt t lock = false)
    (hs : s ∈ lock) : s ≤ t := by
  rw [Option.mem_def.mp hs] at h
  simpa [lockedAt] using h

theorem unweakened_attemptFailed {t : Time} (h : lockedAt t u.lockedUntil = false) :
    Unweakened u (attemptFailed t u) :=
  { unweakened_refl u with
    failedAttempts := Nat.le_succ _
    lockedUntil := by
      intro s hs
      have hle := le_of_not_lockedAt h hs
      simp only [attemptFailed]
      split
      · exact ⟨t + lockoutMs, rfl, Nat.le_trans hle (Nat.le_add_right t _)⟩
      · exact ⟨s, hs, Nat.le_refl s⟩ }

theorem unweakened_mfaAttemptFailed {t : Time} (h : lockedAt t u.mfaLockedUntil = false) :
    Unweakened u (mfaAttemptFailed t u) :=
  { unweakened_refl u with
    mfaFailedAttempts := Nat.le_succ _
    mfaLockedUntil := by
      intro s hs
      have hle := le_of_not_lockedAt h hs
      simp only [mfaAttemptFailed]
      split
      · exact ⟨t + lockoutMs, rfl, Nat.le_trans hle (Nat.le_add_right t _)⟩
      · exact ⟨s, hs, Nat.le_refl s⟩ }

theorem unweakened_mfaAttemptsReset (h : MfaCountersClear u) :
    Unweakened u (mfaAttemptsReset u) :=
  { unweakened_refl u with
    mfaFailedAttempts := Nat.le_of_eq h.1
    mfaLockedUntil := by
      intro s hs
      rw [h.2] at hs
      cases hs }

theorem unweakened_attemptsReset (h : LoginCountersClear u) : Unweakened u (attemptsReset u) :=
  { unweakened_refl u with
    failedAttempts := Nat.le_of_eq h.1
    lockedUntil := by
      intro s hs
      rw [h.2] at hs
      cases hs }

theorem loginCountersClear_of_unweakened (h : Unweakened u u') (hf : u'.failedAttempts = 0)
    (hl : u'.lockedUntil = none) : LoginCountersClear u := by
  constructor
  · exact Nat.le_zero.mp (hf ▸ h.failedAttempts)
  · cases hu : u.lockedUntil with
    | none => rfl
    | some t =>
      obtain ⟨t', ht', -⟩ := h.lockedUntil t hu
      rw [hl] at ht'
      cases ht'

theorem mfaCountersClear_of_unweakened (h : Unweakened u u') (hf : u'.mfaFailedAttempts = 0)
    (hl : u'.mfaLockedUntil = none) : MfaCountersClear u := by
  constructor
  · exact Nat.le_zero.mp (hf ▸ h.mfaFailedAttempts)
  · cases hu : u.mfaLockedUntil with
    | none => rfl
    | some t =>
      obtain ⟨t', ht', -⟩ := h.mfaLockedUntil t hu
      rw [hl] at ht'
      cases ht'

theorem unweakened_factorWritten (h : MfaCountersClear u)
    (hs : spentCodes env w.clock u r.route = none) :
    Unweakened u (factorWritten env w r.route u) :=
  { unweakened_mfaAttemptsReset h with
    mfaBackupCodes := by simp only [factorWritten, hs] }

/-- Without a credential of the user the row is weakened only where it is exposed. -/
theorem unweakened_of_change (hc : RowChange env w r u u') (h : Uncredentialed env w r u)
    (hsafe : ¬ Exposes env w r u) : Unweakened u u' := by
  have hlogin : ∀ {dto}, r.route = .login dto → ¬ LoginChecked env w dto true u := by
    intro dto hr hl
    obtain ⟨s, hs, hvalid⟩ := hl.password
    have hwrong := h.password s (by rw [hr]; exact hs)
    rw [hvalid] at hwrong
    cases hwrong
  have hfactor : FactorChecked env w r.route true u →
      MfaCountersClear u ∧ spentCodes env w.clock u r.route = none := fun hf =>
    Classical.not_not.mp fun hne => hsafe (.factor hf hne)
  cases hc with
  | loginRefused hr hl => exact unweakened_attemptFailed hl.unlocked
  | loginAccepted hr hl => exact absurd hl (hlogin hr)
  | loginPending hr hl hm => exact absurd hl (hlogin hr)
  | secretSet hr hu => exact absurd (.setup hr hu) hsafe
  | mfaEnabled hr ha hu hf => exact absurd (.enabled hr ha hu hf) hsafe
  | mfaDisabled hr ha hu hs hp hf =>
    have hwrong := h.password _ (by rw [hr]; exact hs)
    rw [hp] at hwrong
    cases hwrong
  | biometricEnabled hr ha hu hm =>
    have hsame := Classical.not_not.mp fun hne => hsafe (.biometricEnabled hr ha hu hm hne)
    exact { unweakened_refl u with
      biometricEnabled := hsame.1.symm
      preferredMfaMethod := hsame.2.1.symm
      deviceBiometricId := hsame.2.2 }
  | biometricDisabled hr ha hu =>
    have hsame := Classical.not_not.mp fun hne => hsafe (.biometricDisabled hr ha hu hne)
    exact { unweakened_refl u with
      biometricEnabled := hsame.1.symm
      preferredMfaMethod := hsame.2.1.symm
      deviceBiometricId := hsame.2.2.symm }
  | factorRefused hf => exact unweakened_mfaAttemptFailed hf.unlocked
  | factorAccepted hf => exact unweakened_mfaAttemptsReset (hfactor hf).1
  | codesSpent hf => exact unweakened_factorWritten (hfactor hf).1 (hfactor hf).2
  | factorCompleted hf =>
    have hwritten : Unweakened u (factorWritten env w r.route u) :=
      unweakened_factorWritten (hfactor hf).1 (hfactor hf).2
    exact { hwritten with }
  | unlocked hr hu =>
    obtain ⟨hlogin, hmfa⟩ := Classical.not_not.mp fun hne => hsafe (.unlocked hr hu hne)
    exact { unweakened_attemptsReset hlogin with
      mfaFailedAttempts := (unweakened_mfaAttemptsReset hmfa).mfaFailedAttempts
      mfaLockedUntil := (unweakened_mfaAttemptsReset hmfa).mfaLockedUntil }
  | reset hr hu =>
    obtain ⟨hlogin, hmfa, hm, hs, hb⟩ :=
      Classical.not_not.mp fun hne => hsafe (.reset hr hu hne)
    exact { unweakened_attemptsReset hlogin with
      mfaEnabled := hm.symm
      mfaSecret := hs.symm
      mfaBackupCodes := hb.symm
      mfaFailedAttempts := (unweakened_mfaAttemptsReset hmfa).mfaFailedAttempts
      mfaLockedUntil := (unweakened_mfaAttemptsReset hmfa).mfaLockedUntil }

/-- Where it is exposed, the request ends with the row weakened. -/
theorem weakened_of_exposes (hfresh : FreshCiphertexts env w u) (h : Exposes env w r u) :
    ∃ u', finalRow env w r = some u' ∧ u'.id = u.id ∧ ¬ Unweakened u u' := by
  cases h with
  | setup hr hu =>
    refine ⟨setupRow env w u, ?_, rfl, fun hw => ?_⟩
    · simp [finalRow, hr, addressed_eq_some.mpr hu]
    · exact (hfresh _ _ (Nat.le_succ _)).1 hw.mfaSecret.symm
  | enabled hr ha hu hc =>
    refine ⟨enabledRow (N := N) env w u, ?_, rfl, fun hw => ?_⟩
    · simp [finalRow, hr, guardedRow_of_authorized ha hu, hc]
    · exact (hfresh _ _ (Nat.le_add_right _ _)).2 hw.mfaBackupCodes.symm
  | @biometricEnabled device hr ha hu hm hne =>
    refine ⟨biometricEnabledWith (columnUpdate env device) u, ?_, rfl, fun hw => hne ?_⟩
    · simp [finalRow, hr, guardedRow_of_authorized ha hu, hm]
    · exact ⟨hw.biometricEnabled.symm, hw.preferredMfaMethod.symm, hw.deviceBiometricId⟩
  | biometricDisabled hr ha hu hne =>
    refine ⟨biometricDisabled u, ?_, rfl, fun hw => hne ?_⟩
    · simp [finalRow, hr, guardedRow_of_authorized ha hu]
    · exact ⟨hw.biometricEnabled.symm, hw.preferredMfaMethod.symm, hw.deviceBiometricId.symm⟩
  | unlocked hr hu hne =>
    refine ⟨unlockPatch.apply u, ?_, rfl, fun hw => hne ?_⟩
    · simp [finalRow, hr, hu]
    · exact ⟨loginCountersClear_of_unweakened hw rfl rfl,
        mfaCountersClear_of_unweakened hw rfl rfl⟩
  | reset hr hu hne =>
    refine ⟨resetPatch.apply u, ?_, rfl, fun hw => hne ?_⟩
    · simp [finalRow, hr, hu]
    · exact ⟨loginCountersClear_of_unweakened hw rfl rfl,
        mfaCountersClear_of_unweakened hw rfl rfl, hw.mfaEnabled.symm, hw.mfaSecret.symm,
        hw.mfaBackupCodes.symm⟩
  | factor hf hne =>
    refine ⟨tempTokenCleared w.clock (factorWritten env w r.route u), ?_, rfl, fun hw => hne ?_⟩
    · exact finalRow_of_checked hf
    · refine ⟨mfaCountersClear_of_unweakened hw rfl rfl, ?_⟩
      cases hs : spentCodes env w.clock u r.route with
      | none => rfl
      | some codes =>
        have hcodes := hw.mfaBackupCodes
        simp only [tempTokenCleared, factorWritten, hs] at hcodes
        exact absurd hcodes.symm (hfresh _ _ (Nat.le_refl _)).2

/-- A request without a credential of the user leaves the account unweakened
exactly where it is not one of the exposed ones. -/
theorem unweakened_iff (env : Env N) (w : World) (t : Time) (r : Request N) (u : User)
    (hu : w.users.get? u.id = some u) (hfresh : FreshCiphertexts env w u)
    (h : Uncredentialed env { w with clock := t } r u) :
    (∃ u', (serve env t r w).2.users.get? u.id = some u' ∧ Unweakened u u') ↔
      ¬ Exposes env { w with clock := t } r u := by
  constructor
  · rintro ⟨u', hu', hw⟩ hexposes
    have hfresh' : FreshCiphertexts env { w with clock := t } u := hfresh
    obtain ⟨v, hfinal, hid, hnot⟩ := weakened_of_exposes hfresh' hexposes
    rw [serve_users, hfinal, Option.elim_some, ← hid, Table.get?_put_self] at hu'
    exact hnot (Option.some.inj hu' ▸ hw)
  · intro hsafe
    obtain ⟨-, hsame | ⟨v, v', hchange, hput⟩⟩ := serve_visited env t r w
    · exact ⟨u, by rw [hsame, hu], unweakened_refl u⟩
    · rw [hput]
      by_cases hid : v.id = u.id
      · have hv : v = u := by
          have hrow := hchange.row
          rw [hid] at hrow
          exact Option.some.inj (hrow.symm.trans hu)
        subst hv
        refine ⟨v', ?_, unweakened_of_change hchange h hsafe⟩
        rw [← hchange.id_eq]
        exact Table.get?_put_self _ v'
      · refine ⟨u, ?_, unweakened_refl u⟩
        rw [Table.get?_put_of_ne _ _ (by rw [hchange.id_eq]; exact fun he => hid he.symm)]
        exact hu

/-- A setup for Ana, without any token. -/
def strangerSetup : Request ℕ := ⟨.setup, .uuid ana.id, none, none, "::1"⟩

theorem uncredentialed_strangerSetup :
    Uncredentialed (plainEnv []) { anaWorld with clock := 1000 } strangerSetup ana := by
  constructor
  · intro payload h
    cases h
  · intro s h
    cases h
  · intro s h
    cases h
  · intro token s h
    cases h

theorem freshCiphertexts_ana : FreshCiphertexts (plainEnv []) anaWorld ana := by
  intro n s hn
  have hpos : 0 < n := Nat.lt_of_lt_of_le Nat.two_pos hn
  constructor
  · exact fun h => encrypt_plainEnv_ne [] hpos s (by rfl) (Option.some.inj h)
  · exact fun h => encrypt_plainEnv_ne [] hpos s (by rfl) (Option.some.inj h)

/-- The setup replaces her secret. -/
theorem weakened_by_stranger :
    Uncredentialed (plainEnv []) { anaWorld with clock := 1000 } strangerSetup ana ∧
      ¬ ∃ u', (serve (plainEnv []) 1000 strangerSetup anaWorld).2.users.get? ana.id = some u' ∧
        Unweakened ana u' := by
  refine ⟨uncredentialed_strangerSetup, ?_⟩
  rintro ⟨u', hu', hw⟩
  have hrow : (serve (plainEnv []) 1000 strangerSetup anaWorld).2.users.get? ana.id =
      some (secretSet "aaabaab" ana) := by rfl
  rw [hrow] at hu'
  cases hu'
  have hsecret := hw.mfaSecret
  revert hsecret
  decide

theorem unweakened_iff_strangerSetup :
    (∃ u', (serve (plainEnv []) 1000 strangerSetup anaWorld).2.users.get? ana.id = some u' ∧
      Unweakened ana u') ↔
      ¬ Exposes (plainEnv []) { anaWorld with clock := 1000 } strangerSetup ana :=
  unweakened_iff (plainEnv []) anaWorld 1000 strangerSetup ana rfl freshCiphertexts_ana
    uncredentialed_strangerSetup

end VerdeAuth.AccountWeakening
