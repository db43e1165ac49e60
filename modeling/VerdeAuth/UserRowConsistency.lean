import VerdeAuth.IamAssumptions
import VerdeAuth.RequestRuns

/-!
# Consistency of user rows

The conditions tying the columns of a user row together, kept by every row
change and so by every run of requests from rows as they are created.
-/

namespace VerdeAuth.UserRowConsistency

open JsonTexts KeyedTables IamTables IamOperations ResumptionPrograms UsersService MfaServices
open AuthService MfaController IamEndpoints IamRules IamAssumptions UserRowChanges RequestRuns

structure Consistent (u : User) : Prop where
  enabled : u.mfaEnabled = true → u.mfaSecret ≠ none ∧ u.mfaBackupCodes ≠ none
  expires : u.mfaTempToken = none ↔ u.mfaTempTokenExpires = none
  pending : u.mfaTempToken ≠ none → u.mfaEnabled = true
  locked : u.lockedUntil ≠ none ↔ u.failedAttempts ≥ 5
  mfaLocked : u.mfaLockedUntil ≠ none ↔ u.mfaFailedAttempts ≥ 3
  preferred : u.biometricEnabled = true ↔ u.preferredMfaMethod = .biometric
  device : u.biometricEnabled = false → u.deviceBiometricId = none

variable {u : User}

theorem consistent_create (i : UserId) (email passwordHash : String) :
    Consistent (User.create i email passwordHash) := by
  constructor <;> simp [User.create]

theorem consistent_attemptFailed (h : Consistent u) (t : Time) : Consistent (attemptFailed t u) :=
  { h with
    locked := by
      have hlocked := h.locked
      by_cases h5 : u.failedAttempts + 1 ≥ 5
      · simp [attemptFailed, h5]
      · have hopen : ¬ u.failedAttempts ≥ 5 := by omega
        simpa [attemptFailed, h5, hopen] using hlocked }

theorem consistent_attemptsReset (h : Consistent u) : Consistent (attemptsReset u) :=
  { h with locked := by simp [attemptsReset] }

theorem consistent_mfaAttemptFailed (h : Consistent u) (t : Time) :
    Consistent (mfaAttemptFailed t u) :=
  { h with
    mfaLocked := by
      have hlocked := h.mfaLocked
      by_cases h3 : u.mfaFailedAttempts + 1 ≥ 3
      · simp [mfaAttemptFailed, h3]
      · have hopen : ¬ u.mfaFailedAttempts ≥ 3 := by omega
        simpa [mfaAttemptFailed, h3, hopen] using hlocked }

theorem consistent_mfaAttemptsReset (h : Consistent u) : Consistent (mfaAttemptsReset u) :=
  { h with mfaLocked := by simp [mfaAttemptsReset] }

theorem consistent_tempTokenSet (h : Consistent u) (hm : u.mfaEnabled = true) (token : String)
    (expires : Time) : Consistent (tempTokenSet token expires u) :=
  { h with
    expires := by simp [tempTokenSet]
    pending := fun _ => hm }

theorem consistent_tempTokenCleared (h : Consistent u) (t : Time) :
    Consistent (tempTokenCleared t u) :=
  { h with
    expires := by simp [tempTokenCleared]
    pending := fun hne => absurd rfl hne }

theorem consistent_mfaEnabledWith (h : Consistent u) (hs : u.mfaSecret ≠ none) (codes : String) :
    Consistent (mfaEnabledWith codes u) :=
  { h with
    enabled := fun _ => ⟨hs, by simp [mfaEnabledWith]⟩
    pending := fun _ => rfl }

theorem consistent_mfaDisabled (h : Consistent u) : Consistent (mfaDisabled u) :=
  { h with
    enabled := fun he => absurd he (by simp [mfaDisabled])
    expires := by simp [mfaDisabled]
    pending := fun hne => absurd rfl hne
    mfaLocked := by simp [mfaDisabled] }

theorem consistent_biometricEnabledWith (h : Consistent u) (device : Option (Option String)) :
    Consistent (biometricEnabledWith device u) :=
  { h with
    preferred := by simp [biometricEnabledWith]
    device := fun hb => absurd hb (by simp [biometricEnabledWith]) }

theorem consistent_biometricDisabled (h : Consistent u) : Consistent (biometricDisabled u) :=
  { h with
    preferred := by simp [biometricDisabled]
    device := fun _ => rfl }

/-- Writing a secret or backup codes takes neither away. -/
theorem consistent_written (h : Consistent u) {u' : User}
    (hs : u.mfaSecret ≠ none → u'.mfaSecret ≠ none)
    (hc : u.mfaBackupCodes ≠ none → u'.mfaBackupCodes ≠ none)
    (hu : u' = { u with mfaSecret := u'.mfaSecret, mfaBackupCodes := u'.mfaBackupCodes }) :
    Consistent u' := by
  have hrest : Consistent { u with
      mfaSecret := u'.mfaSecret, mfaBackupCodes := u'.mfaBackupCodes } :=
    { h with enabled := fun he => ⟨hs (h.enabled he).1, hc (h.enabled he).2⟩ }
  exact hu ▸ hrest

section Requests

variable {N : Type} [JsNumber N] [DecidableEq N] {env : Env N} {w : World} {r : Request N}

theorem consistent_factorWritten (h : Consistent u) (route : Route N) :
    Consistent (factorWritten env w route u) := by
  refine consistent_written (consistent_mfaAttemptsReset h) (fun hs => hs) (fun hc => ?_) rfl
  simp only [factorWritten]
  split
  · simp
  · exact hc

omit [JsNumber N] [DecidableEq N] in
theorem secret_of_totpResult {t : Time} {secret : Option String} {code : JsonField N}
    (h : totpResult env t secret code = some true) : secret ≠ none := by
  rintro rfl
  cases h

theorem consistent_of_change {u' : User} (hc : RowChange env w r u u') (h : Consistent u) :
    Consistent u' := by
  cases hc with
  | loginRefused hr hl => exact consistent_attemptFailed h _
  | loginAccepted hr hl => exact consistent_attemptsReset h
  | loginPending hr hl hm => exact consistent_tempTokenSet (consistent_attemptsReset h) hm _ _
  | secretSet hr hu =>
    exact consistent_written h (fun _ => Option.some_ne_none _) (fun hne => hne) rfl
  | mfaEnabled hr ha hu hf =>
    exact consistent_mfaEnabledWith h (secret_of_totpResult hf) _
  | mfaDisabled hr ha hu hs hp hf => exact consistent_mfaDisabled h
  | biometricEnabled hr ha hu hm => exact consistent_biometricEnabledWith h _
  | biometricDisabled hr ha hu => exact consistent_biometricDisabled h
  | factorRefused hf => exact consistent_mfaAttemptFailed h _
  | factorAccepted hf => exact consistent_mfaAttemptsReset h
  | codesSpent hf => exact consistent_factorWritten h _
  | factorCompleted hf => exact consistent_tempTokenCleared (consistent_factorWritten h _) _
  | unlocked hr hu => exact consistent_mfaAttemptsReset (consistent_attemptsReset h)
  | reset hr hu =>
    have hreset : Consistent (attemptsReset (mfaDisabled u)) :=
      consistent_attemptsReset (consistent_mfaDisabled h)
    exact { hreset with }

/-- The row is as `UsersService.create` makes it. -/
def Created (u : User) : Prop := ∃ i email passwordHash, u = User.create i email passwordHash

omit [JsNumber N] [DecidableEq N] in
theorem allRows_create (env : Env N) (email password : String) (hw : AllRows Created w) :
    AllRows Created ((create env email password).run (exec env) w).2 := by
  intro u hu
  rcases Table.mem_put hu with rfl | ⟨hu, -⟩
  · exact ⟨_, _, _, rfl⟩
  · exact hw u hu

/-- Every row is consistent after every run of requests from created rows, and
wherever a next request is cut off. -/
theorem rows_consistent (env : Env N) (w : World) (hw : AllRows Created w) (rs : List (Timed N))
    (t : Time) (r : Request N) (n : ℕ) :
    AllRows Consistent (serveAll env w rs) ∧
      AllRows Consistent (serveCut env t r n (serveAll env w rs)) := by
  have hcreated : AllRows Consistent w := by
    intro u hu
    obtain ⟨i, email, passwordHash, rfl⟩ := hw u hu
    exact consistent_create i email passwordHash
  have hrun : AllRows Consistent (serveAll env w rs) :=
    serveAll_allRows (fun w r u u' hc h => consistent_of_change hc h) hcreated rs
  have hclock : AllRows Consistent { serveAll env w rs with clock := t } := hrun
  refine ⟨hrun, ?_⟩
  exact allRows_of_visited (fun u u' hc h => consistent_of_change hc h)
    (serveCut_visited env t r n (serveAll env w rs)) hclock

end Requests

theorem rows_consistent_firstUser :
    let env := plainEnv []
    let w := ((create env "ana@verde.ec" "clave").run (exec env) .empty).2
    let setup : Request ℕ := ⟨.setup, .uuid 1, none, none, "::1"⟩
    let signIn : Request ℕ :=
      ⟨.login ⟨some (.str "ana@verde.ec"), some (.str "otra")⟩, .undefined, none, none, "::1"⟩
    AllRows Consistent (serveAll env w [(1000, setup)]) ∧
      AllRows Consistent (serveCut env 2000 signIn 3 (serveAll env w [(1000, setup)])) := by
  intro env w setup signIn
  refine rows_consistent env w (allRows_create env "ana@verde.ec" "clave" ?_) [(1000, setup)]
    2000 signIn 3
  intro u hu
  cases hu

end VerdeAuth.UserRowConsistency
