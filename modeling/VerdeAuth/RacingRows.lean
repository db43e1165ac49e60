import VerdeAuth.RequestContracts
import VerdeAuth.UserRowConsistency

/-!
# User rows in a race

Requests whose operations run in any order write columns from rows they read
earlier. The conditions on columns that are always written together still hold of
every row at every point; the ones across different writers need not.
-/

namespace VerdeAuth.RacingRows

open JsonTexts KeyedTables IamTables IamOperations ResumptionPrograms InterleavedPools UsersService
open MfaServices AuthService IamEndpoints IamAssumptions UserRowChanges RequestRuns
open RequestFootprints ResponseContracts RequestContracts UserRowConsistency

/-- The conditions on columns that are written together. -/
structure Coherent (u : User) : Prop where
  expires : u.mfaTempToken = none ↔ u.mfaTempTokenExpires = none
  locked : u.lockedUntil = none ↔ u.failedAttempts < 5
  mfaLocked : u.mfaLockedUntil = none ↔ u.mfaFailedAttempts < 3
  preferred : u.biometricEnabled = true ↔ u.preferredMfaMethod = .biometric
  device : u.biometricEnabled = false → u.deviceBiometricId = none

variable {u : User}

theorem coherent_create (i : UserId) (email passwordHash : String) :
    Coherent (User.create i email passwordHash) := by
  constructor <;> simp [User.create]

theorem coherent_attemptFailed (h : Coherent u) (t : Time) : Coherent (attemptFailed t u) :=
  { h with
    locked := by
      have hlocked := h.locked
      by_cases h5 : u.failedAttempts + 1 ≥ 5
      · simp [attemptFailed, h5]
      · have hopen : u.failedAttempts < 5 := by omega
        have hnone : u.lockedUntil = none := hlocked.mpr hopen
        simp [attemptFailed, h5, hnone]
        omega }

theorem coherent_attemptsReset (h : Coherent u) : Coherent (attemptsReset u) :=
  { h with locked := by simp [attemptsReset] }

theorem coherent_mfaAttemptFailed (h : Coherent u) (t : Time) : Coherent (mfaAttemptFailed t u) :=
  { h with
    mfaLocked := by
      have hlocked := h.mfaLocked
      by_cases h3 : u.mfaFailedAttempts + 1 ≥ 3
      · simp [mfaAttemptFailed, h3]
      · have hopen : u.mfaFailedAttempts < 3 := by omega
        have hnone : u.mfaLockedUntil = none := hlocked.mpr hopen
        simp [mfaAttemptFailed, h3, hnone]
        omega }

/-- An update that leaves two columns alone, or sets both to values that fit. -/
def SetTogether {α β : Type} (a : Option α) (b : Option β) (fit : α → β → Prop) : Prop :=
  (a = none ∧ b = none) ∨ ∃ x y, a = some x ∧ b = some y ∧ fit x y

/-- An update that sets the columns that belong together together. -/
structure Balanced (p : UserPatch) : Prop where
  expires : SetTogether p.mfaTempToken p.mfaTempTokenExpires fun a b => a = none ↔ b = none
  locked : SetTogether p.failedAttempts p.lockedUntil fun n l => n = 0 ∧ l = none
  mfaLocked : SetTogether p.mfaFailedAttempts p.mfaLockedUntil fun n l => n = 0 ∧ l = none
  biometric : SetTogether p.biometricEnabled p.preferredMfaMethod fun b m => b = true ↔ m = .biometric
  device : p.biometricEnabled = some false → p.deviceBiometricId = some none
  kept : p.biometricEnabled = none → p.deviceBiometricId = none

theorem Balanced.coherent {p : UserPatch} (hp : Balanced p) (h : Coherent u) :
    Coherent (p.apply u) where
  expires := by
    rcases hp.expires with ⟨ha, hb⟩ | ⟨a, b, ha, hb, hab⟩
    · simpa [UserPatch.apply, ha, hb] using h.expires
    · simpa [UserPatch.apply, ha, hb] using hab
  locked := by
    rcases hp.locked with ⟨ha, hb⟩ | ⟨n, l, ha, hb, rfl, rfl⟩
    · simpa [UserPatch.apply, ha, hb] using h.locked
    · simp [UserPatch.apply, ha, hb]
  mfaLocked := by
    rcases hp.mfaLocked with ⟨ha, hb⟩ | ⟨n, l, ha, hb, rfl, rfl⟩
    · simpa [UserPatch.apply, ha, hb] using h.mfaLocked
    · simp [UserPatch.apply, ha, hb]
  preferred := by
    rcases hp.biometric with ⟨ha, hb⟩ | ⟨b, m, ha, hb, hbm⟩
    · simpa [UserPatch.apply, ha, hb] using h.preferred
    · simpa [UserPatch.apply, ha, hb] using hbm
  device := by
    cases hb : p.biometricEnabled with
    | none => simpa [UserPatch.apply, hb, hp.kept hb] using h.device
    | some b =>
      cases b with
      | false => simp [UserPatch.apply, hp.device hb]
      | true => simp [UserPatch.apply, hb]

section Requests

variable {N : Type} {env : Env N} {A : Contract N} {r : Request N}

/-- The rows found are coherent. -/
def FindsCoherent : (o : Op N) → Res N o → Prop
  | .findUser _, row => ∀ u, row = some u → Coherent u
  | _, _ => True

/-- A saved row is coherent, and an update is balanced. -/
def WritesCoherent : Op N → Prop
  | .saveUser u => Coherent u
  | .updateUser _ p => Balanced p
  | _ => True

variable [JsNumber N] [DecidableEq N]

theorem balanced_of_asks {i : UserId} {p : UserPatch} (h : Asks env A r (.updateUser i p)) :
    Balanced p := by
  cases h <;> constructor <;> simp [SetTogether, unlockPatch, resetPatch]

theorem writesCoherent_of_asks {o : Op N} (h : Asks env FindsCoherent r o) : WritesCoherent o := by
  cases o with
  | saveUser v =>
    cases h with
    | attemptFailed hr h => exact coherent_attemptFailed (h.selected _ rfl) _
    | attemptsReset hr h => exact coherent_attemptsReset (h.selected _ rfl)
    | mfaAttemptFailed h hv => exact coherent_mfaAttemptFailed (hv _ rfl) _
  | updateUser i p => exact balanced_of_asks h
  | _ => trivial

omit [JsNumber N] [DecidableEq N] in
theorem allRows_exec {o : Op N} {w : World} (hw : AllRows Coherent w) (ho : WritesCoherent o) :
    AllRows Coherent (exec env o w).2 := by
  cases o with
  | insertUser email passwordHash =>
    intro u hu
    rcases Table.mem_put hu with rfl | ⟨hu, -⟩
    · exact coherent_create _ _ _
    · exact hw u hu
  | saveUser v =>
    intro u hu
    rcases Table.mem_put hu with rfl | ⟨hu, -⟩
    · exact ho
    · exact hw u hu
  | updateUser i p =>
    intro u hu
    have hmem : u ∈ (w.users.modify i p.apply p.apply_id).rows := hu
    rcases Table.mem_modify hmem with ⟨hu, -⟩ | ⟨v, hv, -, rfl⟩
    · exact hw u hu
    · exact Balanced.coherent ho (hw v hv)
  | _ => exact hw

omit [JsNumber N] [DecidableEq N] in
theorem stable_coherent (env : Env N) :
    Stable (exec env) tick (AllRows Coherent) (fun _ => FindsCoherent) (fun _ => WritesCoherent) where
  keeps _ _ hw ho := allRows_exec hw ho
  answers o w hw _ := by
    cases o with
    | findUser c =>
      intro u hu
      exact hw u (mem_of_findUser hu)
    | _ => trivial
  lasts _ _ _ _ _ _ hr := hr
  outside _ _ hw := hw
  outside_lasts _ _ _ _ _ hr := hr

theorem under_coherent (env : Env N) (rs : List (Request N)) :
    ∀ p ∈ rs.map (handle env), ∀ w : World, AllRows Coherent w →
      Under FindsCoherent WritesCoherent (fun _ => True) p := by
  intro p hp _ _
  obtain ⟨r, -, rfl⟩ := List.mem_map.mp hp
  exact (serves_handle env FindsCoherent r).mono (fun _ _ h => h)
    (fun _ h => writesCoherent_of_asks h) fun _ _ => trivial

/-- In every interleaving of any requests, at every point, every row satisfies the
conditions on columns that are written together. -/
theorem rows_coherent (env : Env N) (w : World) (hw : AllRows Coherent w) (rs : List (Request N))
    (sched : List (Turn Time)) : AllRows Coherent (together env w rs sched).state :=
  ((stable_coherent env).exec (under_coherent env rs) hw sched).1

end Requests

/-- A login with MFA has read the row, MFA is disabled, and the login goes on. -/
def disabledAmidLogin : List (Turn Time) :=
  List.replicate 3 (.thread 0) ++ List.replicate 8 (.thread 1) ++ List.replicate 5 (.thread 0)

def racingRequests : List (Request ℕ) :=
  [⟨.login ⟨some (.str "ana@verde.ec"), some (.str "clave")⟩, .undefined, none, none, "::1"⟩,
    anaRequest (.disable (some (.str "clave")) (some (.str "000007")))]

/-- A temporary token is then stored for a user without MFA. -/
theorem rows_coherent_disabledAmidLogin :
    AllRows Coherent (together anaEnv anaWorld racingRequests disabledAmidLogin).state ∧
      ∃ u ∈ (together anaEnv anaWorld racingRequests disabledAmidLogin).state.users.rows,
        u.mfaEnabled = false ∧ u.mfaTempToken ≠ none := by
  refine ⟨rows_coherent anaEnv anaWorld ?_ racingRequests disabledAmidLogin, ?_⟩
  · intro u hu
    cases List.mem_singleton.mp hu
    constructor <;> decide
  · decide

end VerdeAuth.RacingRows
