import VerdeAuth.RequestRuns
import VerdeAuth.RunHistories

/-!
# Enrolling factors and turning MFA off

The requests that enrol a factor of a user or turn its MFA off, told by their
replies, and what each leaves of the row of the user.
-/

namespace VerdeAuth.EnrolmentEvents

open JsonTexts KeyedTables IamTables IamOperations ResumptionPrograms UsersService TokenServices
open MfaServices AuthService MfaController IamEndpoints IamRules UserRowChanges RequestEndings
open RequestRuns

variable {N : Type} [JsNumber N] [DecidableEq N] {env : Env N} {w : World} {q : Timed N}
  {i : UserId}

/-- The step of a run. -/
abbrev served (env : Env N) (w : World) (q : Timed N) : World := (serve env q.1 q.2 w).2

/-- A `verify-setup` of the user that succeeded, its code checked against the
secret. -/
structure Confirms (env : Env N) (w : World) (q : Timed N) (i : UserId) (secret : String) :
    Prop where
  route : ∃ code, q.2.route = .verifySetup code
  header : q.2.userId = .uuid i
  success : ∃ codes, (serve env q.1 q.2 w).1 = .ok (.backupCodes codes)
  checked : ∃ u, w.users.get? i = some u ∧ u.mfaSecret.bind env.decrypt = some secret

/-- A `setup` of the user that stored the encrypted secret. -/
structure StoresSecret (env : Env N) (w : World) (q : Timed N) (i : UserId) (stored : String) :
    Prop where
  route : q.2.route = .setup
  header : q.2.userId = .uuid i
  row : ∃ u, (served env w q).users.get? i = some u ∧ u.mfaSecret = some stored

/-- An `enable-biometric` of the user that succeeded and left the device enrolled. -/
structure EnrolsDevice (env : Env N) (w : World) (q : Timed N) (i : UserId)
    (device : Option String) : Prop where
  route : ∃ d, q.2.route = .enableBiometric d
  header : q.2.userId = .uuid i
  success : ∃ text, (serve env q.1 q.2 w).1 = .ok (.message true text)
  row : ∃ u, (served env w q).users.get? i = some u ∧ u.deviceBiometricId = device

/-- MFA of the user is turned off: by a `disable` that succeeded, or by the reset
of its row. -/
inductive TurnsOff (env : Env N) (w : World) (q : Timed N) (i : UserId) : Prop
  | disabled {password code} (route : q.2.route = .disable password code)
      (header : q.2.userId = .uuid i) (success : (serve env q.1 q.2 w).1 = .ok .done) :
      TurnsOff env w q i
  | reset {email u} (route : q.2.route = .resetUser email)
      (found : w.findUser (.email (criterion env email)) = some u) (row : u.id = i) :
      TurnsOff env w q i

omit [JsNumber N] [DecidableEq N] in
theorem guardedRow_eq_some {r : Request N} {f : User → Option User} {v : User} :
    guardedRow env w r f = some v ↔
      Authorized env w r ∧ ∃ u, Addressed w r u ∧ f u = some v := by
  unfold guardedRow Authorized
  by_cases ha : (bearerPayload env w r).isSome = true
  · simp [ha, Option.bind_eq_some_iff, addressed_eq_some]
  · simp [ha]

/-- A handler that answers so left the row `finalRow` tells. -/
theorem row_of_answered {yes : Reply → Prop} {y : Reply}
    (h : (handle env q.2).Holds (exec env) (Visited env { w with clock := q.1 } q.2)
      (Answered env { w with clock := q.1 } q.2 yes) { w with clock := q.1 })
    (hreply : (serve env q.1 q.2 w).1 = .ok y) (hy : yes y) :
    ∃ v, finalRow env { w with clock := q.1 } q.2 = some v ∧
      (served env w q).users = w.users.put v := by
  have hsome := h.final.2.mp ⟨y, hreply, hy⟩
  obtain ⟨v, hv⟩ := Option.isSome_iff_exists.mp hsome
  have husers := serve_users env q.1 q.2 w
  rw [hv] at husers
  exact ⟨v, hv, husers⟩

theorem success_of_row {yes : Reply → Prop} {v : User}
    (h : (handle env q.2).Holds (exec env) (Visited env { w with clock := q.1 } q.2)
      (Answered env { w with clock := q.1 } q.2 yes) { w with clock := q.1 })
    (hv : finalRow env { w with clock := q.1 } q.2 = some v) :
    ∃ y, (serve env q.1 q.2 w).1 = .ok y ∧ yes y :=
  h.final.2.mpr (by rw [hv]; rfl)

theorem Confirms.put {secret : String} (h : Confirms env w q i secret) :
    ∃ u, w.users.get? i = some u ∧ u.mfaSecret.bind env.decrypt = some secret ∧
      (served env w q).users =
        w.users.put (enabledRow (N := N) env { w with clock := q.1 } u) := by
  obtain ⟨code, hr⟩ := h.route
  obtain ⟨codes, hreply⟩ := h.success
  obtain ⟨v, hv, husers⟩ := row_of_answered (holds_verifySetup hr) hreply ⟨codes, rfl⟩
  obtain ⟨u, hu, hsecret⟩ := h.checked
  refine ⟨u, hu, hsecret, ?_⟩
  simp only [finalRow, hr] at hv
  obtain ⟨-, u', haddr, hif⟩ := guardedRow_eq_some.mp hv
  split at hif
  · have hid : u'.id = i := by
      have hheader := haddr.header
      rw [h.header] at hheader
      exact (IdParam.uuid.inj hheader).symm
    have hrow : w.users.get? i = some u' := hid ▸ haddr.row
    rw [hu] at hrow
    rw [husers, ← Option.some.inj hif, Option.some.inj hrow]
  · cases hif

/-- The row a request changed when it enabled MFA confirms a secret. -/
theorem confirms_of_change {u : User} {code : JsonField N} (hr : q.2.route = .verifySetup code)
    (ha : Authorized env { w with clock := q.1 } q.2) (hu : Addressed { w with clock := q.1 } q.2 u)
    (hc : totpResult env q.1 u.mfaSecret code = some true) :
    ∃ secret, Confirms env w q u.id secret := by
  have hv : finalRow env { w with clock := q.1 } q.2 =
      some (enabledRow (N := N) env { w with clock := q.1 } u) := by
    simp only [finalRow, hr]
    exact guardedRow_eq_some.mpr ⟨ha, u, hu, if_pos hc⟩
  obtain ⟨y, hreply, codes, rfl⟩ := success_of_row (holds_verifySetup hr) hv
  obtain ⟨secret, hsecret, -⟩ := Option.bind_eq_some_iff.mp hc
  exact ⟨secret, ⟨code, hr⟩, hu.header, ⟨codes, hreply⟩, u, hu.row, hsecret⟩

theorem storesSecret_of_change {u : User} (hr : q.2.route = .setup)
    (hu : Addressed { w with clock := q.1 } q.2 u) {v : User}
    (hv : v = setupRow env { w with clock := q.1 } u)
    (husers : (served env w q).users = w.users.put v) {stored : String}
    (hs : v.mfaSecret = some stored) : StoresSecret env w q u.id stored := by
  refine ⟨hr, hu.header, v, ?_, hs⟩
  have hid : v.id = u.id := by
    rw [hv]
    rfl
  rw [husers, ← hid]
  exact Table.get?_put_self w.users v

theorem enrolsDevice_of_change {u : User} {d : JsonField N} (hr : q.2.route = .enableBiometric d)
    (ha : Authorized env { w with clock := q.1 } q.2) (hu : Addressed { w with clock := q.1 } q.2 u)
    (hm : u.mfaEnabled = true) :
    EnrolsDevice env w q u.id (biometricEnabledWith (columnUpdate env d) u).deviceBiometricId := by
  have hv : finalRow env { w with clock := q.1 } q.2 =
      some (biometricEnabledWith (columnUpdate env d) u) := by
    simp only [finalRow, hr]
    exact guardedRow_eq_some.mpr ⟨ha, u, hu, if_pos hm⟩
  obtain ⟨y, hreply, text, rfl⟩ := success_of_row (holds_enableBiometric hr) hv
  refine ⟨⟨d, hr⟩, hu.header, ⟨text, hreply⟩, _, ?_, rfl⟩
  have husers := serve_users env q.1 q.2 w
  rw [hv] at husers
  rw [husers]
  exact Table.get?_put_self w.users (biometricEnabledWith (columnUpdate env d) u)

/-- What turning MFA off leaves: no secret, no backup codes, the biometric
columns as they were. -/
theorem TurnsOff.put (h : TurnsOff env w q i) :
    ∃ u v, w.users.get? i = some u ∧ (served env w q).users = w.users.put v ∧ v.id = i ∧
      v.mfaEnabled = false ∧ v.mfaSecret = none ∧ v.mfaBackupCodes = none ∧
      v.biometricEnabled = u.biometricEnabled := by
  cases h with
  | @disabled password code hr hheader hreply =>
    obtain ⟨v, hv, husers⟩ := row_of_answered (holds_disable hr) hreply rfl
    simp only [finalRow, hr] at hv
    obtain ⟨-, u, haddr, hrow⟩ := guardedRow_eq_some.mp hv
    have hid : u.id = i := by
      have hu := haddr.header
      rw [hheader] at hu
      exact (IdParam.uuid.inj hu).symm
    have hget : w.users.get? i = some u := hid ▸ haddr.row
    unfold disabledRow at hrow
    split at hrow
    · split at hrow
      · obtain rfl := Option.some.inj hrow
        exact ⟨u, mfaDisabled u, hget, husers, hid, rfl, rfl, rfl, rfl⟩
      · cases hrow
    · cases hrow
  | @reset email u hr hu hid =>
    have husers := serve_users env q.1 q.2 w
    have hfound : ({ w with clock := q.1 } : World).findUser (.email (criterion env email)) =
      some u := hu
    simp only [finalRow, hr, hfound, Option.map_some, Option.elim_some] at husers
    exact ⟨u, resetPatch.apply u, hid ▸ get?_of_findUser hu, husers, hid, rfl, rfl, rfl, rfl⟩

end VerdeAuth.EnrolmentEvents
