import VerdeAuth.FactorEnrolment

/-!
# Logins with an enrolled device

The device a row has enrolled is the one its user's last successful
`enable-biometric` supplied, as long as each of these supplies a text.
-/

namespace VerdeAuth.DeviceLogins

open JsonTexts KeyedTables IamTables IamOperations ResumptionPrograms UsersService TokenServices
open AuthService MfaController IamEndpoints IamRules IamAssumptions UserRowChanges RequestEndings
open RequestRuns UserRowConsistency RunHistories EnrolmentEvents SecondFactorGate FactorEnrolment

variable {N : Type} [JsNumber N] [DecidableEq N] {env : Env N} {w : World} {rs : List (Timed N)}
  {q : Timed N} {i : UserId} {u : User} {device : JsonField N}

/-- An `enable-biometric` of the user that succeeded, with the id its body supplies. -/
structure Enables (env : Env N) (w : World) (q : Timed N) (i : UserId) (device : JsonField N) :
    Prop where
  route : q.2.route = .enableBiometric device
  header : q.2.userId = .uuid i
  success : ∃ text, (serve env q.1 q.2 w).1 = .ok (.message true text)

/-- A `disable-biometric` of the user that succeeded. -/
structure Disables (env : Env N) (w : World) (q : Timed N) (i : UserId) : Prop where
  route : q.2.route = .disableBiometric
  header : q.2.userId = .uuid i
  success : ∃ text, (serve env q.1 q.2 w).1 = .ok (.message true text)

/-- Neither an `enable-biometric` nor a `disable-biometric` of the user succeeds. -/
def KeepsDevice (env : Env N) (i : UserId) (w : World) (q : Timed N) : Prop :=
  (∀ device, ¬ Enables env w q i device) ∧ ¬ Disables env w q i

/-- The last successful `enable-biometric` of the user supplied the text, and no
`disable-biometric` has succeeded since. -/
def LastEnabled (env : Env N) (w : World) (rs : List (Timed N)) (i : UserId) (s : String) : Prop :=
  Since (served env) (KeepsDevice env i) (fun w q => Enables env w q i (some (.str s))) w rs

/-- What a successful `enable-biometric` of the user supplies is a text. -/
def SuppliesText (env : Env N) (i : UserId) (w : World) (q : Timed N) : Prop :=
  ∀ device, Enables env w q i device → ∃ s, s ≠ "" ∧ device = some (.str s)

theorem Enables.put (h : Enables env w q i device) :
    ∃ u, w.users.get? i = some u ∧
      (served env w q).users = w.users.put (biometricEnabledWith (columnUpdate env device) u) := by
  obtain ⟨text, hreply⟩ := h.success
  obtain ⟨v, hv, husers⟩ := row_of_answered (holds_enableBiometric h.route) hreply ⟨text, rfl⟩
  simp only [finalRow, h.route] at hv
  obtain ⟨-, u, haddr, hif⟩ := guardedRow_eq_some.mp hv
  split at hif
  · have hid : u.id = i := by
      have hheader := haddr.header
      rw [h.header] at hheader
      exact (IdParam.uuid.inj hheader).symm
    refine ⟨u, hid ▸ haddr.row, ?_⟩
    rw [husers, ← Option.some.inj hif]
  · cases hif

/-- The row after it has the text. -/
theorem Enables.row {s : String} (h : Enables env w q i (some (.str s)))
    (hu : (served env w q).users.get? i = some u) : u.deviceBiometricId = some s := by
  obtain ⟨u₀, hu₀, hput⟩ := h.put
  obtain rfl : u₀.id = i := Table.key_of_get? hu₀
  have hget : (served env w q).users.get? u₀.id =
      some (biometricEnabledWith (columnUpdate env (some (.str s))) u₀) := by
    rw [hput]
    exact Table.get?_put_self w.users (biometricEnabledWith (columnUpdate env (some (.str s))) u₀)
  rw [Option.some.inj (hu.symm.trans hget)]
  rfl

theorem Disables.authorized (h : Disables env w q i) : Authorized env { w with clock := q.1 } q.2 := by
  by_contra hnot
  obtain ⟨text, hreply⟩ := h.success
  simp only [serve, handle, h.route] at hreply
  have hnone : bearerPayload env { w with clock := q.1 } q.2 = none := by
    simpa [Authorized] using hnot
  rw [run_guarded_of_unverified hnone] at hreply
  cases hreply

/-- No device is enrolled after it. -/
theorem Disables.row (h : Disables env w q i) (hu : (served env w q).users.get? i = some u) :
    u.biometricEnabled = false := by
  have husers := serve_users env q.1 q.2 w
  cases hrow : w.users.get? i with
  | none =>
    have hnone : addressed { w with clock := q.1 } q.2 = none := by
      simp [addressed, h.header, hrow]
    simp only [finalRow, h.route, guardedRow, hnone, Option.bind_none, ite_self,
      Option.elim_none] at husers
    rw [served, husers, hrow] at hu
    cases hu
  | some u₀ =>
    obtain rfl := Table.key_of_get? hrow
    have haddr : Addressed { w with clock := q.1 } q.2 u₀ := ⟨h.header, hrow⟩
    simp only [finalRow, h.route, guardedRow_of_authorized h.authorized haddr,
      Option.elim_some] at husers
    have hget : (served env w q).users.get? u₀.id = some (biometricDisabled u₀) := by
      rw [served, husers]
      exact Table.get?_put_self w.users (biometricDisabled u₀)
    rw [Option.some.inj (hu.symm.trans hget)]
    rfl

/-- The device of the row is the text its user enrolled last. -/
def HoldsLastEnabled (env : Env N) (w : World) (rs : List (Timed N)) (u : User) : Prop :=
  u.biometricEnabled = true →
    ∃ s, s ≠ "" ∧ u.deviceBiometricId = some s ∧ LastEnabled env w rs u.id s

/-- A request that enables and disables no device of the user keeps the columns. -/
theorem device_kept (h : KeepsDevice env u.id w q) (hu : (served env w q).users.get? u.id = some u) :
    ∃ u₀, w.users.get? u.id = some u₀ ∧ (u.biometricEnabled = true →
      u₀.biometricEnabled = true ∧ u.deviceBiometricId = u₀.deviceBiometricId) := by
  rcases get?_of_serve env w q u.id with hsame | ⟨u₀, u', hchange, hu₀, hu'⟩
  · exact ⟨u, hsame ▸ hu, fun hb => ⟨hb, rfl⟩⟩
  · obtain rfl : u' = u := Option.some.inj (hu'.symm.trans hu)
    refine ⟨u₀, hu₀, fun hb => ?_⟩
    cases hchange with
    | biometricEnabled hr ha haddr hm =>
      obtain ⟨hroute, hheader, hsuccess, -⟩ := enrolsDevice_of_change hr ha haddr hm
      exact absurd ⟨hr, hheader, hsuccess⟩ (h.1 _)
    | biometricDisabled => cases hb
    | _ => exact ⟨hb, rfl⟩

theorem holdsLastEnabled_step
    (h : ∀ u, (serveAll env w rs).users.get? i = some u → HoldsLastEnabled env w rs u)
    (hq : SuppliesText env i (serveAll env w rs) q) :
    ∀ u, (serveAll env w (rs ++ [q])).users.get? i = some u →
      HoldsLastEnabled env w (rs ++ [q]) u := by
  intro u hu hb
  rw [serveAll_append] at hu
  obtain rfl : u.id = i := Table.key_of_get? hu
  by_cases henables : ∃ device, Enables env (serveAll env w rs) q u.id device
  · obtain ⟨device, henables⟩ := henables
    obtain ⟨s, hs, rfl⟩ := hq device henables
    exact ⟨s, hs, henables.row hu, since_last henables⟩
  · have hnot : ∀ device, ¬ Enables env (serveAll env w rs) q u.id device :=
      fun device hd => henables ⟨device, hd⟩
    by_cases hdisables : Disables env (serveAll env w rs) q u.id
    · have hoff := hdisables.row hu
      rw [hb] at hoff
      cases hoff
    · obtain ⟨u₀, hu₀, hkept⟩ := device_kept ⟨hnot, hdisables⟩ hu
      obtain ⟨hb₀, hsame⟩ := hkept hb
      obtain ⟨s, hs, hdevice, hsince⟩ := h u₀ hu₀ hb₀
      rw [Table.key_of_get? hu₀] at hsince
      exact ⟨s, hs, hsame.trans hdevice, hsince.append_singleton ⟨hnot, hdisables⟩⟩

theorem holdsLastEnabled_run (env : Env N) (hw : AllRows Created w) (i : UserId)
    (hrs : Always (served env) (SuppliesText env i) w rs) :
    ∀ u, (serveAll env w rs).users.get? i = some u → HoldsLastEnabled env w rs u := by
  have hnil : ∀ u, (serveAll env w []).users.get? i = some u → HoldsLastEnabled env w [] u := by
    intro u hu hb
    obtain ⟨i, email, passwordHash, rfl⟩ := hw u (Table.mem_rows_of_get? hu)
    cases hb
  exact hrs.induction hnil fun _ _ h hq => holdsLastEnabled_step h hq

omit [JsNumber N] in
theorem eq_text_of_strictEq {s : String}
    (h : Json.strictEq (some (columnValue (some s))) device = true) : device = some (.str s) := by
  rcases device with _ | (_ | _ | _ | s' | _ | _) <;> simp [Json.strictEq, columnValue] at h
  rw [h]

/-- In every run from created rows in which each successful `enable-biometric` of the
user supplies a text, a device login gets tokens only with the text that the last one
supplied, and only as long as no `disable-biometric` has succeeded since. -/
theorem device_login_enrolled (env : Env N) (w : World) (hw : AllRows Created w)
    (rs : List (Timed N)) (i : UserId) (hrs : Always (served env) (SuppliesText env i) w rs)
    (q : Timed N) (tempToken device : JsonField N)
    (hr : q.2.route = .verifyBiometric tempToken device) (tokens : TokenPair)
    (hreply : (serve env q.1 q.2 (serveAll env w rs)).1 = .ok (.verified tokens))
    (ht : TokensFor i tokens) :
    ∃ s, s ≠ "" ∧ device = some (.str s) ∧ LastEnabled env w rs i s := by
  have hp : presented q.2.route = some tempToken := by rw [hr]; rfl
  obtain ⟨u, hfor, hrow, hchecked⟩ := checked_of_tokens env hp hreply rfl
  have hid : u.id = i := hfor.1.symm.trans ht.1
  have hfactor := hchecked.factor
  rw [hr] at hfactor
  simp only [factorResult, Option.some.injEq, Bool.and_eq_true] at hfactor
  obtain ⟨s, hne, hdevice, hlast⟩ := holdsLastEnabled_run env hw i hrs u (hid ▸ hrow) hfactor.1
  rw [hdevice] at hfactor
  exact ⟨s, hne, eq_text_of_strictEq hfactor.2, hid ▸ hlast⟩

/-- Ana enrols a device with this id and signs in. -/
def enrols (device : JsonField ℕ) : List (Timed ℕ) :=
  enrolment ++ [(3000, anaRequest (.enableBiometric device)), signIn 4000]

def deviceLogin (device : JsonField ℕ) : Timed ℕ :=
  (5000, anaRequest (.verifyBiometric (some (.str "12")) device))

/-- The device login presents `null`, which is what the enrolment supplied. -/
theorem null_device_passes :
    AllRows Created newcomer ∧
    (∃ tokens, (serve anaEnv 5000 (deviceLogin (some .null)).2
        (serveAll anaEnv newcomer (enrols (some .null)))).1 = .ok (.verified tokens) ∧
      TokensFor 1 tokens) ∧
    ¬ ∃ s, s ≠ "" ∧ (some .null : JsonField ℕ) = some (.str s) ∧
      LastEnabled anaEnv newcomer (enrols (some .null)) 1 s := by
  refine ⟨newcomer_created, ⟨_, rfl, rfl, rfl⟩, ?_⟩
  rintro ⟨s, -, hs, -⟩
  cases hs

theorem device_login_enrolled_tel :
    ∃ s, s ≠ "" ∧ (some (.str "tel") : JsonField ℕ) = some (.str s) ∧
      LastEnabled anaEnv newcomer (enrols (some (.str "tel"))) 1 s := by
  have hother : ∀ {w : World} {q : Timed ℕ}, (∀ d, q.2.route ≠ .enableBiometric d) →
      SuppliesText anaEnv 1 w q := by
    intro w q hroute device h
    exact absurd h.route (hroute device)
  have hsupplies : Always (served anaEnv) (SuppliesText anaEnv 1) newcomer
      (enrols (some (.str "tel"))) := by
    refine always_cons.mpr ⟨hother (by rintro _ ⟨⟩), always_cons.mpr ⟨hother (by rintro _ ⟨⟩),
      always_cons.mpr ⟨?_, always_cons.mpr ⟨hother (by rintro _ ⟨⟩), always_nil⟩⟩⟩⟩
    intro device h
    have hroute : Route.enableBiometric (some (.str "tel")) = .enableBiometric device := h.route
    cases hroute
    exact ⟨"tel", by decide, rfl⟩
  exact device_login_enrolled anaEnv newcomer newcomer_created _ 1 hsupplies
    (deviceLogin (some (.str "tel"))) _ _ rfl _ rfl ⟨rfl, rfl⟩

end VerdeAuth.DeviceLogins
