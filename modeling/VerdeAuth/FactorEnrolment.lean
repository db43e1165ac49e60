import VerdeAuth.EnrolmentEvents
import VerdeAuth.SecondFactorGate
import VerdeAuth.UserRowConsistency

/-!
# Which enrolment a factor comes from

A run relates the secret of a row to the last `verify-setup` that confirmed one,
as long as no `setup` replaces a live secret, and every factor to an enrolment
since MFA was last turned off, as long as no device is enrolled at that point.
-/

namespace VerdeAuth.FactorEnrolment

open JsonTexts KeyedTables IamTables IamOperations ResumptionPrograms UsersService TokenServices
open MfaServices AuthService MfaController IamEndpoints IamRules IamAssumptions UserRowChanges
open RequestEndings RequestRuns UserRowConsistency RunHistories EnrolmentEvents SecondFactorGate

variable {N : Type} [JsNumber N] [DecidableEq N] {env : Env N} {w : World} {rs : List (Timed N)}
  {q : Timed N} {i : UserId} {u u' : User}

/-- A `setup` finds MFA of the user it names disabled. -/
def SetsUpDisabled (w : World) (q : Timed N) : Prop :=
  q.2.route = .setup → ∀ u, Addressed w q.2 u → u.mfaEnabled = false

/-- Neither a successful `verify-setup` of the user nor the end of its MFA. -/
def Undisturbed (env : Env N) (i : UserId) (w : World) (q : Timed N) : Prop :=
  (∀ secret, ¬ Confirms env w q i secret) ∧ ¬ TurnsOff env w q i

/-- The row holds the secret its user's last successful `verify-setup` checked,
and MFA has not been turned off since. -/
def HoldsConfirmed (env : Env N) (w : World) (rs : List (Timed N)) (u : User) : Prop :=
  ∃ secret, u.mfaSecret.bind env.decrypt = some secret ∧
    Since (served env) (Undisturbed env u.id) (fun w q => Confirms env w q u.id secret) w rs

/-- What leaves a live row changed without confirming a secret keeps its secret. -/
theorem live_of_change (h : RowChange env { w with clock := q.1 } q.2 u u')
    (hq : SetsUpDisabled w q) (hc : ∀ secret, ¬ Confirms env w q u.id secret)
    (hm : u'.mfaEnabled = true) : u.mfaEnabled = true ∧ u'.mfaSecret = u.mfaSecret := by
  cases h with
  | secretSet hr hu =>
    have hoff : u.mfaEnabled = false := hq hr u ⟨hu.header, hu.row⟩
    have hlive : u.mfaEnabled = true := hm
    rw [hoff] at hlive
    cases hlive
  | mfaEnabled hr ha hu hf =>
    obtain ⟨secret, hconfirms⟩ := confirms_of_change hr ha hu hf
    exact absurd hconfirms (hc secret)
  | mfaDisabled => cases hm
  | reset => cases hm
  | _ => exact ⟨hm, rfl⟩

theorem holdsConfirmed_step
    (h : ∀ u ∈ (serveAll env w rs).users.rows, u.mfaEnabled = true → HoldsConfirmed env w rs u)
    (hq : SetsUpDisabled (serveAll env w rs) q) :
    ∀ u ∈ (serveAll env w (rs ++ [q])).users.rows, u.mfaEnabled = true →
      HoldsConfirmed env w (rs ++ [q]) u := by
  intro u' hu' hm
  rw [serveAll_append] at hu'
  by_cases hc : ∃ secret, Confirms env (serveAll env w rs) q u'.id secret
  · obtain ⟨secret, hc⟩ := hc
    obtain ⟨u, hu, hsecret, hput⟩ := hc.put
    have hmem : u' ∈ ((serveAll env w rs).users.put
        (enabledRow (N := N) env { serveAll env w rs with clock := q.1 } u)).rows := hput ▸ hu'
    rcases Table.mem_put hmem with rfl | ⟨-, hne⟩
    · exact ⟨secret, hsecret, since_last hc⟩
    · exact absurd (Table.key_of_get? hu).symm hne
  · have hc : ∀ secret, ¬ Confirms env (serveAll env w rs) q u'.id secret :=
      fun secret hs => hc ⟨secret, hs⟩
    have hoff : ¬ TurnsOff env (serveAll env w rs) q u'.id := by
      intro hoff
      obtain ⟨u, v, -, hput, hid, hdisabled, -⟩ := hoff.put
      have hmem : u' ∈ ((serveAll env w rs).users.put v).rows := hput ▸ hu'
      rcases Table.mem_put hmem with rfl | ⟨-, hne⟩
      · rw [hdisabled] at hm
        cases hm
      · exact hne hid.symm
    have hlast : ∀ u ∈ (serveAll env w rs).users.rows, u.id = u'.id → u.mfaEnabled = true →
        u'.mfaSecret = u.mfaSecret → HoldsConfirmed env w (rs ++ [q]) u' := by
      intro u hu hid hlive hsame
      obtain ⟨secret, hsecret, hsince⟩ := h u hu hlive
      rw [← hsame] at hsecret
      rw [hid] at hsince
      exact ⟨secret, hsecret, hsince.append_singleton ⟨hc, hoff⟩⟩
    rcases row_of_serve hu' with hu | ⟨u, hchange, -⟩
    · exact hlast u' hu rfl hm rfl
    · have hid : u'.id = u.id := hchange.id_eq
      obtain ⟨hlive, hsame⟩ := live_of_change hchange hq (hid ▸ hc) hm
      exact hlast u (Table.mem_rows_of_get? hchange.row) hid.symm hlive hsame

/-- In every run from created rows in which no `setup` names a user with MFA, the
secret of every user with MFA is the last one confirmed. -/
theorem live_secret_confirmed (env : Env N) (w : World) (hw : AllRows Created w)
    (rs : List (Timed N)) (hrs : Always (served env) SetsUpDisabled w rs) :
    ∀ u ∈ (serveAll env w rs).users.rows, u.mfaEnabled = true → HoldsConfirmed env w rs u := by
  have hnil : ∀ u ∈ (serveAll env w []).users.rows, u.mfaEnabled = true →
      HoldsConfirmed env w [] u := by
    intro u hu hm
    obtain ⟨i, email, passwordHash, rfl⟩ := hw u hu
    cases hm
  exact hrs.induction hnil fun _ _ h hq => holdsConfirmed_step h hq

/-- Ana, newly created. -/
def newcomer : World := ((create anaEnv "ana@verde.ec" "clave").run (exec anaEnv) .empty).2

theorem newcomer_created : AllRows Created newcomer := by
  apply allRows_create anaEnv "ana@verde.ec" "clave"
  intro u hu
  cases hu

/-- She sets MFA up and confirms the secret. -/
def enrolment : List (Timed ℕ) :=
  [(1000, anaRequest .setup), (2000, anaRequest (.verifySetup (some (.str "000002"))))]

theorem live_secret_confirmed_newcomer :
    ∃ u ∈ (serveAll anaEnv newcomer enrolment).users.rows, u.mfaEnabled = true ∧
      HoldsConfirmed anaEnv newcomer enrolment u := by
  refine ⟨_, List.mem_singleton.mpr rfl, rfl, ?_⟩
  apply live_secret_confirmed anaEnv newcomer newcomer_created enrolment
  · refine always_cons.mpr ⟨?_, always_cons.mpr ⟨?_, always_nil⟩⟩
    · intro _ u hu
      obtain ⟨i, email, passwordHash, rfl⟩ := newcomer_created u (Table.mem_rows_of_get? hu.row)
      rfl
    · intro hr
      cases hr
  · exact List.mem_singleton.mpr rfl
  · rfl

/-- Setting MFA up again replaces the live secret by one never confirmed. -/
theorem live_secret_replaced :
    let rs := enrolment ++ [(3000, anaRequest .setup)]
    AllRows Created newcomer ∧ ∃ u ∈ (serveAll anaEnv newcomer rs).users.rows,
      u.mfaEnabled = true ∧ ¬ HoldsConfirmed anaEnv newcomer rs u := by
  refine ⟨newcomer_created, _, List.mem_singleton.mpr rfl, rfl, ?_⟩
  rintro ⟨secret, hsecret, hsince⟩
  rcases since_cons.mp hsince with ⟨hfirst, -⟩ | hsince
  · obtain ⟨code, hr⟩ := hfirst.route
    cases hr
  · rcases since_cons.mp hsince with ⟨hconfirms, -⟩ | hsince
    · obtain ⟨u, hu, hchecked⟩ := hconfirms.checked
      obtain rfl := Option.some.inj hu
      rw [← hchecked] at hsecret
      revert hsecret
      decide
    · rcases since_cons.mp hsince with ⟨hlast, -⟩ | hsince
      · obtain ⟨code, hr⟩ := hlast.route
        cases hr
      · exact since_nil hsince

/-! Factors enrolled since MFA was turned off. -/

def StaysOn (env : Env N) (i : UserId) (w : World) (q : Timed N) : Prop := ¬ TurnsOff env w q i

/-- An accepted backup code, and the stored codes as they were but for that one. -/
structure SpendsCode (env : Env N) (w : World) (q : Timed N) (u u' : User) : Prop where
  checked : FactorChecked env { w with clock := q.1 } q.2.route true u
  spent : ∃ codes iv, spentCodes env q.1 u q.2.route = some codes ∧
    u'.mfaBackupCodes = some (env.encrypt iv codes)

/-- MFA is not turned off, and the stored backup codes stay or one is spent. -/
def KeepsCodes (env : Env N) (i : UserId) (w : World) (q : Timed N) : Prop :=
  StaysOn env i w q ∧
    ∀ u u', w.users.get? i = some u → (served env w q).users.get? i = some u' →
      u'.mfaBackupCodes = u.mfaBackupCodes ∨ SpendsCode env w q u u'

/-- Each factor in the row was enrolled since MFA of its user was last turned off. -/
structure EnrolledSinceOff (env : Env N) (w : World) (rs : List (Timed N)) (u : User) : Prop where
  secret : ∀ stored, u.mfaSecret = some stored → Since (served env) (StaysOn env u.id)
    (fun w q => StoresSecret env w q u.id stored) w rs
  codes : u.mfaBackupCodes ≠ none → Since (served env) (KeepsCodes env u.id)
    (fun w q => ∃ secret, Confirms env w q u.id secret) w rs
  device : u.biometricEnabled = true → Since (served env) (StaysOn env u.id)
    (fun w q => EnrolsDevice env w q u.id u.deviceBiometricId) w rs

theorem secret_of_change {stored : String} (h : RowChange env { w with clock := q.1 } q.2 u u')
    (hput : (served env w q).users = w.users.put u') (hs : u'.mfaSecret = some stored) :
    u.mfaSecret = some stored ∨ StoresSecret env w q u.id stored := by
  cases h with
  | secretSet hr hu => exact Or.inr (storesSecret_of_change hr hu rfl hput hs)
  | mfaDisabled => cases hs
  | reset => cases hs
  | _ => exact Or.inl hs

theorem backupResult_none {t : Time} {stored : Option String} {code : JsonField N}
    (h : stored = none) :
    (backupResult env t stored code : Option (Option (List (Json N)))) = none := by
  subst h
  unfold backupResult
  split
  · next hstored => cases hstored
  · rfl

theorem codes_of_factorWritten {route : Route N}
    (h : (factorWritten env w route u).mfaBackupCodes ≠ none) : u.mfaBackupCodes ≠ none := by
  intro hnone
  have hspent : spentCodes env w.clock u route = none := by
    cases route with
    | verifyBackup token code => simp [spentCodes, backupResult_none hnone]
    | _ => rfl
  simp [factorWritten, hspent, hnone] at h

theorem spendsCode_of_factorWritten (hf : FactorChecked env { w with clock := q.1 } q.2.route true u)
    (h : u'.mfaBackupCodes =
      (factorWritten env { w with clock := q.1 } q.2.route u).mfaBackupCodes) :
    u'.mfaBackupCodes = u.mfaBackupCodes ∨ SpendsCode env w q u u' := by
  cases hspent : spentCodes env q.1 u q.2.route with
  | none =>
    left
    simpa [factorWritten, hspent] using h
  | some codes =>
    right
    exact ⟨hf, codes, w.drawn, hspent, by simpa [factorWritten, hspent] using h⟩

theorem codes_of_change (h : RowChange env { w with clock := q.1 } q.2 u u')
    (hc : u'.mfaBackupCodes ≠ none) :
    (∃ secret, Confirms env w q u.id secret) ∨
      (u.mfaBackupCodes ≠ none ∧
        (u'.mfaBackupCodes = u.mfaBackupCodes ∨ SpendsCode env w q u u')) := by
  cases h with
  | mfaEnabled hr ha hu hf => exact Or.inl (confirms_of_change hr ha hu hf)
  | mfaDisabled => exact absurd rfl hc
  | reset => exact absurd rfl hc
  | codesSpent hf =>
    exact Or.inr ⟨codes_of_factorWritten hc, spendsCode_of_factorWritten hf rfl⟩
  | factorCompleted hf =>
    exact Or.inr ⟨codes_of_factorWritten hc, spendsCode_of_factorWritten hf rfl⟩
  | _ => exact Or.inr ⟨hc, Or.inl rfl⟩

theorem device_of_change (h : RowChange env { w with clock := q.1 } q.2 u u')
    (hb : u'.biometricEnabled = true) :
    EnrolsDevice env w q u.id u'.deviceBiometricId ∨
      (u.biometricEnabled = true ∧ u'.deviceBiometricId = u.deviceBiometricId) := by
  cases h with
  | biometricEnabled hr ha hu hm => exact Or.inl (enrolsDevice_of_change hr ha hu hm)
  | biometricDisabled => cases hb
  | _ => exact Or.inr ⟨hb, rfl⟩

/-- What a request does about the factors of a row. -/
structure FactorStep (env : Env N) (w : World) (q : Timed N) (u u' : User) : Prop where
  row : w.users.get? u'.id = some u
  secret : ∀ stored, u'.mfaSecret = some stored →
    u.mfaSecret = some stored ∨ StoresSecret env w q u'.id stored
  codes : u'.mfaBackupCodes ≠ none → (∃ secret, Confirms env w q u'.id secret) ∨
    (u.mfaBackupCodes ≠ none ∧
      (u'.mfaBackupCodes = u.mfaBackupCodes ∨ SpendsCode env w q u u'))
  device : u'.biometricEnabled = true → EnrolsDevice env w q u'.id u'.deviceBiometricId ∨
    (u.biometricEnabled = true ∧ u'.deviceBiometricId = u.deviceBiometricId)

theorem factorStep (hu' : u' ∈ (served env w q).users.rows) : ∃ u, FactorStep env w q u u' := by
  rcases row_of_serve hu' with hu | ⟨u, hchange, hput⟩
  · refine ⟨u', Table.get?_of_mem hu, ?_, ?_, ?_⟩
    · intro stored hs
      exact Or.inl hs
    · intro hc
      exact Or.inr ⟨hc, Or.inl rfl⟩
    · intro hb
      exact Or.inr ⟨hb, rfl⟩
  · have hid : u'.id = u.id := hchange.id_eq
    refine ⟨u, hid ▸ hchange.row, ?_, ?_, ?_⟩
    · intro stored hs
      rw [hid]
      exact secret_of_change hchange hput hs
    · intro hc
      rw [hid]
      exact codes_of_change hchange hc
    · intro hb
      rw [hid]
      exact device_of_change hchange hb

/-- MFA of the user is only turned off when no device is enrolled. -/
def TurnsOffWithoutDevice (env : Env N) (i : UserId) (w : World) (q : Timed N) : Prop :=
  TurnsOff env w q i → ∀ u, w.users.get? i = some u → u.biometricEnabled = false

theorem enrolledSinceOff_off {w' : World} {v : User} (hq : TurnsOffWithoutDevice env i w' q)
    (hoff : TurnsOff env w' q i) (hv : (served env w' q).users.get? i = some v) :
    EnrolledSinceOff env w (rs ++ [q]) v := by
  obtain ⟨u, v', hu, hput, hid, -, hsecret, hcodes, hbiometric⟩ := hoff.put
  have hv' : (served env w' q).users.get? i = some v' := by
    rw [hput, ← hid]
    exact Table.get?_put_self _ v'
  obtain rfl : v = v' := Option.some.inj (hv.symm.trans hv')
  have hdevice : v.biometricEnabled = false := hbiometric.trans (hq hoff u hu)
  constructor
  · intro stored hstored
    rw [hsecret] at hstored
    cases hstored
  · intro hne
    exact absurd hcodes hne
  · intro htrue
    rw [hdevice] at htrue
    cases htrue

theorem enrolledSinceOff_step
    (h : ∀ u, (serveAll env w rs).users.get? i = some u → EnrolledSinceOff env w rs u)
    (hq : TurnsOffWithoutDevice env i (serveAll env w rs) q) :
    ∀ u, (serveAll env w (rs ++ [q])).users.get? i = some u →
      EnrolledSinceOff env w (rs ++ [q]) u := by
  intro u' hu'
  rw [serveAll_append] at hu'
  obtain rfl : u'.id = i := Table.key_of_get? hu'
  by_cases hoff : TurnsOff env (serveAll env w rs) q u'.id
  · exact enrolledSinceOff_off hq hoff hu'
  · obtain ⟨u, hstep⟩ := factorStep (Table.mem_rows_of_get? hu')
    have hrow := h u hstep.row
    rw [← Table.key_of_get? hstep.row] at hoff
    have hid : u.id = u'.id := Table.key_of_get? hstep.row
    constructor
    · intro stored hstored
      rw [← hid]
      rcases hstep.secret stored hstored with hsame | hstores
      · exact (hrow.secret stored hsame).append_singleton hoff
      · exact since_last (hid ▸ hstores)
    · intro hne
      rw [← hid]
      rcases hstep.codes hne with hconfirms | ⟨hcodes, hkept⟩
      · exact since_last (hid ▸ hconfirms)
      · apply (hrow.codes hcodes).append_singleton
        refine ⟨hoff, fun v v' hv hv' => ?_⟩
        rw [hid] at hv hv'
        have hvu : v = u := Option.some.inj (hv.symm.trans hstep.row)
        have hvu' : v' = u' := Option.some.inj (hv'.symm.trans hu')
        rw [hvu, hvu']
        exact hkept
    · intro htrue
      rw [← hid]
      rcases hstep.device htrue with henrols | ⟨hb, hsame⟩
      · exact since_last (hid ▸ henrols)
      · rw [hsame]
        exact (hrow.device hb).append_singleton hoff

theorem enrolledSinceOff_run (env : Env N) (hw : AllRows Created w) (i : UserId)
    (hrs : Always (served env) (TurnsOffWithoutDevice env i) w rs) :
    ∀ u, (serveAll env w rs).users.get? i = some u → EnrolledSinceOff env w rs u := by
  have hnil : ∀ u, (serveAll env w []).users.get? i = some u → EnrolledSinceOff env w [] u := by
    intro u hu
    obtain ⟨i, email, passwordHash, rfl⟩ := hw u (Table.mem_rows_of_get? hu)
    constructor
    · intro stored hs
      cases hs
    · intro hne
      exact absurd rfl hne
    · intro hb
      cases hb
  exact hrs.induction hnil fun _ _ h hq => enrolledSinceOff_step h hq

/-- The factor a verification passes by was enrolled since MFA of the user was last
turned off. -/
def PassesByEnrolled (env : Env N) (w : World) (rs : List (Timed N)) (u : User) : Route N → Prop
  | .verify _ _ => ∃ stored, u.mfaSecret = some stored ∧ Since (served env) (StaysOn env u.id)
      (fun w q => StoresSecret env w q u.id stored) w rs
  | .verifyBackup _ _ => Since (served env) (KeepsCodes env u.id)
      (fun w q => ∃ secret, Confirms env w q u.id secret) w rs
  | .verifyBiometric _ _ => Since (served env) (StaysOn env u.id)
      (fun w q => EnrolsDevice env w q u.id u.deviceBiometricId) w rs
  | _ => False

theorem passesByEnrolled (h : EnrolledSinceOff env w rs u) {w' : World}
    (hf : FactorChecked env w' q.2.route true u) : PassesByEnrolled env w rs u q.2.route := by
  have hfactor := hf.factor
  obtain ⟨token, hpresented, -⟩ := hf.selected
  cases hr : q.2.route with
  | verify token code =>
    rw [hr] at hfactor
    cases hs : u.mfaSecret with
    | none =>
      simp [factorResult, totpResult, hs] at hfactor
    | some stored => exact ⟨stored, hs, h.secret stored hs⟩
  | verifyBackup token code =>
    rw [hr] at hfactor
    apply h.codes
    intro hnone
    have hresult : (backupResult env w'.clock u.mfaBackupCodes code :
        Option (Option (List (Json N)))) = none := backupResult_none hnone
    simp [factorResult, hresult] at hfactor
  | verifyBiometric token device =>
    rw [hr] at hfactor
    apply h.device
    simp [factorResult] at hfactor
    exact hfactor.1
  | _ =>
    rw [hr] at hpresented
    cases hpresented

/-- In every run from created rows in which MFA of the user is never turned off
while a device is enrolled, a verification gives the user tokens only for a factor
enrolled since. -/
theorem passed_factor_enrolled (env : Env N) (w : World) (hw : AllRows Created w)
    (rs : List (Timed N)) (i : UserId)
    (hrs : Always (served env) (TurnsOffWithoutDevice env i) w rs) (q : Timed N)
    (tempToken : JsonField N) (hp : presented q.2.route = some tempToken) (tokens : TokenPair)
    (hreply : (serve env q.1 q.2 (serveAll env w rs)).1 = .ok (.verified tokens))
    (ht : TokensFor i tokens) :
    ∃ u, u.id = i ∧ FactorChecked env { serveAll env w rs with clock := q.1 } q.2.route true u ∧
      PassesByEnrolled env w rs u q.2.route := by
  obtain ⟨u, hfor, hrow, hchecked⟩ := checked_of_tokens env hp hreply rfl
  have hid : u.id = i := hfor.1.symm.trans ht.1
  have henrolled := enrolledSinceOff_run env hw i hrs u (hid ▸ hrow)
  exact ⟨u, hid, hchecked, passesByEnrolled henrolled hchecked⟩

/-- She signs in with her password. -/
def signIn (t : Time) : Timed ℕ :=
  (t, anaRequest (.login ⟨some (.str "ana@verde.ec"), some (.str "clave")⟩))

/-- She turns MFA off and sets it up again. -/
def reenrolment : List (Timed ℕ) :=
  [(4000, anaRequest (.disable (some (.str "clave")) (some (.str "000002")))),
    (5000, anaRequest .setup), (6000, anaRequest (.verifySetup (some (.str "000013"))))]

theorem passed_factor_enrolled_newcomer :
    let rs := enrolment ++ reenrolment ++ [signIn 7000]
    let q : Timed ℕ := (8000, anaRequest (.verify (some (.str "23")) (some (.str "000013"))))
    ∃ u, u.id = 1 ∧ FactorChecked anaEnv { serveAll anaEnv newcomer rs with clock := q.1 }
      q.2.route true u ∧ PassesByEnrolled anaEnv newcomer rs u q.2.route := by
  intro rs q
  have hstays : Always (served anaEnv) (TurnsOffWithoutDevice anaEnv 1) newcomer rs := by
    have hon : ∀ {w : World} {q : Timed ℕ}, (∀ p c, q.2.route ≠ .disable p c) →
        (∀ e, q.2.route ≠ .resetUser e) → TurnsOffWithoutDevice anaEnv 1 w q := by
      intro w q hdisable hreset hoff
      cases hoff with
      | disabled hr => exact absurd hr (hdisable _ _)
      | reset hr => exact absurd hr (hreset _)
    refine always_cons.mpr ⟨hon (by rintro _ _ ⟨⟩) (by rintro _ ⟨⟩), ?_⟩
    refine always_cons.mpr ⟨hon (by rintro _ _ ⟨⟩) (by rintro _ ⟨⟩), ?_⟩
    refine always_cons.mpr ⟨fun _ u hu => ?_, ?_⟩
    · rw [← Option.some.inj hu]
      rfl
    refine always_cons.mpr ⟨hon (by rintro _ _ ⟨⟩) (by rintro _ ⟨⟩), ?_⟩
    refine always_cons.mpr ⟨hon (by rintro _ _ ⟨⟩) (by rintro _ ⟨⟩), ?_⟩
    exact always_cons.mpr ⟨hon (by rintro _ _ ⟨⟩) (by rintro _ ⟨⟩), always_nil⟩
  exact passed_factor_enrolled anaEnv newcomer newcomer_created rs 1 hstays q _ rfl _ rfl ⟨rfl, rfl⟩

/-- The device enrolled before MFA was turned off still passes once it is set up again. -/
theorem old_device_passes :
    let rs := enrolment ++ [
      (3000, anaRequest (.enableBiometric (some (.str "tel")))),
      (4000, anaRequest (.disable (some (.str "clave")) (some (.str "000002")))),
      (5000, anaRequest .setup),
      (6000, anaRequest (.verifySetup (some (.str "000013")))),
      signIn 7000]
    let q : Timed ℕ :=
      (8000, anaRequest (.verifyBiometric (some (.str "23")) (some (.str "tel"))))
    AllRows Created newcomer ∧
      (∃ tokens, (serve anaEnv q.1 q.2 (serveAll anaEnv newcomer rs)).1 = .ok (.verified tokens) ∧
        TokensFor 1 tokens) ∧
      ∀ u, u.id = 1 → ¬ PassesByEnrolled anaEnv newcomer rs u q.2.route := by
  refine ⟨newcomer_created, ⟨_, rfl, rfl, rfl⟩, fun u hid hsince => ?_⟩
  have hskip : ∀ {w : World} {q : Timed ℕ} {rs : List (Timed ℕ)},
      Since (served anaEnv) (StaysOn anaEnv u.id)
        (fun w q => EnrolsDevice anaEnv w q u.id u.deviceBiometricId) w (q :: rs) →
      (∀ d, q.2.route ≠ .enableBiometric d) →
      Since (served anaEnv) (StaysOn anaEnv u.id)
        (fun w q => EnrolsDevice anaEnv w q u.id u.deviceBiometricId) (served anaEnv w q) rs := by
    intro w q rs hsince hroute
    rcases since_cons.mp hsince with ⟨h, -⟩ | hsince
    · obtain ⟨d, hr⟩ := h.route
      exact absurd hr (hroute d)
    · exact hsince
  have hsince := hskip (hskip hsince (by rintro _ ⟨⟩)) (by rintro _ ⟨⟩)
  rcases since_cons.mp hsince with ⟨-, hafter⟩ | hsince
  · -- the device was enrolled before MFA was turned off
    exact (always_cons.mp hafter).1 (.disabled rfl (hid ▸ rfl) rfl)
  · have hsince := hskip (hskip hsince (by rintro _ ⟨⟩)) (by rintro _ ⟨⟩)
    exact since_nil (hskip (hskip hsince (by rintro _ ⟨⟩)) (by rintro _ ⟨⟩))

end VerdeAuth.FactorEnrolment
