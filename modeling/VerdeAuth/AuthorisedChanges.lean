import VerdeAuth.RequestContracts
import VerdeAuth.IamAssumptions

/-!
# What it takes to change a factor

The settings of a user's second factor only change through a request that has shown what the
setting asks for: its own responses in the log of the run say so. Rows that are saved back
late can undo such a change, but they bring nothing that was not there or authorised before.
-/

namespace VerdeAuth.AuthorisedChanges

open JsonTexts KeyedTables IamTables IamOperations ResumptionPrograms InterleavedPools UsersService
open TokenServices MfaServices AuthService IamEndpoints IamAssumptions UserRowChanges
open RequestFootprints ResponseContracts RequestContracts

variable {N : Type} {env : Env N} {w w' : World}

inductive Setting where
  | enabled
  | secret
  | backupCodes
  | biometrics

/-- The setting is the same in both rows. -/
def Setting.Same : Setting → User → User → Prop
  | .enabled, u, v => u.mfaEnabled = v.mfaEnabled
  | .secret, u, v => u.mfaSecret = v.mfaSecret
  | .backupCodes, u, v => u.mfaBackupCodes = v.mfaBackupCodes
  | .biometrics, u, v => u.biometricEnabled = v.biometricEnabled ∧
      u.deviceBiometricId = v.deviceBiometricId ∧ u.preferredMfaMethod = v.preferredMfaMethod

/-- The update has no column of the setting. -/
def Setting.Spares : Setting → UserPatch → Prop
  | .enabled, p => p.mfaEnabled = none
  | .secret, p => p.mfaSecret = none
  | .backupCodes, p => p.mfaBackupCodes = none
  | .biometrics, p => p.biometricEnabled = none ∧ p.deviceBiometricId = none ∧
      p.preferredMfaMethod = none

theorem Setting.same_apply {x : Setting} {p : UserPatch} (h : x.Spares p) (u : User) :
    x.Same u (p.apply u) := by
  cases x with
  | enabled =>
    have hp : p.mfaEnabled = none := h
    simp [Setting.Same, UserPatch.apply, hp]
  | secret =>
    have hp : p.mfaSecret = none := h
    simp [Setting.Same, UserPatch.apply, hp]
  | backupCodes =>
    have hp : p.mfaBackupCodes = none := h
    simp [Setting.Same, UserPatch.apply, hp]
  | biometrics =>
    obtain ⟨he, hd, hm⟩ := h
    simp [Setting.Same, UserPatch.apply, he, hd, hm]

theorem Setting.Same.trans {x : Setting} {u v v' : User} (h : x.Same u v) (h' : x.Same v v') :
    x.Same u v' := by
  cases x with
  | biometrics => exact ⟨h.1.trans h'.1, h.2.1.trans h'.2.1, h.2.2.trans h'.2.2⟩
  | _ => exact Eq.trans h h'

theorem Setting.same_refl (x : Setting) (u : User) : x.Same u u := by
  cases x <;> simp [Setting.Same]

section Authority

variable [JsNumber N] [DecidableEq N]

/-- The responses authorise the request to change the setting of the user. -/
inductive Authorises (env : Env N) (A : Contract N) (r : Request N) (i : UserId) : Setting → Prop
  /-- A new secret takes no more than the header. -/
  | setup (hr : r.route = .setup) (hi : r.userId = .uuid i) : Authorises env A r i .secret
  /-- A bearer token and a code of the stored secret. -/
  | verifySetup {code} {u : User} {x : Setting} (hr : r.route = .verifySetup code)
      (hb : BearerSeen env A r) (hi : r.userId = .uuid i)
      (hu : A (.findUser (.id (some i))) (some u)) (hc : TotpSeen env A u.mfaSecret code true)
      (hx : x = .enabled ∨ x = .backupCodes) : Authorises env A r i x
  /-- The password besides. -/
  | disable {password code} {u : User} {s} {x : Setting} (hr : r.route = .disable password code)
      (hb : BearerSeen env A r) (hi : r.userId = .uuid i)
      (hu : A (.findUser (.id (some i))) (some u)) (hs : password = some (.str s))
      (hp : A (.bcryptCompare s u.passwordHash) true) (hc : TotpSeen env A u.mfaSecret code true)
      (hx : x ≠ .biometrics) : Authorises env A r i x
  /-- An unspent backup code, presented with a live temporary token. -/
  | backupCode {u t codes} (h : FactorSeen env A r.route true u) (hi : u.id = i)
      (hc : spentCodes env t u r.route = some codes) : Authorises env A r i .backupCodes
  /-- Any bearer token, and for a new device that MFA is on. -/
  | enableBiometric {device} {u : User} (hr : r.route = .enableBiometric device)
      (hb : BearerSeen env A r) (hi : r.userId = .uuid i)
      (hu : A (.findUser (.id (some i))) (some u)) (hm : u.mfaEnabled = true) :
      Authorises env A r i .biometrics
  | disableBiometric (hr : r.route = .disableBiometric) (hb : BearerSeen env A r)
      (hi : r.userId = .uuid i) : Authorises env A r i .biometrics
  /-- The administrator's endpoint asks for the email only. -/
  | reset {email} {u : User} {x : Setting} (hr : r.route = .resetUser email)
      (hu : A (.findUser (.email (criterion env email))) (some u)) (hi : u.id = i)
      (hx : x ≠ .biometrics) : Authorises env A r i x

/-- An update leaves a setting alone or is authorised to change it. -/
theorem authorises_of_asks {A : Contract N} {r : Request N} {i : UserId} {p : UserPatch}
    (ho : Asks env A r (.updateUser i p)) (x : Setting) :
    x.Spares p ∨ Authorises env A r i x := by
  have hbut : x = .biometrics ∨ x ≠ .biometrics := em _
  cases ho with
  | secret hr hi =>
    cases x with
    | secret => exact .inr (.setup hr hi)
    | biometrics => exact .inl ⟨rfl, rfl, rfl⟩
    | _ => exact .inl rfl
  | enabled hr hb hi hu hc =>
    cases x with
    | enabled => exact .inr (.verifySetup hr hb hi hu hc (.inl rfl))
    | backupCodes => exact .inr (.verifySetup hr hb hi hu hc (.inr rfl))
    | secret => exact .inl rfl
    | biometrics => exact .inl ⟨rfl, rfl, rfl⟩
  | disabled hr hb hi hu hs hp hc =>
    rcases hbut with rfl | hx
    · exact .inl ⟨rfl, rfl, rfl⟩
    · exact .inr (.disable hr hb hi hu hs hp hc hx)
  | biometricEnabled hr hb hi hu hm =>
    cases x with
    | biometrics => exact .inr (.enableBiometric hr hb hi hu hm)
    | _ => exact .inl rfl
  | biometricDisabled hr hb hi =>
    cases x with
    | biometrics => exact .inr (.disableBiometric hr hb hi)
    | _ => exact .inl rfl
  | codesSpent h ht hc hn =>
    cases x with
    | backupCodes => exact .inr (.backupCode h rfl hc)
    | biometrics => exact .inl ⟨rfl, rfl, rfl⟩
    | _ => exact .inl rfl
  | reset hr hu =>
    rcases hbut with rfl | hx
    · exact .inl ⟨rfl, rfl, rfl⟩
    · exact .inr (.reset hr hu rfl hx)
  | _ => exact .inl (by cases x <;> simp [Setting.Spares, unlockPatch])

end Authority

section Runs

variable {rs : List (Request N)} {log : List (Event (Res N) Time)} {k : ℕ}

/-- The responses that the log has for the request. -/
def Own (log : List (Event (Res N) Time)) (k : ℕ) : Contract N := fun o res => .op k o res ∈ log

variable [JsNumber N] [DecidableEq N]

/-- The setting is as at first, or a request was authorised to change it. -/
def Accounted (env : Env N) (w : World) (rs : List (Request N)) (log : List (Event (Res N) Time))
    (x : Setting) (u : User) : Prop :=
  (∃ u₀ ∈ w.users.rows, u₀.id = u.id ∧ x.Same u₀ u) ∨
    ∃ k r, rs[k]? = some r ∧ Authorises env (Own log k) r u.id x

theorem Accounted.same {x : Setting} {u v : User} (h : Accounted env w rs log x u)
    (hid : v.id = u.id) (hsame : x.Same u v) : Accounted env w rs log x v := by
  rw [Accounted, hid]
  exact h.imp (fun ⟨u₀, hu₀, hi, hx⟩ => ⟨u₀, hu₀, hi, hx.trans hsame⟩) id

def AllAccounted (env : Env N) (w : World) (rs : List (Request N))
    (log : List (Event (Res N) Time)) (w' : World) : Prop :=
  ∀ u ∈ w'.users.rows, ∀ x, Accounted env w rs log x u

/-- Rows are found accounted for. -/
def ShowsAccounted (env : Env N) (w : World) (rs : List (Request N))
    (log : List (Event (Res N) Time)) : Contract N
  | .findUser _, row => ∀ u, row = some u → ∀ x, Accounted env w rs log x u
  | _, _ => True

/-- And saved so. -/
def SavesAccounted (env : Env N) (w : World) (rs : List (Request N))
    (log : List (Event (Res N) Time)) : Op N → Prop
  | .insertUser _ _ => False
  | .saveUser v => ∀ x, Accounted env w rs log x v
  | _ => True

/-- Nothing of a setting is in what a failed or a successful attempt changes. -/
theorem savesAccounted_of_asks {r : Request N} {o : Op N}
    (ho : Asks env (ShowsAccounted env w rs log) r o) : SavesAccounted env w rs log o := by
  cases ho with
  | attemptFailed hr h =>
    exact fun x => (h.selected _ rfl x).same rfl (by cases x <;> simp [Setting.Same, attemptFailed])
  | attemptsReset hr h =>
    exact fun x => (h.selected _ rfl x).same rfl (by cases x <;> simp [Setting.Same, attemptsReset])
  | mfaAttemptFailed h hv =>
    exact fun x => (hv _ rfl x).same rfl (by cases x <;> simp [Setting.Same, mfaAttemptFailed])
  | _ => trivial

theorem allAccounted_exec {r : Request N} {o : Op N} (h : AllAccounted env w rs log w')
    (hr : rs[k]? = some r) (ho : Asks env (Own log k) r o) (hs : SavesAccounted env w rs log o) :
    AllAccounted env w rs log (exec env o w').2 := by
  cases o with
  | insertUser email passwordHash => exact hs.elim
  | saveUser v =>
    intro u hu
    rcases Table.mem_put hu with rfl | ⟨hu, -⟩
    · exact hs
    · exact h u hu
  | updateUser i p =>
    intro u hu x
    have hmem : u ∈ (w'.users.modify i p.apply p.apply_id).rows := hu
    rcases Table.mem_modify hmem with ⟨hu, -⟩ | ⟨v, hv, hid, rfl⟩
    · exact h u hu x
    · rcases authorises_of_asks ho x with hspares | hauthorised
      · exact (h v hv x).same (p.apply_id v) (x.same_apply hspares v)
      · refine .inr ⟨k, r, hr, ?_⟩
        rw [p.apply_id, hid]
        exact hauthorised
  | _ => exact h

/-- However requests interleave, a setting of a user's second factor differs from what it was
at first only if the responses of one of them authorised it to change that. -/
theorem changes_authorised (env : Env N) (w : World) (rs : List (Request N))
    (sched : List (Turn Time)) :
    let c := together env w rs sched
    ∀ u₀ ∈ w.users.rows, ∀ u ∈ c.state.users.rows, u₀.id = u.id → ∀ x : Setting, ¬ x.Same u₀ u →
      ∃ k r, rs[k]? = some r ∧ Authorises env (Own c.log k) r u.id x := by
  intro c
  let A : ℕ → Contract N := fun k o res => .op k o res ∈ c.log ∧ ShowsAccounted env w rs c.log o res
  let P : ℕ → Op N → Prop := fun k o => (∃ r, rs[k]? = some r ∧ Asks env (Own c.log k) r o) ∧
    SavesAccounted env w rs c.log o
  have hstep : ∀ k o w', AllAccounted env w rs c.log w' → P k o →
      .op k o (exec env o w').1 ∈ c.log →
        A k o (exec env o w').1 ∧ AllAccounted env w rs c.log (exec env o w').2 := by
    rintro k o w' hw' ⟨⟨r, hr, ho⟩, hs⟩ hmem
    refine ⟨⟨hmem, ?_⟩, allAccounted_exec hw' hr ho hs⟩
    cases o with
    | findUser c => exact fun u hu => hw' u (mem_of_findUser hu)
    | _ => trivial
  have hw : AllAccounted env w rs c.log w :=
    fun u hu x => .inl ⟨u, hu, rfl, x.same_refl u⟩
  have hrs : ∀ (k : ℕ) r, rs[k]? = some r → Under (A k) (P k) (fun _ => True) (handle env r) := by
    intro k r hr
    have hasks : Under (A k) (fun o => ∃ r, rs[k]? = some r ∧ Asks env (Own c.log k) r o)
        (fun _ => True) (handle env r) :=
      (serves_handle env (Own c.log k) r).mono (fun _ _ ha => ha.1) (fun _ ho => ⟨r, hr, ho⟩)
        fun _ _ => trivial
    have hsaves : Under (A k) (SavesAccounted env w rs c.log) (fun _ => True) (handle env r) :=
      (serves_handle env (ShowsAccounted env w rs c.log) r).mono (fun _ _ ha => ha.2)
        (fun _ ho => savesAccounted_of_asks ho) fun _ _ => trivial
    exact (hasks.and hsaves).mono (fun _ _ ha => ha) (fun _ ho => ho) fun _ _ => trivial
  obtain ⟨hstate, -, -⟩ := under_together sched hstep (fun _ _ _ hw' => hw') hw hrs
  intro u₀ hu₀ u hu hid x hx
  rcases hstate u hu x with ⟨v, hv, hvid, hsame⟩ | hauthorised
  · have hv₀ : v = u₀ := Table.eq_of_key_eq hv hu₀ (hvid.trans hid.symm)
    exact absurd (hv₀ ▸ hsame) hx
  · exact hauthorised

end Runs

/-- Ana registers a device, and a login saves her row back. -/
def registration : List (Request ℕ) :=
  [anaRequest (.enableBiometric (some (.str "telefono"))),
    anaRequest (.login ⟨some (.str "ana@verde.ec"), some (.str "clave")⟩)]

def registrationTurns : List (Turn Time) := List.replicate 3 (.thread 0) ++ List.replicate 6 (.thread 1)

theorem changes_authorised_registration :
    let c := together anaEnv anaWorld registration registrationTurns
    (∃ u ∈ c.state.users.rows, u.id = 1 ∧ u.deviceBiometricId = some "telefono") ∧
      ∃ k r, registration[k]? = some r ∧ Authorises anaEnv (Own c.log k) r 1 .biometrics := by
  intro c
  obtain ⟨u, hu, hid, hdevice⟩ :
      ∃ u ∈ c.state.users.rows, u.id = 1 ∧ u.deviceBiometricId = some "telefono" := by decide
  have hchanged : ¬ Setting.biometrics.Same ana u := by
    rintro ⟨-, hsame, -⟩
    rw [hdevice] at hsame
    cases hsame
  have hauthorised := changes_authorised anaEnv anaWorld registration registrationTurns ana
    (by decide) u hu hid.symm .biometrics hchanged
  rw [hid] at hauthorised
  exact ⟨⟨u, hu, hid, hdevice⟩, hauthorised⟩

end VerdeAuth.AuthorisedChanges
