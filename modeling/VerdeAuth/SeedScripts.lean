import VerdeAuth.BlindPrograms
import VerdeAuth.CertainReplies
import VerdeAuth.RacingRows

/-!
# The seed scripts

`admin-user.seed.ts` adds an administrator, `reset-users.ts` puts every account back to
its beginnings and adds three accounts for tests. What the service does with the store
they leave: the accounts open with the passwords the scripts print, whatever the rows were
like before. The sessions are not part of a reset, and refresh tokens outlive it.
-/

namespace VerdeAuth.SeedScripts

open JsonTexts KeyedTables IamTables IamOperations ResumptionPrograms InterleavedPools UsersService
open TokenServices AuthService IamEndpoints IamAssumptions UserRowChanges RequestRuns
open RequestFootprints ResponseContracts RequestContracts RowIsolation CertainReplies RacingRows
open IamRules SecuredThreads BlindPrograms

variable {N : Type}

def adminEmail : String := "admin@bancoverde.com"

/-- A script hashes with salts of its own process, of which `n` have been drawn. -/
def seedAdminUser (env : Env N) (n : ℕ) (w : World) : World :=
  match w.findUser (.email (some adminEmail)) with
  | some _ => w
  | none => w.saveUser (User.create (freshId w.users) adminEmail (env.bcryptHash n "Admin123!"))

def fullReset : UserPatch where
  failedAttempts := some 0
  lockedUntil := some none
  mfaEnabled := some false
  mfaSecret := some none
  mfaBackupCodes := some none
  mfaTempToken := some none
  mfaTempTokenExpires := some none
  mfaLastVerified := some none
  mfaFailedAttempts := some 0
  mfaLockedUntil := some none
  biometricEnabled := some false
  deviceBiometricId := some none
  preferredMfaMethod := some .totp

/-- `update({}, …)` -/
def updateAll (p : UserPatch) (w : World) : World :=
  { w with users := w.users.mapRows p.apply p.apply_id }

def newPassword (email : String) : String :=
  if email = adminEmail then "Admin123!" else "Test123!"

/-- A user with the new password. -/
def withNewPassword (env : Env N) (n : ℕ) (u : User) : User :=
  { u with passwordHash := env.bcryptHash n (newPassword u.email) }

def resetPasswords (env : Env N) : ℕ → List User → World → World
  | _, [], w => w
  | n, u :: us, w => resetPasswords env (n + 1) us (w.saveUser (withNewPassword env n u))

def testUsers : List String :=
  ["test1@bancoverde.com", "test2@bancoverde.com", "mfauser@bancoverde.com"]

def createMissing (env : Env N) : ℕ → List String → World → World
  | _, [], w => w
  | n, email :: emails, w =>
    match w.findUser (.email (some email)) with
    | some _ => createMissing env n emails w
    | none => createMissing env (n + 1) emails
        (w.saveUser (User.create (freshId w.users) email (env.bcryptHash n "Test123!")))

def resetUsers (env : Env N) (n : ℕ) (w : World) : World :=
  let w := updateAll fullReset w
  createMissing env (n + w.users.rows.length) testUsers (resetPasswords env n w.users.rows w)

/-- No two accounts have an email in common. -/
def Distinct (w : World) : Prop :=
  ∀ u ∈ w.users.rows, ∀ v ∈ w.users.rows, u.email = v.email → u.id = v.id

/-- A row as a reset leaves it. -/
structure Renewed (env : Env N) (u : User) : Prop where
  single : u.mfaEnabled = false
  unlocked : u.lockedUntil = none
  coherent : Coherent u
  password : ∃ k, u.passwordHash = env.bcryptHash k (newPassword u.email)

section Rows

variable {env : Env N} {w : World} {u v : User} {n : ℕ}

theorem newPassword_of_mem {email : String} (h : email ∈ testUsers) :
    newPassword email = "Test123!" := by
  apply if_neg
  rintro rfl
  simp [testUsers, adminEmail] at h

theorem renewed_create {email password : String} {i : UserId} (hp : newPassword email = password) :
    Renewed env (User.create i email (env.bcryptHash n password)) where
  single := rfl
  unlocked := rfl
  coherent := coherent_create i email _
  password := ⟨n, by rw [← hp]; rfl⟩

theorem renewed_withNewPassword (u : User) :
    Renewed env (withNewPassword env n (fullReset.apply u)) where
  single := rfl
  unlocked := rfl
  coherent := by
    constructor <;> simp [withNewPassword, fullReset, UserPatch.apply]
  password := ⟨n, rfl⟩

theorem findUser_email_none {email : String} (h : w.findUser (.email (some email)) = none) :
    ∀ v ∈ w.users.rows, v.email ≠ email := by
  intro v hv heq
  have hnone : ∀ v ∈ w.users.rows, ¬ (UserWhere.email (some email)).matches v = true :=
    List.find?_eq_none.mp h
  exact hnone v hv (decide_eq_true heq)

theorem mem_saveUser_fresh {u : User} (h : u.id = freshId w.users) :
    v ∈ (w.saveUser u).users.rows ↔ v ∈ w.users.rows ∨ v = u := by
  rw [World.saveUser, put_fresh h, List.mem_append, List.mem_singleton]

theorem distinct_saveUser_fresh (hw : Distinct w) {u : User} (h : u.id = freshId w.users)
    (hu : ∀ v ∈ w.users.rows, v.email ≠ u.email) : Distinct (w.saveUser u) := by
  intro v hv v' hv' he
  rcases (mem_saveUser_fresh h).mp hv with hold | rfl
  · rcases (mem_saveUser_fresh h).mp hv' with hold' | rfl
    · exact hw v hold v' hold' he
    · exact absurd he (hu v hold)
  · rcases (mem_saveUser_fresh h).mp hv' with hold' | rfl
    · exact absurd he.symm (hu v' hold')
    · rfl

/-- A row that was there before, or that of the account added. -/
theorem mem_createMissing {emails : List String} :
    v ∈ (createMissing env n emails w).users.rows → v ∈ w.users.rows ∨
      ∃ i k email, email ∈ emails ∧ v = User.create i email (env.bcryptHash k "Test123!") := by
  induction emails generalizing n w with
  | nil => exact .inl
  | cons email emails ih =>
    intro hv
    rw [createMissing] at hv
    split at hv
    · rcases ih hv with hv | ⟨i, k, email', hemail, rfl⟩
      · exact .inl hv
      · exact .inr ⟨i, k, email', List.mem_cons_of_mem _ hemail, rfl⟩
    · rcases ih hv with hv | ⟨i, k, email', hemail, rfl⟩
      · rcases (mem_saveUser_fresh rfl).mp hv with hv | rfl
        · exact .inl hv
        · exact .inr ⟨_, n, email, List.mem_cons_self, rfl⟩
      · exact .inr ⟨i, k, email', List.mem_cons_of_mem _ hemail, rfl⟩

theorem mem_createMissing_of_mem {emails : List String} (h : v ∈ w.users.rows) :
    v ∈ (createMissing env n emails w).users.rows := by
  induction emails generalizing n w with
  | nil => exact h
  | cons email emails ih =>
    rw [createMissing]
    split
    · exact ih h
    · exact ih ((mem_saveUser_fresh rfl).mpr (.inl h))

/-- Each of the accounts is there afterwards. -/
theorem exists_createMissing {emails : List String} {email : String} (h : email ∈ emails) :
    ∃ v ∈ (createMissing env n emails w).users.rows, v.email = email := by
  induction emails generalizing n w with
  | nil => cases h
  | cons email' emails ih =>
    rw [createMissing]
    rcases List.mem_cons.mp h with rfl | h
    · split
      · next v hv =>
        exact ⟨v, mem_createMissing_of_mem (mem_of_findUser hv),
          of_decide_eq_true (matches_of_findUser hv)⟩
      · exact ⟨_, mem_createMissing_of_mem ((mem_saveUser_fresh rfl).mpr (.inr rfl)), rfl⟩
    · split
      · exact ih h
      · exact ih h

theorem distinct_createMissing {emails : List String} (h : Distinct w) :
    Distinct (createMissing env n emails w) := by
  induction emails generalizing n w with
  | nil => exact h
  | cons email emails ih =>
    rw [createMissing]
    split
    · exact ih h
    · next hnone => exact ih (distinct_saveUser_fresh h rfl (findUser_email_none hnone))

/-- A row whose password has been set, or one that is none of those. -/
theorem mem_resetPasswords {us : List User} :
    v ∈ (resetPasswords env n us w).users.rows → (∃ u ∈ us, ∃ k, v = withNewPassword env k u) ∨
      (v ∈ w.users.rows ∧ v.id ∉ us.map User.id) := by
  induction us generalizing n w with
  | nil => exact fun hv => .inr ⟨hv, List.not_mem_nil⟩
  | cons u us ih =>
    intro hv
    rcases ih hv with ⟨u', hu', k, rfl⟩ | ⟨hv, hid⟩
    · exact .inl ⟨u', List.mem_cons_of_mem _ hu', k, rfl⟩
    · rcases Table.mem_put hv with rfl | ⟨hv, hne⟩
      · exact .inl ⟨u, List.mem_cons_self, n, rfl⟩
      · refine .inr ⟨hv, fun hmem => ?_⟩
        rcases List.mem_cons.mp hmem with heq | hmem
        · exact hne heq
        · exact hid hmem

theorem get?_resetPasswords_of_notMem {us : List User} {i : UserId} (h : i ∉ us.map User.id) :
    (resetPasswords env n us w).users.get? i = w.users.get? i := by
  induction us generalizing n w with
  | nil => rfl
  | cons u us ih =>
    have hne : i ≠ u.id := fun heq => h (heq ▸ List.mem_cons_self)
    rw [resetPasswords, ih fun hmem => h (List.mem_cons_of_mem _ hmem)]
    exact Table.get?_put_of_ne w.users (withNewPassword env n u) hne

theorem get?_resetPasswords {us : List User} (hnd : (us.map User.id).Nodup) (h : u ∈ us) :
    ∃ k, (resetPasswords env n us w).users.get? u.id = some (withNewPassword env k u) := by
  induction us generalizing n w with
  | nil => cases h
  | cons u' us ih =>
    obtain ⟨hnew, hnd⟩ := List.nodup_cons.mp hnd
    rcases List.mem_cons.mp h with rfl | h
    · refine ⟨n, ?_⟩
      rw [resetPasswords, get?_resetPasswords_of_notMem hnew]
      exact Table.get?_put_self w.users (withNewPassword env n u)
    · exact ih hnd h

/-- Every row after a reset is renewed, and the row of a user of before or of one added. -/
theorem mem_resetUsers (h : v ∈ (resetUsers env n w).users.rows) :
    (∃ u ∈ w.users.rows, ∃ k, v = withNewPassword env k (fullReset.apply u)) ∨
      ∃ i k email, email ∈ testUsers ∧ v = User.create i email (env.bcryptHash k "Test123!") := by
  rcases mem_createMissing h with hv | hv
  · rcases mem_resetPasswords hv with ⟨u', hu', k, rfl⟩ | ⟨hv, hid⟩
    · obtain ⟨u, hu, rfl⟩ := List.mem_map.mp hu'
      exact .inl ⟨u, hu, k, rfl⟩
    · exact absurd (List.mem_map_of_mem hv) hid
  · exact .inr hv

theorem renewed_of_mem (h : v ∈ (resetUsers env n w).users.rows) : Renewed env v := by
  rcases mem_resetUsers h with ⟨u, -, k, rfl⟩ | ⟨i, k, email, hemail, rfl⟩
  · exact renewed_withNewPassword u
  · exact renewed_create (newPassword_of_mem hemail)

/-- The row of a user of before. -/
theorem get?_resetUsers (env : Env N) (n : ℕ) (h : u ∈ w.users.rows) :
    ∃ k, (resetUsers env n w).users.get? u.id =
      some (withNewPassword env k (fullReset.apply u)) := by
  have hmem : fullReset.apply u ∈ (updateAll fullReset w).users.rows := List.mem_map_of_mem h
  obtain ⟨k, hk⟩ : ∃ k, (resetPasswords env n (updateAll fullReset w).users.rows
      (updateAll fullReset w)).users.get? u.id = some (withNewPassword env k (fullReset.apply u)) :=
    get?_resetPasswords (updateAll fullReset w).users.nodup hmem
  have hrow : withNewPassword env k (fullReset.apply u) ∈ (resetUsers env n w).users.rows :=
    mem_createMissing_of_mem (Table.mem_rows_of_get? hk)
  exact ⟨k, Table.get?_of_mem hrow⟩

theorem createMissing_eq (n : ℕ) (emails : List String) (w : World) :
    createMissing env n emails w = { w with users := (createMissing env n emails w).users } := by
  induction emails generalizing n w with
  | nil => rfl
  | cons email emails ih =>
    rw [createMissing]
    split
    · exact ih n w
    · exact ih (n + 1) _

theorem resetPasswords_eq (n : ℕ) (us : List User) (w : World) :
    resetPasswords env n us w = { w with users := (resetPasswords env n us w).users } := by
  induction us generalizing n w with
  | nil => rfl
  | cons u us ih => exact ih (n + 1) _

/-- A reset touches nothing but the users. -/
theorem resetUsers_eq (env : Env N) (n : ℕ) (w : World) :
    resetUsers env n w = { w with users := (resetUsers env n w).users } := by
  rw [resetUsers, createMissing_eq, resetPasswords_eq]
  rfl

theorem distinct_resetUsers (h : Distinct w) : Distinct (resetUsers env n w) := by
  apply distinct_createMissing
  have hrow : ∀ v ∈ (resetPasswords env n (updateAll fullReset w).users.rows
      (updateAll fullReset w)).users.rows, ∃ u ∈ w.users.rows, v.id = u.id ∧ v.email = u.email := by
    intro v hv
    rcases mem_resetPasswords hv with ⟨u', hu', k, rfl⟩ | ⟨hv, hid⟩
    · obtain ⟨u, hu, rfl⟩ := List.mem_map.mp hu'
      exact ⟨u, hu, rfl, rfl⟩
    · exact absurd (List.mem_map_of_mem hv) hid
  intro v hv v' hv' he
  obtain ⟨u, hu, hid, hemail⟩ := hrow v hv
  obtain ⟨u', hu', hid', hemail'⟩ := hrow v' hv'
  rw [hid, hid']
  exact h u hu u' hu' (hemail.symm.trans (he.trans hemail'))

/-- The administrator's row is there afterwards, and the others as they were. -/
theorem mem_seedAdminUser : v ∈ (seedAdminUser env n w).users.rows → v ∈ w.users.rows ∨
    v = User.create (freshId w.users) adminEmail (env.bcryptHash n "Admin123!") := by
  intro hv
  rw [seedAdminUser] at hv
  split at hv
  · exact .inl hv
  · exact (mem_saveUser_fresh rfl).mp hv

theorem mem_seedAdminUser_of_mem (h : v ∈ w.users.rows) :
    v ∈ (seedAdminUser env n w).users.rows := by
  rw [seedAdminUser]
  split
  · exact h
  · exact (mem_saveUser_fresh rfl).mpr (.inl h)

theorem exists_seedAdminUser : ∃ v ∈ (seedAdminUser env n w).users.rows, v.email = adminEmail := by
  rw [seedAdminUser]
  split
  · next v hv => exact ⟨v, mem_of_findUser hv, of_decide_eq_true (matches_of_findUser hv)⟩
  · exact ⟨_, (mem_saveUser_fresh rfl).mpr (.inr rfl), rfl⟩

theorem distinct_seedAdminUser (h : Distinct w) : Distinct (seedAdminUser env n w) := by
  rw [seedAdminUser]
  split
  · exact h
  · next hnone => exact distinct_saveUser_fresh h rfl (findUser_email_none hnone)

end Rows

section Opening

variable [JsNumber N] [DecidableEq N] {env : Env N} {w : World} {u : User}

/-- A login with the password is answered with tokens, whatever requests that do not name
the account run beside it. -/
def Opens (env : Env N) (w : World) (email password : String) : Prop :=
  ∃ u ∈ w.users.rows, u.email = email ∧
    ∀ (rs : List (Request N)) (sched : List (Turn Time)) (k : ℕ) (r : Request N) (dto : LoginDto N),
      rs[k]? = some r → r.route = .login dto → criterion env dto.email = some email →
      dto.password = some (.str password) →
      (∀ j r', j ≠ k → rs[j]? = some r' → Unnamed env r' u) →
      17 ≤ sched.count (.thread k) →
      ∃ t, (together env w rs sched).threads[k]? = some (.ret (.session t)) ∧ TokensFor u.id t

/-- A renewed account opens with its new password. -/
theorem opens_of_renewed (hb : IdealBcrypt env) (hw : Distinct w) (hu : u ∈ w.users.rows)
    (hr : Renewed env u) : Opens env w u.email (newPassword u.email) := by
  refine ⟨u, hu, rfl, fun rs sched k r dto hk hroute he hs hothers hturns => ?_⟩
  obtain ⟨salt, hhash⟩ := hr.password
  have hc : env.bcryptCompare (newPassword u.email) u.passwordHash = true := by
    rw [hhash]
    exact (hb salt _ _).mpr rfl
  have hm : (UserWhere.email (criterion env dto.email)).matches u = true := by
    simp [UserWhere.matches, he]
  have hholding : Holding env u (.email (criterion env dto.email)) (fun _ => True) w := by
    refine ⟨Table.get?_of_mem hu, fun v hv hmv => hw v hv u hu ?_, trivial, fun n hn => by simp⟩
    simpa [UserWhere.matches, he] using hmv
  have hlock : ∀ t : Time, True → ∀ l, u.lockedUntil = some l → l ≤ t := by
    intro t _ l hl
    rw [hr.unlocked] at hl
    cases hl
  have hsec : Certain env u (.email (criterion env dto.email)) (fun _ => True) (Welcomes u)
      (handle env r) := by
    rw [handle, hroute]
    exact certain_login hs hc hlock hm _ _
  have hn : EndsWithin 17 (handle env r) := by
    rw [handle, hroute]
    exact endsWithin_login _ _ _
  have hsession : ∀ {res}, Welcomes u res → ∃ t, res = .ok (.session t) ∧ TokensFor u.id t := by
    intro res h
    simpa [Welcomes, hr.single] using h
  rcases certain_completes hk hsec hn hholding (fun _ _ => trivial) hothers hturns with
    ⟨reply, hreply, hwelcomes⟩ | ⟨e, -, hwelcomes⟩
  · obtain ⟨t, ht, htokens⟩ := hsession hwelcomes
    cases ht
    exact ⟨t, hreply, htokens⟩
  · obtain ⟨t, ht, -⟩ := hsession hwelcomes
    cases ht

/-- After a reset every account there was and every account for tests opens with its new
password, and so does the administrator's after the other script. -/
theorem accounts_open (env : Env N) (hb : IdealBcrypt env) (w : World) (hw : Distinct w)
    (m n : ℕ) :
    (∀ email ∈ testUsers ++ w.users.rows.map User.email,
      Opens env (resetUsers env n w) email (newPassword email)) ∧
    ∀ email ∈ adminEmail :: testUsers ++ w.users.rows.map User.email,
      Opens env (seedAdminUser env m (resetUsers env n w)) email (newPassword email) := by
  have hrow : ∀ email ∈ testUsers ++ w.users.rows.map User.email,
      ∃ u ∈ (resetUsers env n w).users.rows, u.email = email := by
    intro email hemail
    rcases List.mem_append.mp hemail with hemail | hemail
    · exact exists_createMissing hemail
    · obtain ⟨u, hu, rfl⟩ := List.mem_map.mp hemail
      obtain ⟨k, hk⟩ := get?_resetUsers env n hu
      exact ⟨_, Table.mem_rows_of_get? hk, rfl⟩
  have hdistinct : Distinct (resetUsers env n w) := distinct_resetUsers hw
  constructor
  · intro email hemail
    obtain ⟨u, hu, rfl⟩ := hrow email hemail
    exact opens_of_renewed hb hdistinct hu (renewed_of_mem hu)
  · intro email hemail
    obtain ⟨u, hu, rfl⟩ : ∃ u ∈ (seedAdminUser env m (resetUsers env n w)).users.rows,
        u.email = email := by
      rcases List.mem_cons.mp hemail with rfl | hemail
      · exact exists_seedAdminUser
      · obtain ⟨u, hu, he⟩ := hrow email hemail
        exact ⟨u, mem_seedAdminUser_of_mem hu, he⟩
    refine opens_of_renewed hb (distinct_seedAdminUser hdistinct) hu ?_
    rcases mem_seedAdminUser hu with hu | rfl
    · exact renewed_of_mem hu
    · exact renewed_create (if_pos rfl)

end Opening

/-- Ana logs in with the password the script prints. -/
def anaAfterReset : Request ℕ :=
  anaRequest (.login ⟨some (.str "ana@verde.ec"), some (.str "Test123!")⟩)

theorem accounts_open_ana :
    ∃ (u : User) (t : TokenPair), u.email = "ana@verde.ec" ∧ (together anaEnv (resetUsers anaEnv 0 anaWorld)
      [anaAfterReset] (List.replicate 17 (.thread 0))).threads[0]? = some (.ret (.session t)) ∧
      TokensFor u.id t := by
  have hdistinct : Distinct anaWorld := by
    intro u hu v hv _
    rw [List.mem_singleton.mp hu, List.mem_singleton.mp hv]
  obtain ⟨hopen, -⟩ := accounts_open anaEnv (idealBcrypt_plainEnv _) anaWorld hdistinct 0 0
  have hmem : "ana@verde.ec" ∈ testUsers ++ anaWorld.users.rows.map User.email := by decide
  obtain ⟨u, -, hu, hlogin⟩ := hopen "ana@verde.ec" hmem
  have hothers : ∀ j r', j ≠ 0 → [anaAfterReset][j]? = some r' → Unnamed anaEnv r' u := by
    intro j r' hj hr'
    cases j with
    | zero => exact absurd rfl hj
    | succ j => cases hr'
  obtain ⟨t, ht, htokens⟩ := hlogin [anaAfterReset] (List.replicate 17 (.thread 0)) 0 anaAfterReset
    _ rfl rfl rfl rfl hothers (by simp)
  exact ⟨u, t, hu, ht, htokens⟩

/-! What a reset leaves alone -/

/-- What a refresh reads of a user. -/
def subject (u : User) : UserId × String × Bool := (u.id, u.email, u.isActive)

def SameSubject : (o : Op N) → Res N o → Res N o → Prop
  | .findUser _, row, row' => row.map subject = row'.map subject
  | _, r, r' => r = r'

/-- Operations that read a user of the table by id, or have to do with no user's row. -/
def OnSessions (w : World) : Op N → Prop
  | .findUser c => ∃ u ∈ w.users.rows, c = .id (some u.id)
  | .insertUser _ _ => False
  | .updateUser _ _ => False
  | .saveUser _ => False
  | _ => True

/-- A store with the users of `w`, and the same with the users after the reset. -/
def Beside (env : Env N) (n : ℕ) (w w₁ w₂ : World) : Prop :=
  w₁.users = w.users ∧ w₂ = { w₁ with users := (resetUsers env n w).users }

theorem corresponds_reset (env : Env N) (n : ℕ) (w : World) :
    Corresponds (exec env) tick (Beside env n w) SameSubject (OnSessions w) where
  answers o w₁ w₂ ho h := by
    obtain ⟨husers, rfl⟩ := h
    cases o with
    | findUser c =>
      obtain ⟨u, hu, rfl⟩ := ho
      obtain ⟨k, hk⟩ := get?_resetUsers env n hu
      have hbefore : w₁.findUser (.id (some u.id)) = some u := by
        rw [World.findUser, husers]
        exact Table.get?_of_mem hu
      have hafter : ({ w₁ with users := (resetUsers env n w).users } : World).findUser
          (.id (some u.id)) = some (withNewPassword env k (fullReset.apply u)) := hk
      simp only [SameSubject, exec, hbefore, hafter]
      rfl
    | insertUser email passwordHash => exact ho.elim
    | _ => rfl
  keeps o w₁ w₂ ho h := by
    obtain ⟨husers, rfl⟩ := h
    cases o with
    | insertUser email passwordHash => exact ho.elim
    | updateUser i p => exact ho.elim
    | saveUser u => exact ho.elim
    | _ => exact ⟨husers, rfl⟩
  outside e w₁ w₂ h := by
    obtain ⟨husers, rfl⟩ := h
    exact ⟨husers, rfl⟩

section Blindness

variable {env : Env N} {w : World} {α : Type}

abbrev BlindToReset (w : World) (p : Iam N α) : Prop := Blind SameSubject (OnSessions w) p

theorem blind_now : BlindToReset w (now : Iam N Time) := blind_op trivial fun _ _ h => h

theorem blind_draw : BlindToReset w (draw : Iam N ℕ) := blind_op trivial fun _ _ h => h

theorem blind_compare (data : JsonField N) (hash : String) :
    BlindToReset w (compare data hash) := by
  rcases data with _ | (_ | _ | _ | s | _ | _)
  case some.str => exact blind_op trivial fun _ _ h => h
  all_goals exact blind_throw _

theorem blind_findSessions (i : IdParam) : BlindToReset w (findSessions i : Iam N (List Session)) := by
  cases i with
  | invalid => exact blind_throw _
  | _ => exact blind_op trivial fun _ _ h => h

theorem blind_anyValid (token : JsonField N) (ss : List Session) :
    BlindToReset w (anyValid token ss) := by
  induction ss with
  | nil => exact blind_ret _
  | cons s ss ih =>
    refine blind_bind (blind_compare _ _) fun b => ?_
    cases b with
    | false => exact ih
    | true =>
      refine blind_bind blind_now fun t => ?_
      split
      · exact blind_ret _
      · exact ih

theorem blind_revokeFirst (token : JsonField N) (ss : List Session) :
    BlindToReset w (revokeFirst token ss) := by
  induction ss with
  | nil => exact blind_ret _
  | cons s ss ih =>
    refine blind_bind (blind_compare _ _) fun b => ?_
    cases b with
    | false => exact ih
    | true => exact blind_op trivial fun _ _ h => h

theorem blind_revokeSession (i : IdParam) (token : JsonField N) :
    BlindToReset w (revokeSession i token) :=
  blind_bind (blind_findSessions i) fun ss => blind_revokeFirst token ss

theorem blind_log (action : String) (i : Option UserId) (ip device : String) (success : Bool) :
    BlindToReset w (log env action i ip device success) :=
  blind_bind (blind_op trivial fun _ _ h => h) fun _ => blind_op trivial fun _ _ h => h

theorem blind_createRefreshToken (i : UserId) (device ip : String) :
    BlindToReset w (createRefreshToken env i device ip) := by
  refine blind_bind ?_ fun token => blind_bind blind_draw fun salt => blind_bind blind_now fun t => ?_
  · exact blind_bind blind_draw fun _ => blind_bind blind_draw fun _ =>
      blind_bind blind_draw fun _ => blind_bind blind_draw fun _ => blind_ret _
  · exact blind_bind (blind_op trivial fun _ _ h => h) fun _ => blind_ret _

theorem blind_generateAccessToken (i : UserId) (email : String) :
    BlindToReset w (generateAccessToken env i email) := blind_bind blind_now fun _ => blind_ret _

theorem blind_generateRefreshToken (i : UserId) : BlindToReset w (generateRefreshToken env i) :=
  blind_bind blind_draw fun _ => blind_bind blind_draw fun _ => blind_bind blind_now fun _ =>
    blind_ret _

theorem blind_verifyToken (secret : String) (token : JsonField N) :
    BlindToReset w (verifyToken env secret token) := by
  rcases token with _ | (_ | _ | _ | s | _ | _)
  case some.str => exact blind_bind blind_now fun t => blind_ret _
  all_goals exact blind_ret _

/-- A refresh reads no more of the user than a reset leaves as it is. -/
theorem blind_refresh {token : JsonField N}
    (hsub : ∀ x t p, token = some (.str x) → env.jwtVerify (refreshKey env) x t = some p →
      ∃ u ∈ w.users.rows, u.id = p.sub) (ip device : String) :
    BlindToReset w (refresh env token ip device) := by
  rw [refresh, verifyRefreshToken]
  rcases token with _ | (_ | _ | _ | x | _ | _)
  case some.str =>
    rw [verifyToken, bind_assoc]
    refine blind_bind blind_now fun t => ?_
    rw [Prog.pure_eq, Prog.ret_bind]
    cases hp : env.jwtVerify (refreshKey env) x t with
    | none => exact blind_throw _
    | some p =>
      obtain ⟨u, hu, hid⟩ := hsub x t p rfl hp
      refine blind_bind (blind_bind (blind_findSessions _) fun ss => blind_anyValid _ ss) fun b => ?_
      cases b with
      | false => exact blind_throw _
      | true =>
        refine blind_read ⟨u, hu, by rw [hid]⟩ (fun row row' h => ?_) fun row => ?_
        · rcases row with _ | v <;> rcases row' with _ | v'
          · rfl
          · cases h
          · cases h
          · obtain ⟨hid, hemail, hactive⟩ : v.id = v'.id ∧ v.email = v'.email ∧
                v.isActive = v'.isActive := by
              simpa [SameSubject, subject] using h
            simp only [hid, hemail, hactive]
        · cases row with
          | none => exact blind_throw _
          | some v =>
            cases hv : v.isActive with
            | false =>
              simp only [hv]
              exact blind_throw _
            | true =>
              simp only [hv]
              refine blind_bind (blind_generateAccessToken _ _) fun a => ?_
              refine blind_bind (blind_generateRefreshToken _) fun t => ?_
              refine blind_bind (blind_revokeSession _ _) fun _ => ?_
              refine blind_bind (blind_createRefreshToken _ _ _) fun _ => ?_
              exact blind_bind (blind_log _ _ _ _ _) fun _ => blind_ret _
  all_goals exact blind_throw _

end Blindness

/-- The routes that go by tokens alone. -/
def goesByTokens : Route N → Bool
  | .refresh _ => true
  | .logout _ => true
  | .verifyToken _ => true
  | _ => false

variable [JsNumber N] [DecidableEq N]

/-- A reset ends no session: whatever refreshes, with tokens of users there are, logouts and
token checks interleave, they end after it as they would have without it, and leave the same
sessions and the same trail. -/
theorem sessions_outlive_reset (env : Env N) (w : World) (n : ℕ) (rs : List (Request N))
    (hroutes : ∀ r ∈ rs, goesByTokens r.route = true)
    (hsub : ∀ r ∈ rs, ∀ x t p, r.route = .refresh (some (.str x)) →
      env.jwtVerify (refreshKey env) x t = some p → ∃ u ∈ w.users.rows, u.id = p.sub)
    (sched : List (Turn Time)) :
    let c := together env w rs sched
    let c' := together env (resetUsers env n w) rs sched
    c'.threads = c.threads ∧ c'.state = { c.state with users := (resetUsers env n w).users } := by
  have hblind : ∀ p ∈ rs.map (handle env), BlindToReset w p := by
    intro p hp
    obtain ⟨r, hr, rfl⟩ := List.mem_map.mp hp
    have hroute := hroutes r hr
    rw [handle]
    cases hrr : r.route with
    | refresh token =>
      exact blind_refresh (fun x t p hx hv => hsub r hr x t p (by rw [hrr, hx]) hv) _ _
    | logout token =>
      exact blind_bind (blind_revokeSession _ _) fun _ =>
        blind_bind (blind_log _ _ _ _ _) fun _ => blind_ret _
    | verifyToken token => exact blind_bind (blind_verifyToken _ _) fun _ => blind_ret _
    | _ =>
      rw [hrr] at hroute
      cases hroute
  have hstart : Beside env n w w (resetUsers env n w) := ⟨rfl, resetUsers_eq env n w⟩
  obtain ⟨hthreads, -, hstate⟩ := (corresponds_reset env n w).exec hblind hstart sched
  exact ⟨hthreads, hstate⟩

/-- A session of Ana's, and the token that goes with it. -/
def anaRefresh : JwtPayload := ⟨1, none, some "ab", .refresh, 1, 60⟩

def anaRefreshToken : String := plainEnv.plainSign "refresh" anaRefresh

def anaSession : Session :=
  ⟨1, 1, "$2b$" ++ anaRefreshToken, some "unknown", some "::1", 604800000, false⟩

def anaSignedIn : World := anaWorld.saveSession anaSession

theorem eq_anaRefresh {key x : String} {t : Time} {p : JwtPayload}
    (h : (plainEnv [anaRefresh]).jwtVerify key x t = some p) : p = anaRefresh := by
  simp only [plainEnv, List.find?_singleton] at h
  split at h
  · exact (Option.some.inj h).symm
  · cases h

def hasSession : Iam ℕ Reply → Bool
  | .ret (.session _) => true
  | _ => false

/-- She presents it to a store. -/
def anaAgain (w : World) : Pool (Res ℕ) Failure Reply World Time :=
  together (plainEnv [anaRefresh]) w [anaRequest (.refresh (some (.str anaRefreshToken)))]
    (List.replicate 21 (.thread 0))

theorem sessions_outlive_reset_ana :
    (anaAgain (resetUsers (plainEnv [anaRefresh]) 0 anaSignedIn)).threads =
        (anaAgain anaSignedIn).threads ∧
      (anaAgain anaSignedIn).threads.all hasSession = true := by
  refine ⟨(sessions_outlive_reset (plainEnv [anaRefresh]) anaSignedIn 0 _ ?_ ?_ _).1, by decide +kernel⟩
  · intro r hr
    rw [List.mem_singleton.mp hr]
    rfl
  · intro r _ x t p _ hp
    obtain rfl := eq_anaRefresh hp
    exact ⟨ana, List.mem_singleton_self ana, rfl⟩

/-- Whatever the rows were like, after a reset they are coherent, and stay so in every
interleaving of requests. -/
theorem reset_coherent (env : Env N) (w : World) (n : ℕ) (rs : List (Request N))
    (sched : List (Turn Time)) :
    AllRows Coherent (together env (resetUsers env n w) rs sched).state := by
  have hw : AllRows Coherent (resetUsers env n w) := fun u hu => (renewed_of_mem hu).coherent
  exact ((stable_coherent env).exec (under_coherent env rs) hw sched).1

end VerdeAuth.SeedScripts
