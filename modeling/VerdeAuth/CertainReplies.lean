import VerdeAuth.RowIsolation
import VerdeAuth.SecuredThreads
import VerdeAuth.SecondFactorGate

/-!
# Requests that get through

A login with the right password, and a verification with a live temporary token and a
factor that passes, are answered as they should be among any requests that do not name
the user: those cannot lock the account, use the token up or put another row in its way.
-/

namespace VerdeAuth.CertainReplies

open JsonTexts KeyedTables IamTables IamOperations ResumptionPrograms InterleavedPools UsersService
open TokenServices MfaServices AuthService MfaController IamEndpoints IamRules IamAssumptions
open UserRowChanges RequestEndings RequestFootprints ResponseContracts RequestContracts
open RowIsolation SecuredThreads

variable {N α β : Type} {env : Env N} {u : User} {c : UserWhere} {T : Time → Prop}

/-- The row is the one the criterion leads to, now and whatever values are drawn, and
the clock shows a time with `T`. -/
structure Holding (env : Env N) (u : User) (c : UserWhere) (T : Time → Prop) (w : World) : Prop where
  row : w.users.get? u.id = some u
  only : ∀ v ∈ w.users.rows, c.matches v = true → v.id = u.id
  clock : T w.clock
  new : ∀ n, w.drawn ≤ n → c ≠ .mfaTempToken (some (env.randomHex n 32))

/-- Writes that bring no other row under the criterion. -/
def KeepsApart (c : UserWhere) : Op N → Prop
  | .saveUser v => c.matches v = false
  | .updateUser _ p => ∀ x, p.mfaTempToken = some (some x) → c ≠ .mfaTempToken (some x)
  | _ => True

/-- The rows found are not under the criterion, nor is a token of a value drawn. -/
def FindsApart (env : Env N) (c : UserWhere) : Contract N
  | .findUser _, row => ∀ v, row = some v → c.matches v = false
  | .draw, n => c ≠ .mfaTempToken (some (env.randomHex n 32))
  | _, _ => True

/-- What the other requests do. -/
def SparesBoth (u : User) (c : UserWhere) (o : Op N) : Prop := SparesRow u o ∧ KeepsApart c o

/-- Operations that only read. -/
def Reads (env : Env N) (o : Op N) : Prop := ∀ w, (exec env o w).2 = w

section Others

variable {w : World}

theorem matches_apply {p : UserPatch} {v : User}
    (hp : ∀ x, p.mfaTempToken = some (some x) → c ≠ .mfaTempToken (some x))
    (hv : c.matches v = false) : c.matches (p.apply v) = false := by
  rcases c with (_ | i) | (_ | s) | (_ | x)
  case mfaTempToken.some =>
    rcases hpt : p.mfaTempToken with _ | _ | y
    · simpa [UserWhere.matches, UserPatch.apply, hpt] using hv
    · simp [UserWhere.matches, UserPatch.apply, hpt]
    · have hne : y ≠ x := by
        rintro rfl
        exact hp y hpt rfl
      simp [UserWhere.matches, UserPatch.apply, hpt, hne]
  all_goals exact hv

theorem holding_exec {o : Op N} (h : Holding env u c T w) (ho : SparesBoth u c o) :
    Holding env u c T (exec env o w).2 := by
  obtain ⟨hrow, honly, hclock, hnew⟩ := h
  obtain ⟨hspares, hapart⟩ := ho
  cases o with
  | insertUser email passwordHash => exact hspares.elim
  | saveUser v =>
    have hne : v.id ≠ u.id := hspares
    refine ⟨(Table.get?_put_of_ne w.users v hne.symm).trans hrow, fun v' hv' hm => ?_, hclock, hnew⟩
    rcases Table.mem_put hv' with rfl | ⟨hv', -⟩
    · have hapart : c.matches v' = false := hapart
      rw [hapart] at hm
      cases hm
    · exact honly v' hv' hm
  | updateUser i p =>
    have hne : i ≠ u.id := hspares
    refine ⟨(Table.get?_modify_of_ne w.users hne.symm p.apply p.apply_id).trans hrow,
      fun v' hv' hm => ?_, hclock, hnew⟩
    have hmem : v' ∈ (w.users.modify i p.apply p.apply_id).rows := hv'
    rcases Table.mem_modify hmem with ⟨hv', -⟩ | ⟨v, hv, hid, rfl⟩
    · exact honly v' hv' hm
    · cases hmv : c.matches v with
      | true => exact honly v hv hmv
      | false =>
        rw [matches_apply hapart hmv] at hm
        cases hm
  | draw => exact ⟨hrow, honly, hclock, fun n hn => hnew n (Nat.le_of_succ_le hn)⟩
  | _ => exact ⟨hrow, honly, hclock, hnew⟩

theorem findsOthers_of_answers {o : Op N} {r : Res N o}
    (h : Answers (exec env) (Holding env u c T) (SparesBoth u c) o r) : FindsOthers u.id o r := by
  obtain ⟨w, hw, ho, rfl⟩ := h
  have hdiffer : DifferIn u u w { w with users := w.users.put u } := ⟨hw.row, rfl⟩
  exact findsOthers_exec hdiffer ho.1

theorem findsApart_of_answers {o : Op N} {r : Res N o}
    (h : Answers (exec env) (Holding env u c T) (SparesBoth u c) o r) : FindsApart env c o r := by
  have hothers := findsOthers_of_answers h
  obtain ⟨w, hw, ho, rfl⟩ := h
  cases o with
  | findUser c' =>
    intro v hv
    by_contra hm
    rw [Bool.not_eq_false] at hm
    exact hothers v hv (hw.only v (mem_of_findUser hv) hm)
  | draw => exact hw.new w.drawn le_rfl
  | _ => trivial

theorem matches_attemptFailed (t : Time) (v : User) :
    c.matches (attemptFailed t v) = c.matches v := by
  rcases c with (_ | _) | (_ | _) | (_ | _) <;> rfl

theorem matches_attemptsReset (v : User) : c.matches (attemptsReset v) = c.matches v := by
  rcases c with (_ | _) | (_ | _) | (_ | _) <;> rfl

theorem matches_mfaAttemptFailed (t : Time) (v : User) :
    c.matches (mfaAttemptFailed t v) = c.matches v := by
  rcases c with (_ | _) | (_ | _) | (_ | _) <;> rfl

variable [JsNumber N] [DecidableEq N] {r : Request N}

theorem keepsApart_of_asks {o : Op N} (ho : Asks env (FindsApart env c) r o) : KeepsApart c o := by
  cases ho with
  | attemptFailed hr h => exact (matches_attemptFailed _ _).trans (h.selected _ rfl)
  | attemptsReset hr h => exact (matches_attemptsReset _).trans (h.selected _ rfl)
  | mfaAttemptFailed h hv => exact (matches_mfaAttemptFailed _ _).trans (hv _ rfl)
  | tempToken hr h hm hn =>
    rintro x ⟨⟩
    exact hn
  | unlocked => simp [KeepsApart, unlockPatch]
  | reset => simp [KeepsApart, resetPatch]
  | _ => first | trivial | simp [KeepsApart]

theorem under_unnamed (h : Unnamed env r u) :
    Under (Answers (exec env) (Holding env u c T) (SparesBoth u c)) (SparesBoth u c)
      (fun _ => True) (handle env r) := by
  have hspares : Under (Answers (exec env) (Holding env u c T) (SparesBoth u c)) (SparesRow u)
      (fun _ => True) (handle env r) :=
    (serves_handle env (FindsOthers u.id) r).mono (fun _ _ ha => findsOthers_of_answers ha)
      (fun _ ho => sparesRow_of_asks h ho) fun _ _ => trivial
  have hapart : Under (Answers (exec env) (Holding env u c T) (SparesBoth u c)) (KeepsApart c)
      (fun _ => True) (handle env r) :=
    (serves_handle env (FindsApart env c) r).mono (fun _ _ ha => findsApart_of_answers ha)
      (fun _ ho => keepsApart_of_asks ho) fun _ _ => trivial
  exact (hspares.and hapart).mono (fun _ _ ha => ha) (fun _ ho => ho) fun _ _ => trivial

end Others

section Reading

/-- The rest of a request that reads the row. -/
abbrev Certain (env : Env N) (u : User) (c : UserWhere) (T : Time → Prop)
    (R : Except Failure Reply → Prop) (p : Iam N Reply) : Prop :=
  Secures (Answers (exec env) (Holding env u c T) (Reads env)) (Reads env) R p

variable {R : Except Failure Reply → Prop}

theorem certain_selected (hm : c.matches u = true) {f : Option User → Iam N Reply}
    (hf : Certain env u c T R (f (some u))) :
    Certain env u c T R (Prog.perform (Op.findUser c) >>= f) := by
  refine secures_read (fun _ => rfl) fun row hrow => ?_
  obtain ⟨w, hw, -, rfl⟩ := hrow
  have hu : u ∈ w.users.rows := Table.mem_rows_of_get? hw.row
  have hfound : w.findUser c = some u := by
    cases hv : w.findUser c with
    | none =>
      have hnone : ∀ v ∈ w.users.rows, ¬ c.matches v = true := List.find?_eq_none.mp hv
      exact absurd hm (hnone u hu)
    | some v =>
      have hid := hw.only v (mem_of_findUser hv) (matches_of_findUser hv)
      rw [Table.eq_of_key_eq (mem_of_findUser hv) hu hid]
  change Certain env u c T R (f (w.findUser c))
  rw [hfound]
  exact hf

theorem certain_byId {f : Option User → Iam N Reply} (hf : Certain env u c T R (f (some u))) :
    Certain env u c T R (findById (.uuid u.id) >>= f) := by
  refine secures_read (fun _ => rfl) fun row hrow => ?_
  obtain ⟨w, hw, -, rfl⟩ := hrow
  change Certain env u c T R (f (w.users.get? u.id))
  rw [hw.row]
  exact hf

theorem certain_now {f : Time → Iam N Reply} (hf : ∀ t, T t → Certain env u c T R (f t)) :
    Certain env u c T R (now >>= f) := by
  refine secures_read (fun _ => rfl) fun t ht => ?_
  obtain ⟨w, hw, -, rfl⟩ := ht
  exact hf _ hw.clock

theorem certain_compare {s hash : String} {f : Bool → Iam N Reply}
    (hf : Certain env u c T R (f (env.bcryptCompare s hash))) :
    Certain env u c T R (compare (some (.str s)) hash >>= f) := by
  refine secures_read (fun _ => rfl) fun b hb => ?_
  obtain ⟨w, -, -, rfl⟩ := hb
  exact hf

theorem certain_isLocked {lock : Option Time} (hlock : ∀ t, T t → ∀ l, lock = some l → l ≤ t)
    {f : Bool → Iam N Reply} (hf : Certain env u c T R (f false)) :
    Certain env u c T R (isLocked lock >>= f) := by
  cases lock with
  | none => exact hf
  | some l =>
    rw [isLocked, bind_assoc]
    refine certain_now fun t ht => ?_
    have hle : ¬ t < l := Nat.not_lt.mpr (hlock t ht l rfl)
    simpa [hle] using hf

end Reading

section Logins

/-- The answer to the right password. -/
def Welcomes (u : User) (res : Except Failure Reply) : Prop :=
  if u.mfaEnabled then
    ∃ tempToken, res = .ok (.needsMfa tempToken u.preferredMfaMethod u.biometricEnabled)
  else ∃ t, res = .ok (.session t) ∧ TokensFor u.id t

theorem surely_completeLogin (ip device : String) :
    Surely (Welcomes u) (completeLogin env u ip device) := by
  have hperform : ∀ o : Op N, Prog.Every (fun _ => True) (fun res => ∃ b, res = .ok b ∧ True)
      (Prog.perform o : Iam N _) := fun o => ⟨trivial, fun r => ⟨r, rfl, trivial⟩⟩
  rw [completeLogin]
  refine surely_bind (hperform (.saveUser _)) fun _ _ => ?_
  cases hm : u.mfaEnabled with
  | true =>
    refine surely_bind (hperform .draw) fun n _ => surely_bind (hperform .now) fun t _ => ?_
    refine surely_bind (hperform (.updateUser _ _)) fun _ _ => ?_
    refine surely_bind (quietResult_log _ _ _ _ _) fun _ _ => ?_
    simp [Welcomes, hm]
  | false =>
    refine surely_bind (quietResult_generateAccessToken u.id u.email) fun a ha => ?_
    refine surely_bind (quietResult_generateRefreshToken u.id) fun t ht => ?_
    refine surely_bind (quietResult_createRefreshToken u.id device ip) fun _ _ => ?_
    refine surely_bind (quietResult_log _ _ _ _ _) fun _ _ => ?_
    simpa [Welcomes, hm] using ⟨ha, ht⟩

theorem certain_login {dto : LoginDto N} {s : String} (hs : dto.password = some (.str s))
    (hc : env.bcryptCompare s u.passwordHash = true)
    (hlock : ∀ t, T t → ∀ l, u.lockedUntil = some l → l ≤ t)
    (hm : (UserWhere.email (criterion env dto.email)).matches u = true) (ip device : String) :
    Certain env u (.email (criterion env dto.email)) T (Welcomes u) (login env dto ip device) := by
  rw [login]
  refine certain_selected hm (certain_isLocked hlock ?_)
  rw [validatePassword, hs]
  refine certain_compare ?_
  rw [hc]
  exact secures_of_surely (surely_completeLogin ip device)

end Logins

section Verifications

variable [JsNumber N] [DecidableEq N] {route : Route N}

/-- The answer to a factor that passes. -/
def Verifies (u : User) (res : Except Failure Reply) : Prop :=
  ∃ t, res = .ok (.verified t) ∧ TokensFor u.id t

/-- At the time the temporary token is live, MFA is not locked and the factor passes. -/
structure FactorReady (env : Env N) (u : User) (route : Route N) (t : Time) : Prop where
  fresh : t ≤ u.mfaTempTokenExpires.getD 0
  unlocked : ∀ l, u.mfaLockedUntil = some l → l ≤ t
  factor : factorResult env t u route = some true

theorem surely_commit {t : Time} {commit : Iam N Unit} (hc : Commits env t u route commit)
    {f : Unit → Iam N Reply} {R : Except Failure Reply → Prop} (hf : Surely R (f ())) :
    Surely R (commit >>= f) := by
  rcases hc with ⟨-, rfl⟩ | ⟨codes, -, rfl⟩
  · exact hf
  · exact ⟨trivial, fun n => ⟨trivial, fun _ => hf⟩⟩

theorem surely_completeVerification {t : Time} {commit : Iam N Unit}
    (hc : Commits env t u route commit) :
    Surely (Verifies u) (completeVerification env u commit) := by
  refine ⟨trivial, fun _ => surely_commit hc ⟨trivial, fun t => ⟨trivial, fun _ => ?_⟩⟩⟩
  change Surely (Verifies u) (generateTokens env u.id u.email >>= fun t => .ret (.verified t))
  exact surely_bind (quietResult_generateTokens u.id u.email) fun t ht => ⟨t, rfl, ht⟩

/-- A check of a factor that passes at every time with `T`. -/
def CertainCheck (env : Env N) (u : User) (c : UserWhere) (T : Time → Prop) (route : Route N)
    (check : User → Iam N (Option (Iam N Unit))) : Prop :=
  ∀ f : Option (Iam N Unit) → Iam N Reply,
    (∀ t commit, Commits env t u route commit → Certain env u c T (Verifies u) (f (some commit))) →
    Certain env u c T (Verifies u) (check u >>= f)

omit [JsNumber N] [DecidableEq N] in
theorem certain_isMfaLocked (hlock : ∀ t, T t → ∀ l, u.mfaLockedUntil = some l → l ≤ t)
    {R : Except Failure Reply → Prop} {f : Bool → Iam N Reply}
    (hf : Certain env u c T R (f false)) :
    Certain env u c T R (isMfaLocked (.uuid u.id) >>= f) := by
  rw [isMfaLocked, bind_assoc]
  refine certain_byId ?_
  cases hl : u.mfaLockedUntil with
  | none => simpa [hl] using hf
  | some l =>
    simp only [hl, bind_assoc]
    refine certain_now fun t ht => ?_
    have hle : ¬ t < l := Nat.not_lt.mpr (hlock t ht l hl)
    simpa [hle] using hf

theorem certain_verifyFactor {token : JsonField N} {refusal : String}
    {check : User → Iam N (Option (Iam N Unit))} (hready : ∀ t, T t → FactorReady env u route t)
    (hm : (UserWhere.mfaTempToken (criterion env token)).matches u = true)
    (hcheck : ∀ t, T t → CertainCheck env u (.mfaTempToken (criterion env token)) T route check) :
    Certain env u (.mfaTempToken (criterion env token)) T (Verifies u)
      (verifyFactor env token refusal check) := by
  rw [verifyFactor]
  refine certain_selected hm (certain_now fun t ht => ?_)
  have hfresh : ¬ u.mfaTempTokenExpires.getD 0 < t := Nat.not_lt.mpr (hready t ht).fresh
  rw [if_neg hfresh]
  refine certain_isMfaLocked (fun t ht => (hready t ht).unlocked) ?_
  refine hcheck t ht _ fun t' commit hc => secures_of_surely ?_
  exact surely_completeVerification hc

theorem certainCheck_totp {token code : JsonField N} {t : Time} (ht : T t)
    (hready : ∀ t, T t → FactorReady env u (.verify token code) t) :
    CertainCheck env u c T (.verify token code) (totpCheck env code) := by
  intro f hf
  have hresult : ∀ t, T t → totpResult env t u.mfaSecret code = some true :=
    fun t ht => (hready t ht).factor
  rw [totpCheck, plainCheck, bind_assoc, bind_assoc]
  obtain ⟨s, hs, -⟩ := Option.bind_eq_some_iff.mp (hresult t ht)
  obtain ⟨ciphertext, hsecret, hdecrypt⟩ := Option.bind_eq_some_iff.mp hs
  rw [decryptSecret, decrypt, hsecret]
  simp only [orThrow, Prog.ret_bind, hdecrypt, verifyTotp, bind_assoc]
  refine secures_read (fun _ => rfl) fun b hb => ?_
  obtain ⟨w, hw, -, rfl⟩ := hb
  have hvalid : env.totpVerify s code w.clock = some true := by
    have h := hresult _ hw.clock
    rwa [totpResult, hs, Option.bind_some] at h
  change Certain env u c T (Verifies u) (orThrow (env.totpVerify s code w.clock) >>= _)
  rw [hvalid]
  exact hf t (.ret ()) (.inl ⟨rfl, rfl⟩)

theorem certainCheck_backup {token code : JsonField N}
    (hready : ∀ t, T t → FactorReady env u (.verifyBackup token code) t) {t : Time} (ht : T t) :
    CertainCheck env u c T (.verifyBackup token code) (backupCheck env code) := by
  intro f hf
  have hresult : ∀ t, T t → ∃ cs, backupResult env t u.mfaBackupCodes code = some (some cs) := by
    intro t ht
    obtain ⟨marked, hmarked, hsome⟩ := Option.map_eq_some_iff.mp (hready t ht).factor
    obtain ⟨cs, rfl⟩ := Option.isSome_iff_exists.mp hsome
    exact ⟨cs, hmarked⟩
  rw [backupCheck, bind_assoc]
  rcases code with _ | (_ | _ | _ | input | _ | _)
  case some.str =>
    rw [validateBackupCode]
    cases hp : (parseBackupCodes u.mfaBackupCodes : Json N) with
    | arr cs =>
      simp only [bind_assoc]
      refine certain_now fun t ht => ?_
      obtain ⟨cs', hcs⟩ := hresult t ht
      have hmark : markFirst (env.toUpperCase input) (env.toISOString t) cs = some (some cs') := by
        simpa [backupResult, hp] using hcs
      rw [hmark]
      have hspent : spentCodes env t u (.verifyBackup token (some (.str input))) =
          some (stringifyBackupCodes (.arr cs')) := by simp [spentCodes, hcs]
      exact hf t _ (.inr ⟨_, hspent, rfl⟩)
    | _ =>
      obtain ⟨cs, hcs⟩ := hresult t ht
      simp [backupResult, hp] at hcs
  all_goals
    obtain ⟨cs, hcs⟩ := hresult t ht
    cases hcs

theorem certainCheck_biometric {token device : JsonField N} {t : Time} (ht : T t)
    (hready : ∀ t, T t → FactorReady env u (.verifyBiometric token device) t) :
    CertainCheck env u c T (.verifyBiometric token device) (biometricCheck device) := by
  intro f hf
  have hvalid : (u.biometricEnabled &&
      Json.strictEq (some (columnValue u.deviceBiometricId)) device) = true :=
    Option.some.inj (hready t ht).factor
  rw [biometricCheck, plainCheck, validateBiometric, bind_assoc, bind_assoc]
  refine certain_byId ?_
  simp only [hvalid, Prog.pure_eq, Prog.ret_bind, if_true]
  exact hf t (.ret ()) (.inl ⟨rfl, rfl⟩)

/-- A verification that reads a live token and a factor that passes. -/
theorem certain_verification {r : Request N} {token : JsonField N}
    (hp : presented r.route = some token)
    (hready : ∀ t, T t → FactorReady env u r.route t)
    (hm : (UserWhere.mfaTempToken (criterion env token)).matches u = true) :
    Certain env u (.mfaTempToken (criterion env token)) T (Verifies u) (handle env r) := by
  rw [handle]
  cases hr : r.route with
  | verify token' code =>
    rw [hr] at hp hready
    cases hp
    exact certain_verifyFactor hready hm fun t ht => certainCheck_totp ht hready
  | verifyBackup token' code =>
    rw [hr] at hp hready
    cases hp
    exact certain_verifyFactor hready hm fun t ht => certainCheck_backup hready ht
  | verifyBiometric token' device =>
    rw [hr] at hp hready
    cases hp
    exact certain_verifyFactor hready hm fun t ht => certainCheck_biometric ht hready
  | _ =>
    rw [hr] at hp
    cases hp

end Verifications

section Turns

/-! How many operations the requests take -/

theorem endsWithin_op (o : Op N) : EndsWithin 1 (Prog.perform o : Iam N _) := endsWithin_perform o

theorem endsWithin_now : EndsWithin 1 (now : Iam N Time) := endsWithin_op .now

theorem endsWithin_draw : EndsWithin 1 (draw : Iam N ℕ) := endsWithin_op .draw

theorem endsWithin_save (u : User) : EndsWithin 1 (save u : Iam N Unit) :=
  endsWithin_op (.saveUser u)

theorem endsWithin_update (i : UserId) (p : UserPatch) :
    EndsWithin 1 (update (.uuid i) p : Iam N Unit) := endsWithin_op (.updateUser i p)

theorem endsWithin_findById (i : UserId) : EndsWithin 1 (findById (.uuid i) : Iam N (Option User)) :=
  endsWithin_op (.findUser _)

theorem endsWithin_log (action : String) (i : Option UserId) (ip device : String) (success : Bool) :
    EndsWithin 2 (log env action i ip device success) :=
  (endsWithin_op (.insertAuditLog _)).bind fun _ => endsWithin_op (.logSecurity _)

theorem endsWithin_generateAccessToken (i : UserId) (email : String) :
    EndsWithin 1 (generateAccessToken env i email) :=
  endsWithin_now.bind fun _ => endsWithin_ret 0 _

theorem endsWithin_generateRefreshToken (i : UserId) : EndsWithin 3 (generateRefreshToken env i) :=
  endsWithin_draw.bind fun _ => endsWithin_draw.bind fun _ => endsWithin_now.bind fun _ => endsWithin_ret 0 _

theorem endsWithin_generateTokens (i : UserId) (email : String) :
    EndsWithin 4 (generateTokens env i email) :=
  (endsWithin_generateAccessToken i email).bind fun _ =>
    (endsWithin_generateRefreshToken i).bind fun _ => endsWithin_ret 0 _

theorem endsWithin_generateToken : EndsWithin 4 (generateToken env) :=
  endsWithin_draw.bind fun _ => endsWithin_draw.bind fun _ => endsWithin_draw.bind fun _ =>
    endsWithin_draw.bind fun _ => endsWithin_ret 0 _

theorem endsWithin_createRefreshToken (i : UserId) (device ip : String) :
    EndsWithin 7 (createRefreshToken env i device ip) :=
  endsWithin_generateToken.bind fun _ => endsWithin_draw.bind fun _ => endsWithin_now.bind fun _ =>
    (endsWithin_op (.insertSession ..)).bind fun _ => endsWithin_ret 0 _

theorem endsWithin_orThrow (v : Option α) : EndsWithin 0 (orThrow v : Iam N α) := by
  cases v with
  | none => exact endsWithin_throw 0 _
  | some a => exact endsWithin_ret 0 a

theorem endsWithin_compare (data : JsonField N) (hash : String) :
    EndsWithin 1 (compare data hash) := by
  rcases data with _ | (_ | _ | _ | s | _ | _)
  case some.str => exact endsWithin_op (Op.bcryptCompare s hash)
  all_goals exact endsWithin_throw 1 _

theorem endsWithin_isLocked (lock : Option Time) : EndsWithin 1 (isLocked lock : Iam N Bool) := by
  cases lock with
  | none => exact endsWithin_ret 1 _
  | some l => exact endsWithin_now.bind fun _ => endsWithin_ret 0 _

theorem endsWithin_incrementFailedAttempts (u : User) :
    EndsWithin 2 (incrementFailedAttempts u : Iam N Unit) := by
  rw [incrementFailedAttempts]
  simp only
  split
  · exact endsWithin_now.bind fun _ => endsWithin_save _
  · exact (endsWithin_save _).mono (by omega)

theorem endsWithin_completeLogin (u : User) (ip device : String) :
    EndsWithin 14 (completeLogin env u ip device) := by
  rw [completeLogin]
  refine EndsWithin.bind (endsWithin_save _ : EndsWithin 1 (resetFailedAttempts u)) fun _ => ?_
  cases u.mfaEnabled with
  | true =>
    refine EndsWithin.mono (m := 5) ?_ (by omega)
    exact endsWithin_draw.bind fun _ => endsWithin_now.bind fun _ =>
      (endsWithin_update u.id _).bind fun _ => (endsWithin_log _ _ _ _ _).bind fun _ =>
        endsWithin_ret 0 _
  | false =>
    exact (endsWithin_generateAccessToken _ _).bind fun _ =>
      (endsWithin_generateRefreshToken _).bind fun _ =>
        (endsWithin_createRefreshToken _ _ _).bind fun _ =>
          (endsWithin_log _ _ _ _ _).bind fun _ => endsWithin_ret 0 _

theorem endsWithin_login (dto : LoginDto N) (ip device : String) :
    EndsWithin 17 (login env dto ip device) := by
  rw [login]
  have hfind : EndsWithin 1 (findByEmail env dto.email) := endsWithin_op (.findUser _)
  refine hfind.bind fun row => ?_
  cases row with
  | none =>
    refine EndsWithin.mono (m := 2) ?_ (by omega)
    exact (endsWithin_log _ _ _ _ _).bind fun _ => endsWithin_throw 0 _
  | some u =>
    refine (endsWithin_isLocked _).bind fun locked => ?_
    cases locked with
    | true =>
      refine EndsWithin.mono (m := 2) ?_ (by omega)
      exact (endsWithin_log _ _ _ _ _).bind fun _ => endsWithin_throw 0 _
    | false =>
      refine (endsWithin_compare _ _).bind fun valid => ?_
      cases valid with
      | true => exact endsWithin_completeLogin u ip device
      | false =>
        refine EndsWithin.mono (m := 4) ?_ (by omega)
        exact (endsWithin_incrementFailedAttempts u).bind fun _ =>
          (endsWithin_log _ _ _ _ _).bind fun _ => endsWithin_throw 0 _

theorem endsWithin_isMfaLocked (i : UserId) : EndsWithin 2 (isMfaLocked (.uuid i) : Iam N Bool) := by
  refine (endsWithin_findById i).bind fun row => ?_
  cases row with
  | none => exact endsWithin_ret 1 _
  | some u =>
    cases hl : u.mfaLockedUntil with
    | none =>
      simp only [hl]
      exact endsWithin_ret 1 _
    | some l =>
      simp only [hl]
      exact endsWithin_now.bind fun _ => endsWithin_ret 0 _

theorem endsWithin_incrementMfaFailedAttempts (i : UserId) :
    EndsWithin 3 (incrementMfaFailedAttempts (.uuid i) : Iam N Unit) := by
  refine (endsWithin_findById i).bind fun row => ?_
  cases row with
  | none => exact endsWithin_ret 2 _
  | some u =>
    simp only
    split
    · exact endsWithin_now.bind fun _ => endsWithin_save _
    · exact (endsWithin_save _).mono (by omega)

theorem endsWithin_commit {i : UserId} {commit : Iam N Unit} (h : CommitStep env i commit) :
    EndsWithin 2 commit := by
  rcases h with rfl | ⟨codes, rfl⟩
  · exact endsWithin_ret 2 _
  · exact (endsWithin_draw.bind fun _ => endsWithin_ret 0 _).bind fun _ => endsWithin_update i _

theorem endsWithin_completeVerification (u : User) {commit : Iam N Unit}
    (h : EndsWithin 2 commit) : EndsWithin 9 (completeVerification env u commit) :=
  (endsWithin_update u.id _).bind fun _ => h.bind fun _ =>
    (endsWithin_now.bind fun _ => endsWithin_update u.id _).bind fun _ =>
      (endsWithin_generateTokens _ _).bind fun _ => endsWithin_ret 0 _

theorem endsWithin_verifyFactor {token : JsonField N} {refusal : String}
    {check : User → Iam N (Option (Iam N Unit))} (hcheck : ∀ u, EndsWithin 1 (check u))
    (hquiet : ∀ u, QuietCheck env u.id (check u)) :
    EndsWithin 14 (verifyFactor env token refusal check) := by
  rw [verifyFactor]
  have hfind : EndsWithin 1 (findByMfaTempToken env token) := endsWithin_op (.findUser _)
  refine hfind.bind fun row => ?_
  cases row with
  | none => exact endsWithin_ret 13 _
  | some u =>
    refine endsWithin_now.bind fun t => ?_
    split
    · exact endsWithin_ret 12 _
    · refine (endsWithin_isMfaLocked u.id).bind fun locked => ?_
      cases locked with
      | true => exact endsWithin_ret 10 _
      | false =>
        refine (hcheck u).bind_of (hquiet u) fun result hresult => ?_
        cases result with
        | none =>
          refine EndsWithin.mono (m := 3) ?_ (by omega)
          exact (endsWithin_incrementMfaFailedAttempts u.id).bind fun _ => endsWithin_ret 0 _
        | some commit =>
          exact endsWithin_completeVerification u (endsWithin_commit (hresult commit rfl))

theorem endsWithin_validateBackupCode [JsNumber N] [DecidableEq N] (u : User) (code : JsonField N) :
    EndsWithin 1 (validateBackupCode env u.mfaBackupCodes code) := by
  rcases code with _ | (_ | _ | _ | input | _ | _)
  case some.str =>
    rw [validateBackupCode]
    cases (parseBackupCodes u.mfaBackupCodes : Json N) with
    | arr cs =>
      refine endsWithin_now.bind fun t => ?_
      rcases markFirst (env.toUpperCase input) (env.toISOString t) cs with _ | _ | cs'
      · exact endsWithin_throw 0 _
      · exact endsWithin_ret 0 _
      · exact endsWithin_ret 0 _
    | _ => exact endsWithin_throw 1 _
  all_goals exact endsWithin_throw 1 _

theorem endsWithin_plainCheck {valid : Iam N Bool} (h : EndsWithin 1 valid) :
    EndsWithin 1 (plainCheck valid) := h.bind fun _ => endsWithin_ret 0 _

variable [JsNumber N] [DecidableEq N]

theorem endsWithin_verification {r : Request N} {token : JsonField N}
    (hp : presented r.route = some token) : EndsWithin 14 (handle env r) := by
  rw [handle]
  cases hr : r.route with
  | verify token' code =>
    refine endsWithin_verifyFactor (fun u => endsWithin_plainCheck ?_) (quietCheck_totp code)
    refine EndsWithin.bind (m := 0) ?_ fun s => ?_
    · exact (endsWithin_orThrow _).bind fun _ => endsWithin_orThrow _
    · exact (endsWithin_op (.totpVerify s code)).bind fun _ => endsWithin_orThrow _
  | verifyBackup token' code =>
    refine endsWithin_verifyFactor (fun u => ?_) (quietCheck_backup code)
    exact (endsWithin_validateBackupCode u code).bind fun _ => endsWithin_ret 0 _
  | verifyBiometric token' device =>
    refine endsWithin_verifyFactor (fun u => endsWithin_plainCheck ?_) (quietCheck_biometric device)
    refine (endsWithin_findById u.id).bind fun row => ?_
    cases row with
    | none => exact endsWithin_ret 0 _
    | some v => exact endsWithin_ret 0 _
  | _ =>
    rw [hr] at hp
    cases hp

end Turns

section Together

/-- The times the clock shows. -/
def Shown (w : World) (sched : List (Turn Time)) (t : Time) : Prop :=
  t = w.clock ∨ .outside t ∈ sched

variable [JsNumber N] [DecidableEq N]

/-- A secured request among requests that do not name the user. -/
theorem certain_completes {w : World} {rs : List (Request N)} {sched : List (Turn Time)} {k n : ℕ}
    {r : Request N} {R : Except Failure Reply → Prop} (hk : rs[k]? = some r)
    (hsec : Certain env u c T R (handle env r)) (hn : EndsWithin n (handle env r))
    (hw : Holding env u c T w) (hticks : ∀ t, .outside t ∈ sched → T t)
    (hothers : ∀ j r', j ≠ k → rs[j]? = some r' → Unnamed env r' u)
    (hturns : n ≤ sched.count (.thread k)) :
    (∃ reply, (together env w rs sched).threads[k]? = some (.ret reply) ∧ R (.ok reply)) ∨
      ∃ e, (together env w rs sched).threads[k]? = some (.throw e) ∧ R (.error e) := by
  let start : Pool (Res N) Failure Reply World Time := Pool.start (rs.map (handle env)) w
  have hthread : start.threads[k]? = some (handle env r) := by simp [start, Pool.start, hk]
  refine secured_exec (P := SparesBoth u c) (fun _ _ hw ho => holding_exec hw ho)
    (fun _ _ ho => ho _) ?_ hthread hn hsec hw ?_ hturns
  · intro t w ht hw
    exact ⟨hw.row, hw.only, hticks t ht, hw.new⟩
  · intro j p hj hp
    obtain ⟨r', hr', rfl⟩ : ∃ r', rs[j]? = some r' ∧ handle env r' = p := by
      simpa [start, Pool.start] using hp
    exact under_unnamed (hothers j r' hj hr')

/-- The right password of a user who is not locked out logs the user in, whatever requests
that do not name the user run in between. -/
theorem login_completes (env : Env N) (w : World) (rs : List (Request N)) (sched : List (Turn Time))
    (k : ℕ) (r : Request N) (hk : rs[k]? = some r) (dto : LoginDto N) (hr : r.route = .login dto)
    (u : User) (hu : w.users.get? u.id = some u) (he : criterion env dto.email = some u.email)
    (honly : ∀ v ∈ w.users.rows, v.email = u.email → v.id = u.id) (s : String)
    (hs : dto.password = some (.str s)) (hc : env.bcryptCompare s u.passwordHash = true)
    (hlock : ∀ t, Shown w sched t → ∀ l, u.lockedUntil = some l → l ≤ t)
    (hothers : ∀ j r', j ≠ k → rs[j]? = some r' → Unnamed env r' u)
    (hturns : 17 ≤ sched.count (.thread k)) :
    ∃ reply, (together env w rs sched).threads[k]? = some (.ret reply) ∧
      Welcomes u (.ok reply) := by
  let T : Time → Prop := fun t => ∀ l, u.lockedUntil = some l → l ≤ t
  have hm : (UserWhere.email (criterion env dto.email)).matches u = true := by
    simp [UserWhere.matches, he]
  have hw : Holding env u (.email (criterion env dto.email)) T w := by
    refine ⟨hu, fun v hv hmv => honly v hv ?_, hlock _ (.inl rfl), fun n hn => by simp⟩
    simpa [UserWhere.matches, he] using hmv
  have hsec : Certain env u (.email (criterion env dto.email)) T (Welcomes u) (handle env r) := by
    rw [handle, hr]
    exact certain_login hs hc (fun t ht => ht) hm _ _
  have hn : EndsWithin 17 (handle env r) := by
    rw [handle, hr]
    exact endsWithin_login _ _ _
  rcases certain_completes hk hsec hn hw (fun t ht => hlock t (.inr ht)) hothers hturns with
    hret | ⟨e, -, hwelcomes⟩
  · exact hret
  · rw [Welcomes] at hwelcomes
    split at hwelcomes
    · obtain ⟨_, he⟩ := hwelcomes
      cases he
    · obtain ⟨_, he, -⟩ := hwelcomes
      cases he

/-- A live temporary token with a factor that passes is answered with tokens where MFA is not
locked, whatever requests that do not name the user run in between. -/
theorem verification_completes (env : Env N) (w : World) (rs : List (Request N))
    (sched : List (Turn Time)) (k : ℕ) (r : Request N) (hk : rs[k]? = some r) (token : JsonField N)
    (hp : presented r.route = some token) (u : User) (hu : w.users.get? u.id = some u)
    (tempToken : String) (htoken : criterion env token = some tempToken)
    (hheld : u.mfaTempToken = some tempToken)
    (honly : ∀ v ∈ w.users.rows, v.mfaTempToken = some tempToken → v.id = u.id)
    (hnew : ∀ n, w.drawn ≤ n → env.randomHex n 32 ≠ tempToken)
    (hready : ∀ t, Shown w sched t → FactorReady env u r.route t)
    (hothers : ∀ j r', j ≠ k → rs[j]? = some r' → Unnamed env r' u)
    (hturns : 14 ≤ sched.count (.thread k)) :
    ∃ t, (together env w rs sched).threads[k]? = some (.ret (.verified t)) ∧
      TokensFor u.id t := by
  have hm : (UserWhere.mfaTempToken (criterion env token)).matches u = true := by
    simp [UserWhere.matches, htoken, hheld]
  have hw : Holding env u (.mfaTempToken (criterion env token)) (FactorReady env u r.route) w := by
    refine ⟨hu, fun v hv hmv => honly v hv ?_, hready _ (.inl rfl), fun n hn => ?_⟩
    · simpa [UserWhere.matches, htoken] using hmv
    · simpa [htoken] using (hnew n hn).symm
  have hsec : Certain env u (.mfaTempToken (criterion env token)) (FactorReady env u r.route)
      (Verifies u) (handle env r) := certain_verification hp (fun t ht => ht) hm
  rcases certain_completes hk hsec (endsWithin_verification hp) hw
    (fun t ht => hready t (.inr ht)) hothers hturns with ⟨_, hret, t, he, ht⟩ | ⟨e, -, t, he, -⟩
  · cases he
    exact ⟨t, hret, ht⟩
  · cases he

end Together

/-- Beto logs in and sets MFA up beside Ana. -/
def besideBeto (r : Request ℕ) : List (Request ℕ) := r :: betoRequests

def inTurns : List (Turn Time) := (List.replicate 17 [.thread 0, .thread 1, .thread 2]).flatten

def anaLogin : Request ℕ := anaRequest (.login ⟨some (.str "ana@verde.ec"), some (.str "clave")⟩)

theorem unnamed_besideBeto {u : User} (hid : u.id = 1) (he : u.email = "ana@verde.ec")
    {r : Request ℕ} {j : ℕ} {r' : Request ℕ} (hj : j ≠ 0) (hr' : (besideBeto r)[j]? = some r') :
    Unnamed anaEnv r' u := by
  cases j with
  | zero => exact absurd rfl hj
  | succ j => exact unnamed_betoRequests hid he r' (List.mem_of_getElem? hr')

theorem login_completes_anaLogin :
    ∃ reply, (together anaEnv anaAndBeto (besideBeto anaLogin) inTurns).threads[0]? =
      some (.ret reply) ∧ Welcomes ana (.ok reply) := by
  refine login_completes anaEnv anaAndBeto _ _ 0 anaLogin rfl _ rfl ana rfl rfl ?_ "clave" rfl
    (by decide) ?_ ?_ (by decide)
  · decide
  · rintro t - l ⟨⟩
  · intro j r' hj hr'
    exact unnamed_besideBeto rfl rfl hj hr'

/-- Ana between her password and her second factor. -/
def waitingAna : User := { ana with mfaTempToken := some "t", mfaTempTokenExpires := some 9 }

def waitingWorld : World := { anaAndBeto with users := anaAndBeto.users.put waitingAna }

def anaCode : Request ℕ := anaRequest (.verify (some (.str "t")) (some (.str "000007")))

theorem verification_completes_anaCode :
    ∃ t, (together anaEnv waitingWorld (besideBeto anaCode) inTurns).threads[0]? =
      some (.ret (.verified t)) ∧ TokensFor 1 t := by
  have hticks : ∀ t, Turn.outside t ∉ inTurns := by simp [inTurns]
  refine verification_completes anaEnv waitingWorld _ _ 0 anaCode rfl _ rfl waitingAna rfl "t" rfl
    rfl (by decide) ?_ ?_ ?_ (by decide)
  · intro n _ he
    have hdigits : decimal n = ['t'] := String.ofList_injective he
    have hread := readDecimal_decimal n
    rw [hdigits] at hread
    cases hread
  · rintro t (rfl | ht)
    · exact ⟨by decide, by decide, by decide⟩
    · exact absurd ht (hticks t)
  · intro j r' hj hr'
    exact unnamed_besideBeto rfl rfl hj hr'

end VerdeAuth.CertainReplies
