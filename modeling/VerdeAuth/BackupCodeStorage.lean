import VerdeAuth.IamAssumptions
import VerdeAuth.RequestRuns

/-!
# Backup codes from their setup on

What the codes handed out by a setup should be good for, and why they never are:
the column holds a ciphertext, and its readers parse it as it is.
-/

namespace VerdeAuth.BackupCodeStorage

open JsonTexts KeyedTables IamTables IamOperations ResumptionPrograms UsersService TokenServices
open MfaServices AuthService MfaController IamEndpoints IamRules IamAssumptions UserRowChanges
open RequestEndings RequestRuns

variable {N : Type} [JsNumber N] [DecidableEq N] {env : Env N} {w : World} {r : Request N}
  {u : User} {i : UserId}

/-- `getStatus` reports the number of codes left. -/
def StatusReports (env : Env N) (w : World) (i : UserId) (remaining : ℕ) : Prop :=
  ∃ lastVerified, ((getStatus (.uuid i) : Iam N Reply).run (exec env) w).1 =
    .ok (.status true remaining lastVerified)

/-- A request to use a code of the user, with a valid unexpired temporary token
while MFA is not locked. -/
def Attempts (w : World) (q : Timed N) (i : UserId) (code : String) : Prop :=
  ∃ token u, q.2.route = .verifyBackup (some (.str token)) (some (.str code)) ∧
    w.findUser (.mfaTempToken (some token)) = some u ∧ u.id = i ∧
    q.1 ≤ u.mfaTempTokenExpires.getD 0 ∧ lockedAt q.1 u.mfaLockedUntil = false

def ReturnsTokens (env : Env N) (w : World) (q : Timed N) : Prop :=
  ∃ tokens, (serve env q.1 q.2 w).1 = .ok (.verified tokens)

/-- What becomes of the used codes: a code that was handed out and is not used yet
is accepted, in any letter case, and every other text is refused. -/
inductive AttemptOk (env : Env N) (i : UserId) (codes used : List String) (w : World)
    (q : Timed N) : List String → Prop
  | accepted {code} (h : Attempts w q i code) (hc : env.toUpperCase code ∈ codes)
      (hu : env.toUpperCase code ∉ used) (ht : ReturnsTokens env w q) :
      AttemptOk env i codes used w q (env.toUpperCase code :: used)
  | refused {code} (h : Attempts w q i code)
      (hc : env.toUpperCase code ∉ codes ∨ env.toUpperCase code ∈ used)
      (ht : ¬ ReturnsTokens env w q) : AttemptOk env i codes used w q used
  | other (h : ∀ code, ¬ Attempts w q i code) : AttemptOk env i codes used w q used

/-- Along the requests each code works exactly once, and the status reports at
every point how many are left. -/
def CodesOk (env : Env N) (i : UserId) (codes : List String) :
    List String → World → List (Timed N) → Prop
  | used, w, [] => StatusReports env w i (codes.length - used.length)
  | used, w, q :: qs => StatusReports env w i (codes.length - used.length) ∧
      ∃ used', AttemptOk env i codes used w q used' ∧
        CodesOk env i codes used' (serve env q.1 q.2 w).2 qs

theorem statusReports_of_codesOk {codes used : List String} {qs : List (Timed N)}
    (h : CodesOk env i codes used w qs) :
    StatusReports env w i (codes.length - used.length) := by
  cases qs with
  | nil => exact h
  | cons q qs => exact h.1

omit [JsNumber N] [DecidableEq N] in
theorem length_drawnCodes (env : Env N) (k n : ℕ) : (drawnCodes env k n).length = n := by
  induction n generalizing k with
  | zero => rfl
  | succ n ih => rw [drawnCodes, List.length_cons, ih]

/-- The reply hands out eight codes, and the row holds them encrypted. -/
def CodesStored (env : Env N) (w : World) (i : UserId) (res : Except Failure Reply) (w' : World) :
    Prop :=
  ∀ codes, res = .ok (.backupCodes codes) → codes.length = codeCount ∧
    ∃ u iv s, w.users.get? i = some u ∧
      w'.users = w.users.put (mfaEnabledWith (env.encrypt iv s) u)

omit [DecidableEq N] in
theorem codes_of_verifySetup {code : JsonField N} (hi : r.userId = .uuid i) :
    (verifySetup env r.userId code).Holds (exec env) (fun _ => True) (CodesStored env w i) w := by
  rw [verifySetup]
  refine holds_requireUser_bind r.userId _ trivial (fun _ _ h => by cases h) fun u hrow => ?_
  obtain ⟨rfl, hu⟩ := hrow i hi
  refine holds_decryptSecret_bind _ _ trivial (fun _ _ h => by cases h) fun s _ => ?_
  refine holds_verifyTotp_bind s code _ trivial (fun _ _ h => by cases h) fun b _ => ?_
  cases b with
  | false => exact ⟨trivial, fun _ h => by cases h⟩
  | true =>
    refine holds_generateCodes_bind codeCount _ (fun _ => trivial) ?_
    refine holds_encrypt_bind _ _ trivial ?_
    rw [hi]
    refine holds_update_bind u.id _ _ trivial ⟨trivial, fun codes hcodes => ?_⟩
    cases hcodes
    exact ⟨length_drawnCodes env _ _, u, _, _, hu, users_update hu _⟩

theorem run_getStatus (hu : w.users.get? i = some u) (hm : u.mfaEnabled = true)
    {n : ℕ} (hn : countRemainingCodes (N := N) u.mfaBackupCodes = some n) :
    ((getStatus (.uuid i) : Iam N Reply).run (exec env) w).1 =
      .ok (.status true n u.mfaLastVerified) := by
  have hfind : w.findUser (.id (some i)) = some u := hu
  simp [getStatus, requireUser, findById, orThrow, exec, hfind, hm, hn]

omit [DecidableEq N] in
/-- The readers of the column take a ciphertext for an empty list. -/
theorem parse_ciphertext (h : CiphertextsNotJson env) (iv : ℕ) (s : String) :
    (parseBackupCodes (some (env.encrypt iv s)) : Json N) = .arr [] := by
  rw [parseBackupCodes, h iv s]
  rfl

theorem countRemainingCodes_ciphertext (h : CiphertextsNotJson env) {stored : Option String}
    {iv : ℕ} {s : String} (hc : stored = some (env.encrypt iv s)) :
    countRemainingCodes (N := N) stored = some 0 := by
  rw [hc, countRemainingCodes, parse_ciphertext h]
  rfl

theorem statusReports_zero (h : CiphertextsNotJson env) (hu : w.users.get? i = some u)
    (hm : u.mfaEnabled = true) {iv : ℕ} {s : String}
    (hc : u.mfaBackupCodes = some (env.encrypt iv s)) {remaining : ℕ}
    (hs : StatusReports env w i remaining) : remaining = 0 := by
  obtain ⟨lastVerified, hreply⟩ := hs
  rw [run_getStatus hu hm (countRemainingCodes_ciphertext h hc)] at hreply
  cases hreply
  rfl

/-- No codes a setup hands out are ever good, whatever is requested afterwards. -/
theorem no_codes_ok (env : Env N) (hjson : CiphertextsNotJson env) (w : World) (t : Time)
    (r : Request N) (i : UserId) (hi : r.userId = .uuid i) (code : JsonField N)
    (hr : r.route = .verifySetup code) (codes : List String)
    (hok : (serve env t r w).1 = .ok (.backupCodes codes)) (qs : List (Timed N)) :
    ¬ CodesOk env i codes [] (serve env t r w).2 qs := by
  intro hcodes
  have hrun : (handle env r).Holds (exec env) (fun _ => True) (CodesStored env w i)
      { w with clock := t } := by
    rw [handle, hr, guarded]
    refine holds_quiet_bind (quiet_verifyToken _ _) (fun _ _ => trivial)
      (fun _ _ _ _ h => by cases h) fun payload w' hs => ?_
    cases payload with
    | none => exact ⟨trivial, fun _ h => by cases h⟩
    | some payload =>
      have hstored : CodesStored env w' i = CodesStored env w i := by
        unfold CodesStored
        rw [hs.1]
      exact hstored ▸ codes_of_verifySetup hi
  obtain ⟨hlength, u, iv, s, hu, hput⟩ := hrun.final codes hok
  have hid : u.id = i := Table.key_of_get? hu
  have hrow : (serve env t r w).2.users.get? i = some (mfaEnabledWith (env.encrypt iv s) u) := by
    have husers : (serve env t r w).2.users =
        w.users.put (mfaEnabledWith (env.encrypt iv s) u) := hput
    rw [husers, ← hid]
    exact Table.get?_put_self w.users (mfaEnabledWith (env.encrypt iv s) u)
  have hzero := statusReports_zero hjson hrow rfl rfl (statusReports_of_codesOk hcodes)
  rw [hlength] at hzero
  exact absurd hzero (by decide)

/-- Ana confirms her setup with a right code. -/
def anaVerifySetup : Request ℕ := anaRequest (.verifySetup (some (.str "000007")))

def anaCodes : List String := ["2", "3", "4", "5", "6", "7", "8", "9"]

/-- She is handed eight codes, and none of them is left. -/
theorem no_code_left : Decrypts anaEnv ∧ CiphertextsNotJson anaEnv ∧ anaCodes.Nodup ∧
    (serve anaEnv 1000 anaVerifySetup anaWorld).1 = .ok (.backupCodes anaCodes) ∧
    ((getStatus (.uuid ana.id) : Iam ℕ Reply).run (exec anaEnv)
      (serve anaEnv 1000 anaVerifySetup anaWorld).2).1 = .ok (.status true 0 none) ∧
    ¬ CodesOk anaEnv ana.id anaCodes [] (serve anaEnv 1000 anaVerifySetup anaWorld).2 [] := by
  have hstatus : ((getStatus (.uuid ana.id) : Iam ℕ Reply).run (exec anaEnv)
      (serve anaEnv 1000 anaVerifySetup anaWorld).2).1 = .ok (.status true 0 none) := by
    have hrow : (serve anaEnv 1000 anaVerifySetup anaWorld).2.users.get? ana.id =
        some (enabledRow (N := ℕ) anaEnv anaWorld ana) := by rfl
    exact run_getStatus hrow rfl
      (countRemainingCodes_ciphertext (ciphertextsNotJson_plainEnv [anaPayload]) rfl)
  refine ⟨decrypts_plainEnv _, ciphertextsNotJson_plainEnv _, by decide, by rfl, hstatus, ?_⟩
  rintro ⟨lastVerified, hreply⟩
  have habsurd := hstatus.symm.trans hreply
  cases habsurd

/-- She signs in and uses the first of them. -/
def anaUsesCode : List (Timed ℕ) :=
  [(2000, ⟨.login ⟨some (.str "ana@verde.ec"), some (.str "clave")⟩, .undefined, none, none, "::1"⟩),
    (3000, ⟨.verifyBackup (some (.str "11")) (some (.str "2")), .undefined, none, none, "::1"⟩)]

theorem no_codes_ok_ana :
    ¬ CodesOk anaEnv ana.id anaCodes [] (serve anaEnv 1000 anaVerifySetup anaWorld).2 anaUsesCode :=
  no_codes_ok anaEnv (ciphertextsNotJson_plainEnv _) anaWorld 1000 anaVerifySetup ana.id rfl _ rfl
    anaCodes rfl anaUsesCode

end VerdeAuth.BackupCodeStorage
