import VerdeAuth.InterleavedPools
import VerdeAuth.RequestRuns

/-!
# Operations a request asks for

Handlers that take the user from the header look at and change only that row.
Only logins and refused factors save a whole row.
-/

namespace VerdeAuth.RequestFootprints

open JsonTexts KeyedTables IamTables IamOperations ResumptionPrograms InterleavedPools UsersService
open TokenServices MfaServices AuthService MfaController IamEndpoints IamRules UserRowChanges
open RequestRuns

variable {N : Type} {env : Env N} {i : IdParam}

/-- The operations of a handler that takes the user from the header. -/
def HeaderOp (i : IdParam) : Op N → Prop
  | .findUser (.id none) => i = .undefined
  | .findUser (.id (some j)) => i = .uuid j
  | .updateUser j _ => i = .uuid j
  | .now => True
  | .draw => True
  | .bcryptCompare _ _ => True
  | .totpVerify _ _ => True
  | _ => False

def HeaderOnly {α : Type} (i : IdParam) (p : Iam N α) : Prop :=
  Prog.Every (HeaderOp i) (fun _ => True) p

theorem HeaderOnly.bind {α β : Type} {p : Iam N α} {f : α → Iam N β} (hp : HeaderOnly i p)
    (hf : ∀ a, HeaderOnly i (f a)) : HeaderOnly i (p >>= f) := Prog.Every.seq hp hf

theorem headerOnly_ret {α : Type} (a : α) : HeaderOnly i (.ret a : Iam N α) := trivial

theorem headerOnly_throw {α : Type} (e : Failure) : HeaderOnly i (.throw e : Iam N α) := trivial

theorem headerOnly_perform (o : Op N) (ho : HeaderOp i o) :
    HeaderOnly i (Prog.perform o : Iam N _) := ⟨ho, fun _ => trivial⟩

theorem headerOnly_orThrow {α : Type} (v : Option α) : HeaderOnly i (orThrow v : Iam N α) := by
  cases v with
  | none => exact headerOnly_throw _
  | some a => exact headerOnly_ret a

theorem headerOnly_decryptSecret (secret : Option String) :
    HeaderOnly i (decryptSecret env secret) :=
  (headerOnly_orThrow secret).bind fun _ => headerOnly_orThrow _

theorem headerOnly_verifyTotp (secret : String) (code : JsonField N) :
    HeaderOnly i (verifyTotp secret code) :=
  (headerOnly_perform (.totpVerify secret code) trivial).bind fun _ => headerOnly_orThrow _

theorem headerOnly_compare (data : JsonField N) (hash : String) :
    HeaderOnly i (compare data hash) := by
  rcases data with _ | (_ | _ | _ | s | _ | _)
  case some.str => exact headerOnly_perform (.bcryptCompare s hash) trivial
  all_goals exact headerOnly_throw _

theorem headerOnly_encrypt (s : String) : HeaderOnly i (encrypt env s) :=
  (headerOnly_perform .draw trivial).bind fun _ => headerOnly_ret _

theorem headerOnly_generateCodes (n : ℕ) : HeaderOnly i (generateCodes env n) := by
  induction n with
  | zero => exact headerOnly_ret _
  | succ n ih =>
    exact (headerOnly_perform .draw trivial).bind fun _ => ih.bind fun _ => headerOnly_ret _

theorem headerOnly_update (p : UserPatch) : HeaderOnly i (update i p : Iam N Unit) := by
  cases i with
  | uuid j => exact headerOnly_perform (.updateUser j p) rfl
  | _ => exact headerOnly_throw _

theorem headerOnly_requireUser : HeaderOnly i (requireUser i : Iam N User) := by
  refine HeaderOnly.bind ?_ headerOnly_orThrow
  cases i with
  | undefined => exact headerOnly_perform (.findUser (.id none)) rfl
  | invalid => exact headerOnly_throw _
  | uuid j => exact headerOnly_perform (.findUser (.id (some j))) rfl

theorem headerOnly_guarded (authorization : Option String) {handler : Iam N Reply}
    (h : HeaderOnly i handler) : HeaderOnly i (guarded env authorization handler) := by
  have hverify : ∀ token : JsonField N, HeaderOnly i (verifyAccessToken env token) := by
    intro token
    rcases token with _ | (_ | _ | _ | s | _ | _)
    case some.str => exact (headerOnly_perform .now trivial).bind fun _ => headerOnly_ret _
    all_goals exact headerOnly_ret _
  refine (hverify _).bind fun payload => ?_
  cases payload with
  | none => exact headerOnly_throw _
  | some payload => exact h

theorem headerOnly_setup : HeaderOnly i (setup env i) :=
  headerOnly_requireUser.bind fun _ =>
    ((headerOnly_perform .draw trivial).bind fun _ => headerOnly_ret _).bind fun _ =>
      (headerOnly_encrypt _).bind fun _ => (headerOnly_update _).bind fun _ => headerOnly_ret _

theorem headerOnly_disable (password code : JsonField N) :
    HeaderOnly i (disable env i password code) := by
  refine headerOnly_requireUser.bind fun u => (headerOnly_compare _ _).bind fun right => ?_
  cases right with
  | false => exact headerOnly_ret _
  | true =>
    refine (headerOnly_decryptSecret _).bind fun s => ?_
    refine (headerOnly_verifyTotp s code).bind fun valid => ?_
    cases valid with
    | false => exact headerOnly_ret _
    | true => exact (headerOnly_update _).bind fun _ => headerOnly_ret _

theorem headerOnly_enableBiometric (device : JsonField N) :
    HeaderOnly i (MfaController.enableBiometric env i device) := by
  refine headerOnly_requireUser.bind fun u => ?_
  cases u.mfaEnabled with
  | false => exact headerOnly_ret _
  | true => exact (headerOnly_update _).bind fun _ => headerOnly_ret _

section Json

variable [JsNumber N]

theorem headerOnly_verifySetup (code : JsonField N) : HeaderOnly i (verifySetup env i code) := by
  refine headerOnly_requireUser.bind fun u => (headerOnly_decryptSecret _).bind fun s => ?_
  refine (headerOnly_verifyTotp s code).bind fun valid => ?_
  cases valid with
  | false => exact headerOnly_ret _
  | true =>
    refine (headerOnly_generateCodes _).bind fun codes => (headerOnly_encrypt _).bind fun c => ?_
    exact (headerOnly_update _).bind fun _ => headerOnly_ret _

theorem headerOnly_getStatus [DecidableEq N] : HeaderOnly i (getStatus i : Iam N Reply) := by
  refine headerOnly_requireUser.bind fun u => ?_
  cases u.mfaEnabled with
  | false => exact headerOnly_ret _
  | true => exact (headerOnly_orThrow _).bind fun _ => headerOnly_ret _

/-- The five endpoints behind the guard. -/
inductive GuardedRoute : Route N → Prop
  | verifySetup (code : JsonField N) : GuardedRoute (.verifySetup code)
  | disable (password code : JsonField N) : GuardedRoute (.disable password code)
  | status : GuardedRoute .status
  | enableBiometric (device : JsonField N) : GuardedRoute (.enableBiometric device)
  | disableBiometric : GuardedRoute .disableBiometric

theorem headerOnly_handle [DecidableEq N] {r : Request N} (hr : GuardedRoute r.route) :
    HeaderOnly r.userId (handle env r) := by
  rw [handle]
  cases hroute : r.route with
  | verifySetup code => exact headerOnly_guarded _ (headerOnly_verifySetup code)
  | disable password code => exact headerOnly_guarded _ (headerOnly_disable password code)
  | status => exact headerOnly_guarded _ headerOnly_getStatus
  | enableBiometric device => exact headerOnly_guarded _ (headerOnly_enableBiometric device)
  | disableBiometric =>
    exact headerOnly_guarded _ ((headerOnly_update _).bind fun _ => headerOnly_ret _)
  | _ =>
    rw [hroute] at hr
    cases hr

end Json

/-- Operations other than whole-row saves. -/
def NotSave : Op N → Prop
  | .saveUser _ => False
  | _ => True

def NoSave {α : Type} (p : Iam N α) : Prop := Prog.Every NotSave (fun _ => True) p

theorem NoSave.bind {α β : Type} {p : Iam N α} {f : α → Iam N β} (hp : NoSave p)
    (hf : ∀ a, NoSave (f a)) : NoSave (p >>= f) := Prog.Every.seq hp hf

theorem noSave_ret {α : Type} (a : α) : NoSave (.ret a : Iam N α) := trivial

theorem noSave_throw {α : Type} (e : Failure) : NoSave (.throw e : Iam N α) := trivial

theorem notSave_of_keepsUsers {o : Op N} (h : KeepsUsers o) : NotSave o := by
  cases o <;> trivial

theorem noSave_of_quiet {α : Type} {p : Iam N α} (hp : Quiet p) : NoSave p :=
  Prog.Every.mono hp (fun _ => notSave_of_keepsUsers) fun _ _ => trivial

theorem noSave_of_headerOnly {α : Type} {p : Iam N α} (hp : HeaderOnly i p) : NoSave p := by
  refine Prog.Every.mono hp (fun o ho => ?_) fun _ _ => trivial
  cases o <;> trivial

theorem noSave_update (i : IdParam) (p : UserPatch) : NoSave (update i p : Iam N Unit) :=
  noSave_of_headerOnly (headerOnly_update p)

theorem noSave_adminUpdate [JsNumber N] (email : JsonField N) (p : UserPatch) (done : String) :
    NoSave (adminUpdate env email p done) := by
  have hfind : NoSave (findByEmail env email) := ⟨trivial, fun _ => trivial⟩
  refine hfind.bind fun u => ?_
  cases u with
  | none => exact noSave_ret _
  | some u =>
    refine (noSave_update _ p).bind fun _ => NoSave.bind ?_ fun _ => noSave_ret _
    cases Json.templateText email with
    | none => exact noSave_throw _
    | some text => exact noSave_ret text

/-- Operations that write no row but one and leave its temporary token alone. -/
def SparesToken (j : UserId) : Op N → Prop
  | .insertUser _ _ => False
  | .saveUser _ => False
  | .updateUser k p => k = j ∧ p.mfaTempToken = none
  | _ => True

def Sparing {α : Type} (j : UserId) (p : Iam N α) : Prop :=
  Prog.Every (SparesToken j) (fun _ => True) p

theorem sparing_update (j : UserId) {p : UserPatch} (hp : p.mfaTempToken = none) :
    Sparing j (update (.uuid j) p : Iam N Unit) := ⟨⟨rfl, hp⟩, fun _ => trivial⟩

theorem sparesToken_of_keepsUsers {j : UserId} {o : Op N} (h : KeepsUsers o) : SparesToken j o := by
  cases o <;> trivial

theorem noSave_of_sparing {α : Type} {j : UserId} {p : Iam N α} (hp : Sparing j p) : NoSave p := by
  refine Prog.Every.mono hp (fun o ho => ?_) fun _ _ => trivial
  cases o <;> trivial

section Factors

/-- What an accepted factor has yet to write. -/
def CommitStep (env : Env N) (j : UserId) (commit : Iam N Unit) : Prop :=
  commit = .ret () ∨
    ∃ codes, commit = encrypt env codes >>= fun c => updateBackupCodes (.uuid j) c

/-- A check of a factor that writes no user row. -/
def QuietCheck (env : Env N) (j : UserId) (p : Iam N (Option (Iam N Unit))) : Prop :=
  Prog.Every KeepsUsers (fun res => ∀ commit, res = .ok (some commit) → CommitStep env j commit) p

/-- A check of a factor writes no user row, and what it leaves to write spares the token. -/
def CalmCheck (j : UserId) (p : Iam N (Option (Iam N Unit))) : Prop :=
  Prog.Every KeepsUsers (fun res => ∀ commit, res = .ok (some commit) → Sparing j commit) p

theorem QuietCheck.calm {j : UserId} {p : Iam N (Option (Iam N Unit))} (h : QuietCheck env j p) :
    CalmCheck j p := by
  apply Prog.Every.mono h (fun _ ho => ho)
  intro res hres commit hcommit
  rcases hres commit hcommit with rfl | ⟨codes, rfl⟩
  · trivial
  · exact ⟨trivial, fun _ => sparing_update j rfl⟩

theorem quiet_of_headerOnly {α : Type} {p : Iam N α} (hp : HeaderOnly .invalid p) : Quiet p := by
  refine Prog.Every.mono hp (fun o ho => ?_) fun _ _ => trivial
  cases o <;> trivial

theorem quiet_isMfaLocked (j : UserId) : Quiet (isMfaLocked (.uuid j) : Iam N Bool) := by
  refine (quiet_findById (.uuid j)).bind fun v => ?_
  cases v with
  | none => exact quiet_ret _
  | some u =>
    cases hl : u.mfaLockedUntil with
    | none =>
      simp only [hl]
      exact quiet_ret _
    | some t =>
      simp only [hl]
      exact quiet_now.bind fun _ => quiet_ret _

theorem quietCheck_plain {j : UserId} {valid : Iam N Bool} (h : Quiet valid) :
    QuietCheck env j (plainCheck valid) := by
  apply (Prog.every_bind valid _).mpr
  apply Prog.Every.mono h (fun _ ho => ho)
  intro res _
  cases res with
  | error e => exact fun _ hcommit => by cases hcommit
  | ok b =>
    intro commit hcommit
    cases b with
    | true =>
      cases hcommit
      exact Or.inl rfl
    | false => cases hcommit

theorem quietCheck_totp (code : JsonField N) (u : User) :
    QuietCheck env u.id (totpCheck env code u) := by
  apply quietCheck_plain
  apply quiet_of_headerOnly
  exact (headerOnly_decryptSecret u.mfaSecret).bind fun s => headerOnly_verifyTotp s code

theorem calmCheck_totp (code : JsonField N) (u : User) :
    CalmCheck u.id (totpCheck env code u) := (quietCheck_totp code u).calm

theorem quietCheck_biometric [DecidableEq N] (device : JsonField N) (u : User) :
    QuietCheck env u.id (biometricCheck device u) := by
  apply quietCheck_plain
  refine (quiet_findById (.uuid u.id)).bind fun v => ?_
  cases v with
  | none => exact quiet_ret _
  | some v => exact quiet_ret _

theorem calmCheck_biometric [DecidableEq N] (env : Env N) (device : JsonField N) (u : User) :
    CalmCheck u.id (biometricCheck device u) :=
  have hquiet : QuietCheck env u.id (biometricCheck device u) := quietCheck_biometric device u
  hquiet.calm

theorem headerOnly_validateBackupCode [JsNumber N] [DecidableEq N] (stored : Option String)
    (code : JsonField N) : HeaderOnly i (validateBackupCode env stored code) := by
  rcases code with _ | (_ | _ | _ | input | _ | _)
  case some.str =>
    rw [validateBackupCode]
    cases (parseBackupCodes stored : Json N) with
    | arr cs =>
      refine (headerOnly_perform .now trivial).bind fun t => ?_
      cases markFirst (env.toUpperCase input) (env.toISOString t) cs with
      | none => exact headerOnly_throw _
      | some marked =>
        cases marked with
        | none => exact headerOnly_ret _
        | some cs => exact headerOnly_ret _
    | _ => exact headerOnly_throw _
  all_goals exact headerOnly_throw _

theorem quietCheck_backup [JsNumber N] [DecidableEq N] (code : JsonField N) (u : User) :
    QuietCheck env u.id (backupCheck env code u) := by
  apply (Prog.every_bind _ _).mpr
  have hquiet : Quiet (validateBackupCode env u.mfaBackupCodes code) :=
    quiet_of_headerOnly (headerOnly_validateBackupCode u.mfaBackupCodes code)
  apply Prog.Every.mono hquiet (fun _ ho => ho)
  intro res _
  cases res with
  | error e => exact fun _ hcommit => by cases hcommit
  | ok validation =>
    intro commit hcommit
    cases hv : validation.valid with
    | true =>
      simp only [hv, if_true] at hcommit
      cases hcommit
      exact Or.inr ⟨_, rfl⟩
    | false =>
      simp only [hv] at hcommit
      cases hcommit

theorem calmCheck_backup [JsNumber N] [DecidableEq N] (code : JsonField N) (u : User) :
    CalmCheck u.id (backupCheck env code u) := (quietCheck_backup code u).calm

theorem noSave_completeVerification {u : User} {commit : Iam N Unit} (h : NoSave commit) :
    NoSave (completeVerification env u commit) := by
  refine (noSave_update _ _).bind fun _ => h.bind fun _ => ?_
  refine ((noSave_of_quiet quiet_now).bind fun t => noSave_update _ _).bind fun _ => ?_
  exact (noSave_of_quiet (quietResult_generateTokens u.id u.email).quiet).bind fun _ =>
    noSave_ret _

end Factors

/-! Requests in a pool -/

/-- The clock moves on between the operations. -/
def tick (t : Time) (w : World) : World := { w with clock := t }

/-- Requests served together, their operations in any order. -/
def together [JsNumber N] [DecidableEq N] (env : Env N) (w : World) (rs : List (Request N))
    (sched : List (Turn Time)) : Pool (Res N) Failure Reply World Time :=
  (Pool.start (rs.map (handle env)) w).exec (exec env) tick sched

end VerdeAuth.RequestFootprints
