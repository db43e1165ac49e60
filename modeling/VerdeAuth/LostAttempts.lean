import Mathlib.Algebra.GroupWithZero.Nat
import VerdeAuth.LostUpdates
import VerdeAuth.StaleWrites

/-!
# Wrong attempts made at the same time

A request counts a wrong attempt by saving one more than the row it read had. All
are counted exactly when no save falls between the last read of another request
and its save.
-/

namespace VerdeAuth.LostAttempts

open JsonTexts KeyedTables IamTables IamOperations ResumptionPrograms InterleavedPools UsersService
open TokenServices MfaServices AuthService MfaController IamEndpoints IamRules IamAssumptions
open UserRowChanges RequestRuns RequestFootprints StaleWrites LostUpdates

variable {N : Type}

/-- The wrong attempts a row counts. -/
def attempts (k : Counter) (u : User) : ℕ :=
  match k with
  | .login => u.failedAttempts
  | .mfa => u.mfaFailedAttempts

/-- The row with one more wrong attempt. -/
def counted (k : Counter) (t : Time) (u : User) : User :=
  match k with
  | .login => attemptFailed t u
  | .mfa => mfaAttemptFailed t u

/-- The query by which a request finds the user whose secret it checks. -/
def selector (env : Env N) : Route N → Option UserWhere
  | .login dto => some (.email (criterion env dto.email))
  | route => (presented route).map fun tempToken => .mfaTempToken (criterion env tempToken)

/-- How a request ends whose secret was checked and is wrong. -/
def wrongEnd : Route N → Option (Iam N Reply)
  | .login _ => some (.throw (.unauthorized "Credenciales inválidas"))
  | .verify _ _ => some (.ret (.message false "Código MFA incorrecto"))
  | .verifyBackup _ _ => some (.ret (.message false "Código de backup inválido"))
  | .verifyBiometric _ _ => some (.ret (.message false "Biométrico no válido para este dispositivo"))
  | _ => none

/-- The request tries a secret of the user and ends because it is wrong. -/
structure WrongTry (env : Env N) (w : World) (k : Counter) (u : User) (r : Request N)
    (p : Iam N Reply) : Prop where
  counter : savedCounter r.route = k
  selected : (selector env r.route).bind w.findUser = some u
  refused : wrongEnd r.route = some p

theorem WrongTry.stops {env : Env N} {w : World} {k : Counter} {u : User} {r : Request N}
    {p : Iam N Reply} (h : WrongTry env w k u r p) (o : Op N) (next : Res N o → Iam N Reply) :
    p ≠ .call o next := by
  rintro rfl
  have hend := h.refused
  cases hroute : r.route <;> rw [hroute] at hend <;> cases hend

/-- Reads and saves of user rows. -/
def access : Event (Res N) Time → List Access
  | .op j (.findUser _) (some _) => [.read j]
  | .op j (.saveUser _) _ => [.write j]
  | _ => []

def accesses (l : List (Event (Res N) Time)) : List Access := l.flatMap access

/-! Rows that differ in the counter only -/

section Rows

variable {k : Counter} {u v e : User}

@[simp] theorem attempts_counted (t : Time) : attempts k (counted k t u) = attempts k u + 1 := by
  cases k <;> rfl

theorem counterSave_refl (k : Counter) (u : User) : CounterSave k u u := by
  cases k <;> rfl

theorem counterSave_counted (h : CounterSave k u v) (t : Time) :
    CounterSave k u (counted k t v) := by
  cases k with
  | login =>
    rw [h]
    rfl
  | mfa =>
    rw [h]
    rfl

theorem matches_of_counterSave (h : CounterSave k u e) (c : UserWhere) :
    c.matches e = c.matches u := by
  cases k with
  | login =>
    rw [h]
    rcases c with (_ | _) | (_ | _) | (_ | _) <;> rfl
  | mfa =>
    rw [h]
    rcases c with (_ | _) | (_ | _) | (_ | _) <;> rfl

/-- A query that selects a row selects the row put in its place. -/
theorem findUser_put {w w' : World} (hw : w'.users = w.users.put e) (h : CounterSave k u e)
    {c : UserWhere} (hc : w.findUser c = some u) : w'.findUser c = some e := by
  rw [World.findUser, hw]
  exact Table.findOne_put hc h.id_eq (matches_of_counterSave h c)

end Rows

/-! What a request does that counts one attempt -/

section Programs

variable {k : Counter} {c : UserWhere} {i : UserId} {wrong : Iam N Reply} {last : Option User}
variable {n : ℕ} {α : Type} {env : Env N}

/-- Look the row up, and save once what was read last with one more attempt. -/
def TryOk (k : Counter) (c : UserWhere) (i : UserId) (last : Option User) (n : ℕ) : Op N → Prop
  | .findUser c' => c' = c ∨ c' = .id (some i)
  | .saveUser e => n = 0 ∧ ∃ u t, last = some u ∧ e = counted k t u
  | .insertUser _ _ => False
  | .updateUser _ _ => False
  | _ => True

/-- The row asked for is there. -/
def Fits (i : UserId) : (o : Op N) → Res N o → Prop
  | .findUser _, v => ∃ u, v = some u ∧ u.id = i
  | _, _ => True

def saves : Op N → ℕ
  | .saveUser _ => 1
  | _ => 0

/-- The program cannot end as given, or it counts one attempt before it does;
`n` counts the saves so far. -/
def CountsOne (k : Counter) (c : UserWhere) (i : UserId) (wrong : Iam N Reply) :
    Option User → ℕ → Iam N Reply → Prop
  | _, n, .ret y => .ret y = wrong → n = 1
  | _, n, .throw e => .throw e = wrong → n = 1
  | last, n, .call o next => (∀ l, ¬ Follows (.call o next) l wrong) ∨
      (TryOk k c i last n o ∧
        ∀ r, Fits i o r → CountsOne k c i wrong (lastRead last o r) (n + saves o) (next r))

theorem countsOne_never {p : Iam N Reply} (h : ∀ l, ¬ Follows p l wrong) :
    CountsOne k c i wrong last n p := by
  cases p with
  | ret y => exact fun he => absurd (he ▸ .nil _) (h [])
  | throw e => exact fun he => absurd (he ▸ .nil _) (h [])
  | call o next => exact Or.inl h

/-- Operations that write no user row and look up no row but the user's by id. -/
def Calm (i : UserId) : Op N → Prop
  | .findUser c => c = .id (some i)
  | o => KeepsUsers o

theorem countsOne_bind {R : Except Failure α → Prop} {p : Iam N α} {f : α → Iam N Reply}
    (hp : Prog.Every (Calm i) R p) (hthrow : ∀ e, .throw e ≠ wrong)
    (hf : ∀ a last, R (.ok a) → CountsOne k c i wrong last n (f a)) :
    CountsOne k c i wrong last n (p >>= f) := by
  induction p generalizing last with
  | ret a => exact hf a last hp
  | throw e => exact fun he => absurd he (hthrow e)
  | call o next ih =>
    have hcalm : Calm i o := hp.1
    have hok : TryOk k c i last n o := by
      cases o with
      | findUser c' => exact Or.inr hcalm
      | insertUser _ _ => exact hcalm.elim
      | updateUser _ _ => exact hcalm.elim
      | saveUser _ => exact hcalm.elim
      | _ => trivial
    have hsaves : saves o = 0 := by
      cases o with
      | saveUser _ => exact hcalm.elim
      | _ => rfl
    refine Or.inr ⟨hok, fun r _ => ?_⟩
    rw [hsaves]
    exact ih r (hp.2 r)

/-- The lock of the row is read off without another read of the row. -/
theorem countsOne_isLocked_bind {lock : Option Time} {f : Bool → Iam N Reply}
    (hf : ∀ b, CountsOne k c i wrong last n (f b)) :
    CountsOne k c i wrong last n (isLocked lock >>= f) := by
  cases lock with
  | none => exact hf false
  | some t => exact Or.inr ⟨trivial, fun _ _ => hf _⟩

theorem countsOne_compare_bind {data : JsonField N} {hash : String} {f : Bool → Iam N Reply}
    (hthrow : .throw .internal ≠ wrong) (hf : ∀ b, CountsOne k c i wrong last n (f b)) :
    CountsOne k c i wrong last n (compare data hash >>= f) := by
  rcases data with _ | (_ | _ | _ | s | _ | _)
  case some.str => exact Or.inr ⟨trivial, fun b _ => hf b⟩
  all_goals exact fun he => absurd he hthrow

theorem countsOne_save_bind {u : User} {t : Time} {f : Unit → Iam N Reply}
    (hf : CountsOne k c i wrong (some u) 1 (f ())) :
    CountsOne k c i wrong (some u) 0 (save (counted k t u) >>= f) :=
  Or.inr ⟨⟨rfl, u, t, rfl, rfl⟩, fun _ _ => hf⟩

theorem countsOne_now_bind {f : Time → Iam N Reply}
    (hf : ∀ t, CountsOne k c i wrong last n (f t)) :
    CountsOne k c i wrong last n (now >>= f) := Or.inr ⟨trivial, fun t _ => hf t⟩

theorem countsOne_incrementFailedAttempts_bind {u : User} {f : Unit → Iam N Reply}
    (hf : CountsOne .login c i wrong (some u) 1 (f ())) :
    CountsOne .login c i wrong (some u) 0 (incrementFailedAttempts u >>= f) := by
  have hcounted : ∀ t, counted .login t u = { u with
      failedAttempts := u.failedAttempts + 1
      lockedUntil := if u.failedAttempts + 1 ≥ 5 then some (t + lockoutMs) else u.lockedUntil } :=
    fun _ => rfl
  by_cases h : u.failedAttempts + 1 ≥ 5
  · simp only [h, if_true] at hcounted
    simp only [incrementFailedAttempts, h, if_true, bind_assoc]
    apply countsOne_now_bind
    intro t
    rw [← hcounted t]
    exact countsOne_save_bind hf
  · simp only [h, if_false] at hcounted
    simp only [incrementFailedAttempts, h, if_false]
    rw [← hcounted 0]
    exact countsOne_save_bind hf

theorem countsOne_incrementMfaFailedAttempts_bind {f : Unit → Iam N Reply}
    (hf : ∀ u, CountsOne .mfa c i wrong (some u) 1 (f ())) :
    CountsOne .mfa c i wrong last 0 (incrementMfaFailedAttempts (.uuid i) >>= f) := by
  refine Or.inr ⟨Or.inr rfl, ?_⟩
  rintro v ⟨u, rfl, -⟩
  have hcounted : ∀ t, counted .mfa t u = { u with
      mfaFailedAttempts := u.mfaFailedAttempts + 1
      mfaLockedUntil :=
        if u.mfaFailedAttempts + 1 ≥ 3 then some (t + lockoutMs) else u.mfaLockedUntil } :=
    fun _ => rfl
  by_cases h : u.mfaFailedAttempts + 1 ≥ 3
  · simp only [h, if_true] at hcounted
    simp only [Prog.bind, h, if_true]
    apply countsOne_now_bind
    intro t
    rw [← hcounted t]
    exact countsOne_save_bind (hf u)
  · simp only [h, if_false] at hcounted
    simp only [Prog.bind, h, if_false]
    rw [← hcounted 0]
    exact countsOne_save_bind (hf u)

/-- A program that never throws. -/
def Succeeds (p : Iam N α) : Prop := Prog.Every (fun _ => True) (fun res => ∃ a, res = .ok a) p

theorem Succeeds.bind {β : Type} {p : Iam N α} {f : α → Iam N β} (hp : Succeeds p)
    (hf : ∀ a, Succeeds (f a)) : Succeeds (p >>= f) := by
  apply (Prog.every_bind p f).mpr
  apply Prog.Every.mono hp (fun _ ho => ho)
  rintro _ ⟨a, rfl⟩
  exact hf a

theorem succeeds_ret (a : α) : Succeeds (.ret a : Iam N α) := ⟨a, rfl⟩

theorem succeeds_of_quietResult {P : α → Prop} {p : Iam N α} (hp : QuietResult P p) :
    Succeeds p := by
  apply Prog.Every.mono hp (fun _ _ => trivial)
  rintro _ ⟨a, rfl, -⟩
  exact ⟨a, rfl⟩

theorem succeeds_completeLogin (u : User) (ip device : String) :
    Succeeds (completeLogin env u ip device) := by
  have hlog : ∀ action, Succeeds (log env action (some u.id) ip device true) :=
    fun action => succeeds_of_quietResult (quietResult_log action (some u.id) ip device true)
  refine ⟨trivial, fun _ => ?_⟩
  change Succeeds (if u.mfaEnabled = true then _ else _)
  split
  · apply (succeeds_of_quietResult quietResult_draw).bind
    intro d
    apply (succeeds_of_quietResult quietResult_now).bind
    intro t
    refine ⟨trivial, fun _ => ?_⟩
    exact (hlog _).bind fun _ => succeeds_ret _
  · apply (succeeds_of_quietResult (quietResult_generateAccessToken u.id u.email)).bind
    intro a
    apply (succeeds_of_quietResult (quietResult_generateRefreshToken u.id)).bind
    intro b
    apply (succeeds_of_quietResult (quietResult_createRefreshToken u.id device ip)).bind
    intro _
    exact (hlog _).bind fun _ => succeeds_ret _

theorem countsOne_login (dto : LoginDto N) (ip device : String) :
    CountsOne .login (.email (criterion env dto.email)) i
      (.throw (.unauthorized "Credenciales inválidas")) none 0 (login env dto ip device) := by
  refine Or.inr ⟨Or.inl rfl, ?_⟩
  rintro v ⟨u, rfl, -⟩
  change CountsOne _ _ _ _ (some u) 0 (isLocked u.lockedUntil >>= _)
  apply countsOne_isLocked_bind
  intro locked
  cases locked with
  | true => exact Or.inr ⟨trivial, fun _ _ => Or.inr ⟨trivial, fun _ _ he => by cases he⟩⟩
  | false =>
    apply countsOne_compare_bind (by rintro ⟨⟩)
    intro valid
    cases valid with
    | true =>
      apply countsOne_never
      intro l hl
      obtain ⟨a, ha⟩ := hl.every (succeeds_completeLogin u ip device)
      cases ha
    | false =>
      apply countsOne_incrementFailedAttempts_bind
      exact Or.inr ⟨trivial, fun _ _ => Or.inr ⟨trivial, fun _ _ _ => rfl⟩⟩

/-- Only the last part of a program gives its value. -/
theorem every_bind_value {β : Type} {P : β → Prop} {p : Iam N α} {f : α → Iam N β}
    (hf : ∀ a, Prog.Every (fun _ => True) (fun res => ∀ b, res = .ok b → P b) (f a)) :
    Prog.Every (fun _ => True) (fun res => ∀ b, res = .ok b → P b) (p >>= f) := by
  induction p with
  | ret a => exact hf a
  | throw e => exact fun b hb => by cases hb
  | call o next ih => exact ⟨trivial, ih⟩

theorem every_completeVerification (u : User) (commit : Iam N Unit) :
    Prog.Every (fun _ => True) (fun res => ∀ y, res = .ok y → ∃ t, y = .verified t)
      (completeVerification env u commit) := by
  apply every_bind_value
  intro _
  apply every_bind_value
  intro _
  apply every_bind_value
  intro _
  apply every_bind_value
  intro t y hy
  cases hy
  exact ⟨t, rfl⟩

theorem calm_of_headerOnly {p : Iam N α} (hp : HeaderOnly .invalid p) :
    Prog.Every (Calm i) (fun _ => True) p := by
  apply Prog.Every.mono hp
  · intro o ho
    cases o with
    | findUser c => rcases c with (_ | _) | _ | _ <;> cases ho
    | updateUser j q => cases ho
    | insertUser _ _ => exact ho
    | saveUser _ => exact ho
    | _ => trivial
  · intro _ _
    trivial

theorem calm_isMfaLocked :
    Prog.Every (Calm i) (fun _ => True) (isMfaLocked (.uuid i) : Iam N Bool) := by
  refine ⟨rfl, fun v => ?_⟩
  cases v with
  | none => trivial
  | some u =>
    cases hl : u.mfaLockedUntil with
    | none =>
      simp only [Prog.bind, hl]
      trivial
    | some t =>
      simp only [Prog.bind, hl]
      exact ⟨trivial, fun _ => trivial⟩

theorem calm_plainCheck {valid : Iam N Bool} (h : Prog.Every (Calm i) (fun _ => True) valid) :
    Prog.Every (Calm i) (fun _ => True) (plainCheck valid) :=
  Prog.Every.seq h fun _ => trivial

theorem countsOne_verifyFactor {tempToken : JsonField N} {refusal : String}
    {check : User → Iam N (Option (Iam N Unit))}
    (hcheck : ∀ u, Prog.Every (Calm u.id) (fun _ => True) (check u))
    (hexpired : "Sesión MFA expirada" ≠ refusal)
    (hlocked : "MFA bloqueado por demasiados intentos fallidos" ≠ refusal) :
    CountsOne .mfa (.mfaTempToken (criterion env tempToken)) i (.ret (.message false refusal))
      none 0 (verifyFactor env tempToken refusal check) := by
  have hthrow : ∀ e, (.throw e : Iam N Reply) ≠ .ret (.message false refusal) := by
    rintro e ⟨⟩
  refine Or.inr ⟨Or.inl rfl, ?_⟩
  rintro v ⟨u, rfl, rfl⟩
  apply countsOne_now_bind
  intro t
  split
  · intro he
    cases he
    exact absurd rfl hexpired
  · apply countsOne_bind calm_isMfaLocked hthrow
    intro locked last _
    cases locked with
    | true =>
      intro he
      cases he
      exact absurd rfl hlocked
    | false =>
      apply countsOne_bind (hcheck u) hthrow
      intro result last _
      cases result with
      | none =>
        apply countsOne_incrementMfaFailedAttempts_bind
        intro _ _
        rfl
      | some commit =>
        apply countsOne_never
        intro l hl
        obtain ⟨t, ht⟩ := hl.every (every_completeVerification u commit) _ rfl
        cases ht

end Programs

section Handlers

variable {env : Env N}

theorem calm_totpCheck (code : JsonField N) (u : User) :
    Prog.Every (Calm u.id) (fun _ => True) (totpCheck env code u) := by
  apply calm_plainCheck
  apply calm_of_headerOnly
  exact (headerOnly_decryptSecret u.mfaSecret).bind fun s => headerOnly_verifyTotp s code

theorem calm_backupCheck [JsNumber N] [DecidableEq N] (code : JsonField N) (u : User) :
    Prog.Every (Calm u.id) (fun _ => True) (backupCheck env code u) := by
  have hvalid : HeaderOnly .invalid (validateBackupCode env u.mfaBackupCodes code) :=
    headerOnly_validateBackupCode u.mfaBackupCodes code
  exact Prog.Every.seq (calm_of_headerOnly hvalid) fun _ => trivial

theorem calm_biometricCheck [DecidableEq N] (device : JsonField N) (u : User) :
    Prog.Every (Calm u.id) (fun _ => True) (biometricCheck device u) := by
  apply calm_plainCheck
  refine ⟨rfl, fun v => ?_⟩
  cases v with
  | none => trivial
  | some v => trivial

/-- A request that tries a wrong secret of the user counts one attempt. -/
theorem countsOne_handle [JsNumber N] [DecidableEq N] {w : World} {k : Counter} {u : User}
    {r : Request N} {p : Iam N Reply} (h : WrongTry env w k u r p) :
    ∃ c, w.findUser c = some u ∧ CountsOne k c u.id p none 0 (handle env r) := by
  obtain ⟨hk, hsel, hp⟩ := h
  rw [handle]
  cases hroute : r.route with
  | login dto =>
    rw [hroute] at hk hsel hp
    cases hk
    cases hp
    exact ⟨_, hsel, countsOne_login dto r.ip r.device⟩
  | verify t code =>
    rw [hroute] at hk hsel hp
    cases hk
    cases hp
    exact ⟨_, hsel, countsOne_verifyFactor (calm_totpCheck code) (by decide) (by decide)⟩
  | verifyBackup t code =>
    rw [hroute] at hk hsel hp
    cases hk
    cases hp
    exact ⟨_, hsel, countsOne_verifyFactor (calm_backupCheck code) (by decide) (by decide)⟩
  | verifyBiometric t d =>
    rw [hroute] at hk hsel hp
    cases hk
    cases hp
    exact ⟨_, hsel, countsOne_verifyFactor (calm_biometricCheck d) (by decide) (by decide)⟩
  | _ =>
    rw [hroute] at hp
    cases hp

end Handlers

/-! The operations of one request -/

section Traces

variable {k : Counter} {c : UserWhere} {i : UserId} {wrong : Iam N Reply} {last : Option User}
variable {n : ℕ} {p : Iam N Reply}

def savesIn (l : List (Exchange (Res N))) : ℕ := (l.map fun x => saves x.1).sum

/-- A request that ends as wrong still has to count what it has not counted. -/
theorem CountsOne.follows {l l' : List (Exchange (Res N))} (hp : CountsOne k c i wrong last n p)
    (hf : Follows p (l ++ l') wrong) (hfits : ∀ x ∈ l, Fits i x.1 x.2) :
    ∃ q, Follows q l' wrong ∧
      CountsOne k c i wrong (lastReads last l) (n + savesIn l) q := by
  induction l generalizing p last n with
  | nil => exact ⟨p, hf, hp⟩
  | cons x l ih =>
    cases hf with
    | cons tail =>
      rcases hp with hnever | ⟨-, hnext⟩
      · exact absurd (.cons tail) (hnever _)
      · have hx := hfits _ List.mem_cons_self
        have hrest := ih (hnext _ hx) tail fun y hy => hfits y (List.mem_cons_of_mem _ hy)
        simpa [savesIn, lastReads, Nat.add_assoc] using hrest

theorem CountsOne.tryOk {l l' : List (Exchange (Res N))} {o : Op N} {r : Res N o}
    (hp : CountsOne k c i wrong last n p) (hf : Follows p (l ++ ⟨o, r⟩ :: l') wrong)
    (hfits : ∀ x ∈ l, Fits i x.1 x.2) : TryOk k c i (lastReads last l) (n + savesIn l) o := by
  obtain ⟨q, hq, hone⟩ := hp.follows hf hfits
  cases hq with
  | cons tail =>
    rcases hone with hnever | ⟨hok, -⟩
    · exact absurd (.cons tail) (hnever _)
    · exact hok

theorem CountsOne.saves_eq {l : List (Exchange (Res N))} (hp : CountsOne k c i wrong last n p)
    (hstop : ∀ o next, wrong ≠ .call o next) (hf : Follows p l wrong)
    (hfits : ∀ x ∈ l, Fits i x.1 x.2) : n + savesIn l = 1 := by
  rw [← List.append_nil l] at hf
  obtain ⟨q, hq, hone⟩ := hp.follows hf hfits
  cases hq
  cases wrong with
  | ret y => exact hone rfl
  | throw e => exact hone rfl
  | call o next => exact absurd rfl (hstop o next)

theorem writesOf_accesses (j : ℕ) (l : List (Event (Res N) Time)) :
    writesOf j (accesses l) = savesIn (own j l) := by
  induction l with
  | nil => rfl
  | cons e l ih =>
    have hcons : accesses (e :: l) = access e ++ accesses l := rfl
    rw [hcons, writesOf_append, ih]
    cases e with
    | outside t => simp [access, writesOf, own]
    | op t o r =>
      have hone : writesOf j (access (.op t o r)) = if t = j then saves o else 0 := by
        cases o with
        | saveUser e => simp [access, writesOf, saves]
        | findUser c => cases r <;> simp [access, writesOf, saves]
        | _ => simp [access, writesOf, saves]
      rw [hone]
      by_cases ht : t = j
      · simp [own, ht, savesIn]
      · simp [own, ht]

theorem lt_of_write_mem {l : List (Event (Res N) Time)} {j : ℕ} (h : .write j ∈ accesses l) :
    ∃ o r, .op j o r ∈ l := by
  obtain ⟨e, he, hmem⟩ := List.mem_flatMap.mp h
  cases e with
  | outside t => simp [access] at hmem
  | op t o r =>
    cases o with
    | saveUser v =>
      simp only [access, List.mem_singleton, Access.write.injEq] at hmem
      subst hmem
      exact ⟨_, _, he⟩
    | findUser c => cases r <;> simp [access] at hmem
    | _ => simp [access] at hmem

end Traces

/-! The row while the requests run -/

section Rows

variable {env : Env N} {w : World} {k : Counter} {u : User} {l : List (Event (Res N) Time)}

/-- The row and what the requests read of it last, as the accesses so far tell. -/
structure Tracked (env : Env N) (w : World) (k : Counter) (u : User)
    (l : List (Event (Res N) Time)) : Prop where
  row : ∃ e, CounterSave k u e ∧ (Pool.replay (exec env) tick w l).users = w.users.put e ∧
    attempts k e = (cellAfter (attempts k u) (accesses l)).value
  copies : ∀ j v, lastReads none (own j l) = some v → CounterSave k u v ∧
    attempts k v = (cellAfter (attempts k u) (accesses l)).copy j ∧ .read j ∈ accesses l
  fits : ∀ j, ∀ x ∈ own j l, Fits u.id x.1 x.2
  reads : ReadsFirst (accesses l)

theorem tracked_nil (hu : w.users.get? u.id = some u) : Tracked env w k u [] := by
  constructor
  · exact ⟨u, counterSave_refl k u, (Table.put_self hu).symm, rfl⟩
  · intro j v hv
    cases hv
  · intro j x hx
    cases hx
  · intro before after i h
    cases before <;> cases h

theorem accesses_append_singleton (l : List (Event (Res N) Time)) (e : Event (Res N) Time) :
    accesses (l ++ [e]) = accesses l ++ access e := by
  simp [accesses]

theorem replay_append_op (l : List (Event (Res N) Time)) (j : ℕ) (o : Op N) (r : Res N o) :
    Pool.replay (exec env) tick w (l ++ [.op j o r]) =
      (exec env o (Pool.replay (exec env) tick w l)).2 := by
  rw [Pool.replay_append]
  rfl

theorem own_append_op (l : List (Event (Res N) Time)) (i j : ℕ) (o : Op N) (r : Res N o) :
    own i (l ++ [.op j o r]) = own i l ++ if j = i then [⟨o, r⟩] else [] := by
  rw [own_append]
  rfl

theorem lastReads_append_singleton (last : Option User) (l : List (Exchange (Res N)))
    (x : Exchange (Res N)) : lastReads last (l ++ [x]) = lastRead (lastReads last l) x.1 x.2 := by
  simp [lastReads]

/-- Events that neither look a row up nor write one. -/
theorem Tracked.other {e : Event (Res N) Time} (h : Tracked env w k u l) (he : access e = [])
    (husers : (Pool.replay (exec env) tick w (l ++ [e])).users =
      (Pool.replay (exec env) tick w l).users)
    (hown : ∀ j, own j (l ++ [e]) = own j l ∨ ∃ o r, own j (l ++ [e]) = own j l ++ [⟨o, r⟩] ∧
      Fits u.id o r ∧ ∀ last, lastRead last o r = last) : Tracked env w k u (l ++ [e]) := by
  have hacc : accesses (l ++ [e]) = accesses l := by
    rw [accesses_append_singleton, he, List.append_nil]
  constructor
  · rw [husers, hacc]
    exact h.row
  · intro j v hv
    rw [hacc]
    apply h.copies j v
    rcases hown j with heq | ⟨o, r, heq, -, hlast⟩
    · rwa [heq] at hv
    · rwa [heq, lastReads_append_singleton, hlast] at hv
  · intro j x hx
    rcases hown j with heq | ⟨o, r, heq, hfits, -⟩
    · exact h.fits j x (heq ▸ hx)
    · rw [heq] at hx
      rcases List.mem_append.mp hx with hx | hx
      · exact h.fits j x hx
      · cases List.mem_singleton.mp hx
        exact hfits
  · rw [hacc]
    exact h.reads

/-- A request looks the row up. -/
theorem Tracked.read {c : UserWhere} (j : ℕ) (h : Tracked env w k u l)
    (hc : w.findUser c = some u) : Tracked env w k u
      (l ++ [.op j (.findUser c) ((Pool.replay (exec env) tick w l).findUser c)]) := by
  obtain ⟨e, he, husers, hvalue⟩ := h.row
  rw [findUser_put husers he hc]
  have hacc : accesses (l ++ [.op j (.findUser c) (some e)]) = accesses l ++ [.read j] :=
    accesses_append_singleton l _
  constructor
  · refine ⟨e, he, ?_, ?_⟩
    · rw [replay_append_op]
      exact husers
    · rw [hacc, cellAfter_append_singleton]
      exact hvalue
  · intro i v hv
    rw [own_append_op] at hv
    rw [hacc, cellAfter_append_singleton]
    by_cases hij : j = i
    · subst hij
      rw [if_pos rfl, lastReads_append_singleton] at hv
      cases hv
      refine ⟨he, ?_, by simp⟩
      rw [hvalue, Cell.copy_step_read_self]
    · rw [if_neg hij, List.append_nil] at hv
      obtain ⟨hv, hcopy, hmem⟩ := h.copies i v hv
      refine ⟨hv, ?_, List.mem_append_left _ hmem⟩
      rw [hcopy, Cell.copy_step_read_of_ne _ (Ne.symm hij)]
  · intro i x hx
    rw [own_append_op] at hx
    rcases List.mem_append.mp hx with hx | hx
    · exact h.fits i x hx
    · split at hx
      · cases List.mem_singleton.mp hx
        exact ⟨e, rfl, he.id_eq⟩
      · cases hx
  · rw [hacc]
    exact readsFirst_append_singleton h.reads fun i hi => by cases hi

/-- A request saves what it read last with one more attempt. -/
theorem Tracked.save {j : ℕ} {v : User} (hu : w.users.get? u.id = some u)
    (h : Tracked env w k u l) (hlast : lastReads none (own j l) = some v) (t : Time) :
    Tracked env w k u (l ++ [.op j (.saveUser (counted k t v)) ()]) := by
  obtain ⟨e, he, husers, -⟩ := h.row
  obtain ⟨hv, hcopy, hmem⟩ := h.copies j v hlast
  have hsaved := counterSave_counted hv t
  have hacc : accesses (l ++ [.op j (.saveUser (counted k t v)) ()]) = accesses l ++ [.write j] :=
    accesses_append_singleton l _
  have hkeep : ∀ i, lastReads none (own i (l ++ [.op j (.saveUser (counted k t v)) ()])) =
      lastReads none (own i l) := by
    intro i
    rw [own_append_op]
    split
    · rw [lastReads_append_singleton]
      rfl
    · rw [List.append_nil]
  constructor
  · refine ⟨counted k t v, hsaved, ?_, ?_⟩
    · rw [replay_append_op]
      change (Pool.replay (exec env) tick w l).users.put (counted k t v) = _
      have hget : w.users.get? e.id = some u := by
        rw [he.id_eq]
        exact hu
      rw [husers, Table.put_put _ (hsaved.id_eq.trans he.id_eq.symm)]
    · rw [hacc, cellAfter_append_singleton, attempts_counted, hcopy]
      rfl
  · intro i v' hv'
    rw [hkeep i] at hv'
    obtain ⟨hv', hcopy', hmem'⟩ := h.copies i v' hv'
    rw [hacc, cellAfter_append_singleton]
    exact ⟨hv', hcopy', List.mem_append_left _ hmem'⟩
  · intro i x hx
    rw [own_append_op] at hx
    rcases List.mem_append.mp hx with hx | hx
    · exact h.fits i x hx
    · split at hx
      · cases List.mem_singleton.mp hx
        trivial
      · cases hx
  · rw [hacc]
    apply readsFirst_append_singleton h.reads
    rintro i ⟨⟩
    exact hmem

/-- One more operation of a request that tries a wrong secret. -/
theorem Tracked.op {c : UserWhere} {j n : ℕ} {o : Op N} (hu : w.users.get? u.id = some u)
    (hc : w.findUser c = some u) (h : Tracked env w k u l)
    (ho : TryOk k c u.id (lastReads none (own j l)) n o) : Tracked env w k u
      (l ++ [.op j o (exec env o (Pool.replay (exec env) tick w l)).1]) := by
  have hplain : ∀ r : Res N o, KeepsUsers o → access (.op j o r) = [] → Fits u.id o r →
      (∀ last, lastRead last o r = last) → Tracked env w k u (l ++ [.op j o r]) := by
    intro r hkeeps haccess hfits hlast
    apply h.other haccess
    · rw [replay_append_op]
      exact (sameUsers_exec env hkeeps _).1
    · intro i
      rw [own_append_op]
      by_cases hij : j = i
      · exact Or.inr ⟨o, r, by rw [if_pos hij], hfits, hlast⟩
      · exact Or.inl (by rw [if_neg hij, List.append_nil])
  cases o with
  | findUser c' =>
    rcases ho with rfl | rfl
    · exact h.read j hc
    · exact h.read j hu
  | saveUser e =>
    obtain ⟨-, v, t, hlast, rfl⟩ := ho
    exact h.save hu hlast t
  | insertUser email hash => exact ho.elim
  | updateUser i q => exact ho.elim
  | _ => exact hplain _ trivial rfl trivial fun _ => rfl

theorem Tracked.tick (h : Tracked env w k u l) (t : Time) :
    Tracked env w k u (l ++ [.outside t]) := by
  apply h.other rfl
  · rw [Pool.replay_append]
    rfl
  · intro j
    exact Or.inl (by simp [own])

end Rows

section Runs

variable [JsNumber N] [DecidableEq N]

/-- Every request of the pool tries a secret of the user and has ended because it is wrong. -/
def AllWrong (env : Env N) (w : World) (k : Counter) (u : User) (rs : List (Request N))
    (c : Pool (Res N) Failure Reply World Time) : Prop :=
  ∀ (j : ℕ) (r : Request N), rs[j]? = some r →
    ∃ p, c.threads[j]? = some p ∧ WrongTry env w k u r p

variable {env : Env N} {w : World} {k : Counter} {u : User} {rs : List (Request N)}
variable {sched : List (Turn Time)}

/-- What a request of the pool has done is what it does to count one attempt. -/
theorem AllWrong.follows (hall : AllWrong env w k u rs (together env w rs sched)) {j : ℕ}
    (hj : j < rs.length) : ∃ r p c, WrongTry env w k u r p ∧ w.findUser c = some u ∧
      CountsOne k c u.id p none 0 (handle env r) ∧
      Follows (handle env r) (own j (together env w rs sched).log) p := by
  have hr : rs[j]? = some rs[j] := List.getElem?_eq_getElem hj
  obtain ⟨p, hp, hwrong⟩ := hall j rs[j] hr
  obtain ⟨c, hc, hone⟩ := countsOne_handle hwrong
  obtain ⟨-, -, hfollow⟩ : _ ∧ _ ∧ ∀ i p, (rs.map (handle env))[i]? = some p →
      ∃ p', (together env w rs sched).threads[i]? = some p' ∧
        Follows p (own i (together env w rs sched).log) p' :=
    Pool.exec_log (rs.map (handle env)) w sched
  obtain ⟨p', hp', hf⟩ := hfollow j (handle env rs[j]) (by rw [List.getElem?_map, hr]; rfl)
  obtain rfl : p' = p := Option.some.inj (hp'.symm.trans hp)
  exact ⟨rs[j], p', c, hwrong, hc, hone, hf⟩

theorem tracked_log (hu : w.users.get? u.id = some u)
    (hall : AllWrong env w k u rs (together env w rs sched)) {l l' : List (Event (Res N) Time)}
    (hlog : (together env w rs sched).log = l ++ l') : Tracked env w k u l := by
  obtain ⟨-, hfaithful, -⟩ :
      _ ∧ Pool.Faithful (exec env) tick w (together env w rs sched).log ∧ _ :=
    Pool.exec_log (rs.map (handle env)) w sched
  induction l using List.reverseRecOn generalizing l' with
  | nil => exact tracked_nil hu
  | append_singleton l e ih =>
    have hsplit : (together env w rs sched).log = l ++ e :: l' := by
      rw [hlog, List.append_assoc]
      rfl
    have hl := ih hsplit
    cases e with
    | outside t => exact hl.tick t
    | op j o r =>
      have hj : j < rs.length := by
        have hmem : .op j o r ∈ (together env w rs sched).log := hsplit ▸ by simp
        have hlt : j < (rs.map (handle env)).length :=
          Pool.thread_lt_of_mem_log (rs.map (handle env)) w sched hmem
        simpa using hlt
      obtain ⟨r', p, c, -, hc, hone, hf⟩ := hall.follows hj
      have hown : own j (together env w rs sched).log = own j l ++ ⟨o, r⟩ :: own j l' := by
        rw [hsplit, own_append]
        simp [own]
      rw [hown] at hf
      rw [hfaithful l j o r l' hsplit]
      exact hl.op hu hc (hone.tryOk hf (hl.fits j))

/-- However the requests run together, each attempt is counted exactly when no save
falls between the last read of another request and its save. -/
theorem attempts_kept_iff (env : Env N) (w : World) (k : Counter) (u : User)
    (rs : List (Request N)) (sched : List (Turn Time)) (hu : w.users.get? u.id = some u)
    (hall : AllWrong env w k u rs (together env w rs sched)) :
    ((together env w rs sched).state.users.get? u.id).map (attempts k) =
        some (attempts k u + rs.length) ↔
      Undisturbed (accesses (together env w rs sched).log) := by
  obtain ⟨hstate, -, -⟩ :
      (together env w rs sched).state =
        Pool.replay (exec env) tick w (together env w rs sched).log ∧ _ ∧ _ :=
    Pool.exec_log (rs.map (handle env)) w sched
  have htracked := tracked_log hu hall (List.append_nil _).symm
  obtain ⟨e, he, husers, hvalue⟩ := htracked.row
  have hget : (together env w rs sched).state.users.get? u.id = some e := by
    rw [hstate, husers, ← he.id_eq]
    exact Table.get?_put_self _ e
  have hbound : ∀ j, .write j ∈ accesses (together env w rs sched).log → j < rs.length := by
    intro j hj
    obtain ⟨o, r, hmem⟩ := lt_of_write_mem hj
    simpa using Pool.thread_lt_of_mem_log (rs.map (handle env)) w sched hmem
  have hone : ∀ j ∈ Finset.range rs.length,
      writesOf j (accesses (together env w rs sched).log) = 1 := by
    intro j hj
    obtain ⟨r, p, c, hwrong, -, hcounts, hf⟩ := hall.follows (Finset.mem_range.mp hj)
    have hsaves := hcounts.saves_eq hwrong.stops hf (htracked.fits j)
    rw [writesOf_accesses]
    simpa using hsaves
  have hwrites : writes (accesses (together env w rs sched).log) = rs.length := by
    rw [writes_eq_sum rs.length hbound, Finset.sum_congr rfl hone]
    simp
  rw [hget, Option.map_some, Option.some_inj, hvalue, ← hwrites]
  exact value_eq_iff (attempts k u) htracked.reads

end Runs

/-- Two wrong passwords of one user, the second looked at after the first is counted. -/
def oneByOne : List (Turn Time) := List.replicate 5 (.thread 0) ++ List.replicate 5 (.thread 1)

/-- Both requests read the row before either saves it. -/
def bothAtOnce : List (Turn Time) := .thread 0 :: .thread 1 :: oneByOne

theorem allWrong_signIn {sched : List (Turn Time)}
    (h : (together anaEnv newcomerWorld [signIn "otra", signIn "mala"] sched).threads =
      List.replicate 2 (.throw (.unauthorized "Credenciales inválidas"))) :
    AllWrong anaEnv newcomerWorld .login newcomer [signIn "otra", signIn "mala"]
      (together anaEnv newcomerWorld [signIn "otra", signIn "mala"] sched) := by
  intro j r hr
  rw [h]
  rcases j with _ | _ | j
  · cases hr
    exact ⟨_, rfl, rfl, rfl, rfl⟩
  · cases hr
    exact ⟨_, rfl, rfl, rfl, rfl⟩
  · cases hr

theorem attempts_kept_iff_newcomer :
    ((together anaEnv newcomerWorld [signIn "otra", signIn "mala"] oneByOne).state.users.get?
      newcomer.id).map (attempts .login) = some 2 ∧
    Undisturbed
      (accesses (together anaEnv newcomerWorld [signIn "otra", signIn "mala"] oneByOne).log) := by
  constructor
  · rfl
  · apply (attempts_kept_iff anaEnv newcomerWorld .login newcomer [signIn "otra", signIn "mala"]
      oneByOne rfl (allWrong_signIn rfl)).mp
    rfl

/-- Two wrong passwords are tried and one is counted. -/
theorem attempt_lost :
    AllWrong anaEnv newcomerWorld .login newcomer [signIn "otra", signIn "mala"]
      (together anaEnv newcomerWorld [signIn "otra", signIn "mala"] bothAtOnce) ∧
    attempts .login newcomer = 0 ∧
    ((together anaEnv newcomerWorld [signIn "otra", signIn "mala"] bothAtOnce).state.users.get?
      newcomer.id).map (attempts .login) = some 1 :=
  ⟨allWrong_signIn rfl, rfl, rfl⟩

end VerdeAuth.LostAttempts
