import Mathlib.Data.List.Forall2
import VerdeAuth.IamAssumptions
import VerdeAuth.JsonRoundTrip

/-!
# Presenting backup codes to a stored list

The stored list is parsed, searched, marked and written again for every code that
is presented. On the records this is spending the first unused one of a code, so a
code is accepted as often as the list has unused records of it.
-/

namespace VerdeAuth.BackupCodeRuns

open JsonTexts IamTables IamOperations ResumptionPrograms MfaServices IamAssumptions

variable {N : Type}

/-- A `Date`, as `JSON.stringify` writes it. -/
inductive StoredDate where
  | valid (iso : String)
  | invalid
  deriving DecidableEq

structure BackupCode where
  code : String
  used : Bool
  usedAt : Option StoredDate
  deriving DecidableEq

def StoredDate.json : StoredDate → Json N
  | .valid iso => .str iso
  | .invalid => .null

def BackupCode.json (r : BackupCode) : Json N :=
  .obj ([("code", .str r.code), ("used", .bool r.used)] ++
    (r.usedAt.map fun d => ("usedAt", d.json)).toList)

/-! Spending records -/

/-- The record is unused and has the code. -/
def BackupCode.opens (x : String) (r : BackupCode) : Bool := r.code = x && !r.used

def BackupCode.spent (iso : String) (r : BackupCode) : BackupCode :=
  { r with used := true, usedAt := some (.valid iso) }

/-- Spend the first unused record of a code, if there is one. -/
def spend (x iso : String) : List BackupCode → Option (List BackupCode)
  | [] => none
  | r :: rs => if r.opens x then some (r.spent iso :: rs) else (spend x iso rs).map (r :: ·)

/-- What may become of a record: it keeps its code, and a used one keeps all it has. -/
def Kept (r r' : BackupCode) : Prop := r'.code = r.code ∧ (r.used = true → r' = r)

theorem Kept.refl (r : BackupCode) : Kept r r := ⟨rfl, fun _ => rfl⟩

theorem Kept.trans {r r' r'' : BackupCode} (h : Kept r r') (h' : Kept r' r'') : Kept r r'' := by
  constructor
  · exact h'.1.trans h.1
  · intro hused
    have hsame := h.2 hused
    rw [h'.2 (hsame ▸ hused), hsame]

theorem kept_trans {L L' L'' : List BackupCode} (h : List.Forall₂ Kept L L')
    (h' : List.Forall₂ Kept L' L'') : List.Forall₂ Kept L L'' := by
  induction h generalizing L'' with
  | nil => exact h'
  | cons hr _ ih =>
    cases h' with
    | cons hr' hrest => exact .cons (hr.trans hr') (ih hrest)

section Spending

variable {x iso : String} {L L' : List BackupCode}

theorem spend_kept (h : spend x iso L = some L') : List.Forall₂ Kept L L' := by
  induction L generalizing L' with
  | nil => cases h
  | cons r rs ih =>
    rw [spend] at h
    split at h
    · next hopens =>
      cases h
      simp only [BackupCode.opens, Bool.and_eq_true, Bool.not_eq_true'] at hopens
      refine .cons ⟨rfl, fun hused => ?_⟩ (List.forall₂_same.mpr fun r' _ => .refl r')
      rw [hopens.2] at hused
      cases hused
    · obtain ⟨rs', hrs', rfl⟩ := Option.map_eq_some_iff.mp h
      exact .cons (.refl r) (ih hrs')

theorem spend_none (h : spend x iso L = none) : L.countP (·.opens x) = 0 := by
  induction L with
  | nil => rfl
  | cons r rs ih =>
    rw [spend] at h
    split at h
    · cases h
    · next hopens =>
      rw [List.countP_cons_of_neg hopens, ih (Option.map_eq_none_iff.mp h)]

/-- One unused record of the code less, and as many of every other one. -/
theorem spend_opens (h : spend x iso L = some L') (y : String) :
    L.countP (·.opens y) = L'.countP (·.opens y) + if x = y then 1 else 0 := by
  induction L generalizing L' with
  | nil => cases h
  | cons r rs ih =>
    rw [spend] at h
    split at h
    · next hopens =>
      cases h
      simp only [BackupCode.opens, Bool.and_eq_true, decide_eq_true_eq, Bool.not_eq_true'] at hopens
      have hspent : (r.spent iso).opens y = false := by simp [BackupCode.opens, BackupCode.spent]
      have hopens' : r.opens y = decide (x = y) := by simp [BackupCode.opens, hopens.1, hopens.2]
      rw [List.countP_cons, List.countP_cons, hspent, hopens']
      simp
    · obtain ⟨rs', hrs', rfl⟩ := Option.map_eq_some_iff.mp h
      have hrest := ih hrs'
      rw [List.countP_cons, List.countP_cons, hrest]
      omega

theorem spend_unused (h : spend x iso L = some L') :
    L.countP (!·.used) = L'.countP (!·.used) + 1 := by
  induction L generalizing L' with
  | nil => cases h
  | cons r rs ih =>
    rw [spend] at h
    split at h
    · next hopens =>
      cases h
      simp only [BackupCode.opens, Bool.and_eq_true, Bool.not_eq_true'] at hopens
      simp [BackupCode.spent, hopens.2]
    · obtain ⟨rs', hrs', rfl⟩ := Option.map_eq_some_iff.mp h
      have hrest := ih hrs'
      rw [List.countP_cons, List.countP_cons, hrest]
      omega

end Spending

/-- Present a code at a time: the answer and the records it leaves. -/
def presentTo (env : Env N) (L : List BackupCode) (q : Time × String) : Bool × List BackupCode :=
  match spend (env.toUpperCase q.2) (env.toISOString q.1) L with
  | none => (false, L)
  | some L' => (true, L')

def presentAllTo (env : Env N) : List BackupCode → List (Time × String) →
    List Bool × List BackupCode
  | L, [] => ([], L)
  | L, q :: qs =>
    let rest := presentAllTo env (presentTo env L q).2 qs
    ((presentTo env L q).1 :: rest.1, rest.2)

/-- The number of inputs presented that equal a string up to case. -/
def presentedCount (env : Env N) (x : String) (qs : List (Time × String)) : ℕ :=
  qs.countP fun q => env.toUpperCase q.2 = env.toUpperCase x

/-- The number of those that were accepted. -/
def acceptedCount (env : Env N) (x : String) (qs : List (Time × String)) (answers : List Bool) :
    ℕ :=
  (qs.zip answers).countP fun p => env.toUpperCase p.1.2 = env.toUpperCase x && p.2

section Runs

variable {env : Env N}

theorem presentTo_kept (env : Env N) (L : List BackupCode) (q : Time × String) :
    List.Forall₂ Kept L (presentTo env L q).2 := by
  rw [presentTo]
  cases h : spend (env.toUpperCase q.2) (env.toISOString q.1) L with
  | none => exact List.forall₂_same.mpr fun r _ => .refl r
  | some L' => exact spend_kept h

theorem presentAllTo_kept (env : Env N) (L : List BackupCode) (qs : List (Time × String)) :
    List.Forall₂ Kept L (presentAllTo env L qs).2 := by
  induction qs generalizing L with
  | nil => exact List.forall₂_same.mpr fun r _ => .refl r
  | cons q qs ih => exact kept_trans (presentTo_kept env L q) (ih _)

theorem presentAllTo_length (env : Env N) (L : List BackupCode) (qs : List (Time × String)) :
    (presentAllTo env L qs).1.length = qs.length := by
  induction qs generalizing L with
  | nil => rfl
  | cons q qs ih => exact congrArg (· + 1) (ih _)

/-- A code is accepted as often as it is presented, while unused records are left. -/
theorem acceptedCount_eq (env : Env N) (x : String) (L : List BackupCode)
    (qs : List (Time × String)) :
    acceptedCount env x qs (presentAllTo env L qs).1 =
      min (presentedCount env x qs) (L.countP (·.opens (env.toUpperCase x))) := by
  induction qs generalizing L with
  | nil => simp [acceptedCount, presentedCount]
  | cons q qs ih =>
    have hrest := ih (presentTo env L q).2
    have haccepted : acceptedCount env x (q :: qs) (presentAllTo env L (q :: qs)).1 =
        acceptedCount env x qs (presentAllTo env (presentTo env L q).2 qs).1 +
          if env.toUpperCase q.2 = env.toUpperCase x ∧ (presentTo env L q).1 = true then 1
          else 0 := by
      simp [acceptedCount, presentAllTo, List.countP_cons]
    have hpresented : presentedCount env x (q :: qs) = presentedCount env x qs +
        if env.toUpperCase q.2 = env.toUpperCase x then 1 else 0 := by
      simp [presentedCount, List.countP_cons]
    rw [haccepted, hrest, hpresented, presentTo]
    cases h : spend (env.toUpperCase q.2) (env.toISOString q.1) L with
    | none =>
      by_cases hx : env.toUpperCase q.2 = env.toUpperCase x
      · have hzero := spend_none h
        rw [hx] at hzero
        simp [hzero]
      · simp [hx]
    | some L' =>
      rw [spend_opens h (env.toUpperCase x)]
      by_cases hx : env.toUpperCase q.2 = env.toUpperCase x
      · simp [hx]
      · simp [hx]

end Runs

/-! The stored list -/

/-- The list as the column holds it. -/
def stored (N : Type) [JsNumber N] (L : List BackupCode) : String :=
  stringifyBackupCodes (.arr (L.map BackupCode.json) : Json N)

theorem wf_storedDate (d : StoredDate) : (d.json : Json N).Wf := by
  cases d <;> trivial

theorem wf_json (r : BackupCode) : (r.json : Json N).Wf := by
  have hcode : arrayIndex "code" = none := by decide
  have hused : arrayIndex "used" = none := by decide
  have husedAt : arrayIndex "usedAt" = none := by decide
  rcases r with ⟨code, used, _ | d⟩
  · constructor
    · apply ordered_of_names
      · simp
      · simp [hcode, hused]
    · exact ⟨trivial, trivial, trivial⟩
  · constructor
    · apply ordered_of_names
      · simp
      · simp [hcode, hused, husedAt]
    · exact ⟨trivial, trivial, wf_storedDate d, trivial⟩

theorem wfElems_json (L : List BackupCode) : Json.WfElems (L.map (BackupCode.json (N := N))) := by
  rw [Json.wfElems_iff]
  intro v hv
  obtain ⟨r, -, rfl⟩ := List.mem_map.mp hv
  exact wf_json r

section Stored

variable [JsNumber N] [DecidableEq N]

omit [DecidableEq N] in
theorem parse_stored (L : List BackupCode) :
    (parseBackupCodes (some (stored N L)) : Json N) = .arr (L.map BackupCode.json) := by
  rw [parseBackupCodes, stored, stringifyBackupCodes, String.toList_ofList,
    parseText_text (.arr (L.map BackupCode.json)) (wfElems_json L)]
  rfl

theorem isUnusedCode_json (x : String) (r : BackupCode) :
    isUnusedCode x (r.json : Json N) = some (r.opens x) := by
  simp [isUnusedCode, BackupCode.json, BackupCode.opens, Json.get?, Json.strictEq, Json.truthy]

theorem unused_json (r : BackupCode) : unused (r.json : Json N) = some !r.used := by
  simp [unused, BackupCode.json, Json.get?, Json.truthy]

omit [JsNumber N] [DecidableEq N] in
theorem markUsed_json (iso : String) (r : BackupCode) :
    markUsed iso (r.json : Json N) = (r.spent iso).json := by
  rcases r with ⟨code, used, _ | d⟩
  · rfl
  · rfl

theorem markFirst_json (x iso : String) (L : List BackupCode) :
    markFirst x iso (L.map (BackupCode.json (N := N))) =
      some ((spend x iso L).map fun L' => L'.map BackupCode.json) := by
  induction L with
  | nil => rfl
  | cons r rs ih =>
    rw [List.map_cons, markFirst, isUnusedCode_json, spend]
    cases r.opens x with
    | true => simp [markUsed_json]
    | false => simp [ih, Function.comp_def]

theorem countUnused_json (L : List BackupCode) :
    countUnused (L.map (BackupCode.json (N := N))) = some (L.countP (!·.used)) := by
  induction L with
  | nil => rfl
  | cons r rs ih =>
    rw [List.map_cons, countUnused, unused_json, ih, List.countP_cons]
    cases r.used <;> rfl

theorem countRemainingCodes_stored (L : List BackupCode) :
    countRemainingCodes (N := N) (some (stored N L)) = some (L.countP (!·.used)) := by
  rw [countRemainingCodes, parse_stored]
  exact countUnused_json L

theorem run_validateBackupCode {env : Env N} {w : World} {column : Option String}
    {input : String} {cs : List (Json N)} (h : parseBackupCodes column = .arr cs) :
    ((validateBackupCode env column (some (.str input))).run (exec env) w).1 =
      match markFirst (env.toUpperCase input) (env.toISOString w.clock) cs with
      | none => .error .internal
      | some none => .ok ⟨false, .arr cs⟩
      | some (some cs') => .ok ⟨true, .arr cs'⟩ := by
  rw [validateBackupCode, h]
  simp only [now, Prog.run_bind, Prog.run_perform, Prog.andThen, exec]
  rcases markFirst (env.toUpperCase input) (env.toISOString w.clock) cs with _ | _ | cs'
  · rfl
  · rfl
  · rfl

/-- What validating an input at a time against a stored list gives. -/
def validated (env : Env N) (s : String) (q : Time × String) :
    Except Failure (BackupValidation N) :=
  ((validateBackupCode env (some s) (some (.str q.2))).run (exec env)
    { World.empty with clock := q.1 }).1

/-- The inputs one after another, each against the list the one before left. -/
def present (env : Env N) : String → List (Time × String) → Except Failure (List Bool × String)
  | s, [] => .ok ([], s)
  | s, q :: qs => do
    let v ← validated env s q
    let rest ← present env (stringifyBackupCodes v.remainingCodes) qs
    return (v.valid :: rest.1, rest.2)

theorem validated_stored (env : Env N) (L : List BackupCode) (q : Time × String) :
    validated env (stored N L) q = .ok ⟨(presentTo env L q).1,
      .arr ((presentTo env L q).2.map BackupCode.json)⟩ := by
  rw [validated, run_validateBackupCode (parse_stored L), markFirst_json, presentTo]
  cases spend (env.toUpperCase q.2) (env.toISOString q.1) L with
  | none => rfl
  | some L' => rfl

theorem present_stored (env : Env N) (L : List BackupCode) (qs : List (Time × String)) :
    present env (stored N L) qs =
      .ok ((presentAllTo env L qs).1, stored N (presentAllTo env L qs).2) := by
  induction qs generalizing L with
  | nil => rfl
  | cons q qs ih =>
    have hrest := ih (presentTo env L q).2
    rw [stored] at hrest
    rw [present, validated_stored]
    simp only [Except.bind, bind]
    rw [hrest]
    rfl

/-- Presenting one more input: an accepted one uses up one code, a refused one leaves
the list as it is, and the records are kept. -/
def StepCounted (env : Env N) (L : List BackupCode) (q : Time × String) : Prop :=
  ∃ v L', validated env (stored N L) q = .ok v ∧
    stringifyBackupCodes v.remainingCodes = stored N L' ∧ List.Forall₂ Kept L L' ∧
    (v.valid = true → ∃ n, countRemainingCodes (N := N) (some (stored N L)) = some (n + 1) ∧
      countRemainingCodes (N := N) (some (stored N L')) = some n) ∧
    (v.valid = false → stored N L' = stored N L)

theorem stepCounted (env : Env N) (L : List BackupCode) (q : Time × String) :
    StepCounted env L q := by
  refine ⟨_, (presentTo env L q).2, validated_stored env L q, rfl, presentTo_kept env L q, ?_, ?_⟩
  · intro hvalid
    rw [presentTo] at hvalid ⊢
    cases h : spend (env.toUpperCase q.2) (env.toISOString q.1) L with
    | none =>
      rw [h] at hvalid
      cases hvalid
    | some L' =>
      refine ⟨L'.countP (!·.used), ?_, countRemainingCodes_stored L'⟩
      rw [countRemainingCodes_stored, spend_unused h]
  · intro hvalid
    rw [presentTo] at hvalid ⊢
    cases h : spend (env.toUpperCase q.2) (env.toISOString q.1) L with
    | none => rfl
    | some L' =>
      rw [h] at hvalid
      cases hvalid

/-- Every code is accepted as often as it is presented and has unused records, and what
is stored stays a list of the same codes. -/
theorem presented_codes_accounted (env : Env N) (L : List BackupCode)
    (qs : List (Time × String)) : ∃ answers L',
    present env (stored N L) qs = .ok (answers, stored N L') ∧
    answers.length = qs.length ∧
    (∀ x, acceptedCount env x qs answers =
      min (presentedCount env x qs) (L.countP (·.opens (env.toUpperCase x)))) ∧
    List.Forall₂ Kept L L' ∧ ∀ q, StepCounted env L' q := by
  refine ⟨_, _, present_stored env L qs, presentAllTo_length env L qs, ?_, ?_, ?_⟩
  · intro x
    exact acceptedCount_eq env x L qs
  · exact presentAllTo_kept env L qs
  · intro q
    exact stepCounted env _ q

/-- A code that is stored twice is accepted twice. -/
example : (presentAllTo (plainEnv []) [⟨"A1", false, none⟩, ⟨"A1", false, none⟩]
    [(1, "a1"), (2, "A1"), (3, "a1")]).1 = [true, true, false] := by
  decide

end Stored

end VerdeAuth.BackupCodeRuns
