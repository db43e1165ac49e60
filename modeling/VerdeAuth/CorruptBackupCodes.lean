import VerdeAuth.BackupCodeRuns

/-!
# Corrupt backup codes

`parseBackupCodes` catches the text that is no JSON. Any other JSON goes on to the
search and the count, which fail on what is no list and take what is no record for
one.
-/

namespace VerdeAuth.CorruptBackupCodes

open JsonTexts IamTables IamOperations ResumptionPrograms MfaServices IamAssumptions BackupCodeRuns

variable {N : Type}

/-- What an interface `BackupCode` describes, as JSON. -/
structure IsCodeRecord (c : Json N) : Prop where
  code : ∃ s, c.get? "code" = some (.str s)
  used : ∃ b, c.get? "used" = some (.bool b)
  usedAt : ∀ d, c.get? "usedAt" = some d → d = .null ∨ ∃ iso, d = .str iso

theorem isCodeRecord_json (r : BackupCode) : IsCodeRecord (r.json : Json N) := by
  rcases r with ⟨code, used, _ | _ | _⟩
  · exact ⟨⟨code, rfl⟩, ⟨used, rfl⟩, fun d hd => by cases hd⟩
  · exact ⟨⟨code, rfl⟩, ⟨used, rfl⟩, fun d hd => .inr ⟨_, (Option.some.inj hd).symm⟩⟩
  · exact ⟨⟨code, rfl⟩, ⟨used, rfl⟩, fun d hd => .inl (Option.some.inj hd).symm⟩

variable [JsNumber N]

variable (N) in
/-- The column holds what `stringifyBackupCodes` makes of a list of records. -/
def Stringified (column : Option String) : Prop :=
  ∃ cs : List (Json N), (∀ c ∈ cs, c.Wf ∧ IsCodeRecord c) ∧
    column = some (stringifyBackupCodes (.arr cs))

theorem stringified_stored (L : List BackupCode) : Stringified N (some (stored N L)) := by
  refine ⟨L.map BackupCode.json, fun c hc => ?_, rfl⟩
  obtain ⟨r, -, rfl⟩ := List.mem_map.mp hc
  exact ⟨wf_json r, isCodeRecord_json r⟩

theorem parse_stringified {column : Option String} (h : Stringified N column) :
    ∃ cs : List (Json N), parseBackupCodes column = .arr cs ∧ ∀ c ∈ cs, IsCodeRecord c := by
  obtain ⟨cs, hcs, rfl⟩ := h
  have hwf : (Json.arr cs).Wf := Json.wfElems_iff.mpr fun c hc => (hcs c hc).1
  refine ⟨cs, ?_, fun c hc => (hcs c hc).2⟩
  rw [parseBackupCodes, stringifyBackupCodes, String.toList_ofList, parseText_text _ hwf]
  rfl

variable [DecidableEq N]

section Records

variable {c : Json N} {cs : List (Json N)} {x iso : String}

/-- The record is used up. -/
def Used (c : Json N) : Prop := c.get? "used" = some (.bool true)

theorem unused_record (h : IsCodeRecord c) : ∃ b, unused c = some b ∧ (b = false ↔ Used c) := by
  obtain ⟨b, hb⟩ := h.used
  cases c with
  | obj ps => exact ⟨!b, by simp [unused, hb, Json.truthy], by simp [Used, hb]⟩
  | _ => cases hb

theorem isUnusedCode_record (h : IsCodeRecord c) :
    ∃ b, isUnusedCode x c = some b ∧ (Used c → b = false) := by
  obtain ⟨b, hb⟩ := h.used
  cases c with
  | obj ps =>
    refine ⟨_, rfl, fun hused => ?_⟩
    have htrue : (Json.obj ps).get? "used" = some (.bool true) := hused
    rw [htrue]
    exact Bool.and_false _
  | _ => cases hb

theorem countUnused_records (h : ∀ c ∈ cs, IsCodeRecord c) :
    ∃ n, countUnused cs = some n ∧ (n = 0 ↔ ∀ c ∈ cs, Used c) := by
  induction cs with
  | nil => exact ⟨0, rfl, by simp⟩
  | cons c cs ih =>
    obtain ⟨b, hb, hused⟩ := unused_record (h c List.mem_cons_self)
    obtain ⟨n, hn, hall⟩ := ih fun d hd => h d (List.mem_cons_of_mem c hd)
    refine ⟨if b then n + 1 else n, by rw [countUnused, hb, hn], ?_⟩
    rw [List.forall_mem_cons, ← hused, ← hall]
    cases b <;> simp

theorem markFirst_records (h : ∀ c ∈ cs, IsCodeRecord c) :
    ∃ r, markFirst x iso cs = some r ∧ ((∀ c ∈ cs, Used c) → r = none) := by
  induction cs with
  | nil => exact ⟨none, rfl, fun _ => rfl⟩
  | cons c cs ih =>
    obtain ⟨b, hb, hused⟩ := isUnusedCode_record (x := x) (h c List.mem_cons_self)
    obtain ⟨r, hr, hall⟩ := ih fun d hd => h d (List.mem_cons_of_mem c hd)
    rw [markFirst, hb]
    cases b with
    | true =>
      refine ⟨_, rfl, fun hevery => ?_⟩
      cases hused (hevery c List.mem_cons_self)
    | false =>
      refine ⟨_, by rw [hr]; rfl, fun hevery => ?_⟩
      rw [hall fun d hd => hevery d (List.mem_cons_of_mem c hd)]
      rfl

end Records

variable {env : Env N} {w : World} {column : Option String} {input : String}

/-- The two callers of `parseBackupCodes` get by with a column. -/
structure Handled (env : Env N) (w : World) (column : Option String) (input : String) : Prop where
  parsed : ∃ cs : List (Json N), parseBackupCodes column = .arr cs ∧ ∀ c ∈ cs, IsCodeRecord c
  validated : ∃ v, ((validateBackupCode env column (some (.str input))).run (exec env) w).1 = .ok v ∧
    (¬ Stringified N column → v.valid = false)
  counted : ∃ n, countRemainingCodes (N := N) column = some n ∧ (¬ Stringified N column → n = 0)

/-- No JSON, a list of records as it was stringified, or any list of used ones. -/
inductive Harmless (N : Type) [JsNumber N] : Option String → Prop
  | unparsable {s : String} (h : (parseText s.toList : Option (Json N)) = none) : Harmless N (some s)
  | stringified {column : Option String} (h : Stringified N column) : Harmless N column
  | spent {s : String} {cs : List (Json N)} (h : (parseText s.toList : Option (Json N)) = some (.arr cs))
      (records : ∀ c ∈ cs, IsCodeRecord c) (used : ∀ c ∈ cs, Used c) : Harmless N (some s)

/-- What becomes of a list of records. -/
theorem handled_records {cs : List (Json N)} (h : parseBackupCodes column = .arr cs)
    (hcs : ∀ c ∈ cs, IsCodeRecord c) (hused : ¬ Stringified N column → ∀ c ∈ cs, Used c) :
    Handled env w column input := by
  obtain ⟨n, hn, hzero⟩ := countUnused_records hcs
  obtain ⟨r, hr, hnone⟩ : ∃ r, markFirst (env.toUpperCase input) (env.toISOString w.clock) cs =
      some r ∧ ((∀ c ∈ cs, Used c) → r = none) := markFirst_records hcs
  have hcount : countRemainingCodes (N := N) column = some n := by
    rw [countRemainingCodes, h]
    exact hn
  refine ⟨⟨cs, h, hcs⟩, ?_, ⟨n, hcount, fun hs => hzero.mpr (hused hs)⟩⟩
  rw [run_validateBackupCode h, hr]
  cases r with
  | none => exact ⟨_, rfl, fun _ => rfl⟩
  | some cs' =>
    refine ⟨_, rfl, fun hs => ?_⟩
    cases hnone (hused hs)

theorem harmless_of_handled (h : Handled env w column input) : Harmless N column := by
  obtain ⟨cs, hparse, hcs⟩ := h.parsed
  obtain ⟨n, hcount, hzero⟩ := h.counted
  obtain ⟨m, hm, hused⟩ := countUnused_records hcs
  rw [countRemainingCodes, hparse] at hcount
  obtain rfl : m = n := Option.some.inj (hm.symm.trans hcount)
  by_cases hs : Stringified N column
  · exact .stringified hs
  · cases column with
    | none => cases hparse
    | some s =>
      rw [parseBackupCodes] at hparse
      cases htext : (parseText s.toList : Option (Json N)) with
      | none => exact .unparsable htext
      | some v =>
        rw [htext] at hparse
        obtain rfl : v = .arr cs := hparse
        exact .spent htext hcs (hused.mp (hzero hs))

theorem handled_of_harmless (h : Harmless N column) : Handled env w column input := by
  cases h with
  | @unparsable s h =>
    have hparse : (parseBackupCodes (some s) : Json N) = .arr [] := by
      rw [parseBackupCodes, h]
      rfl
    exact handled_records hparse (by simp) fun _ => by simp
  | stringified h =>
    obtain ⟨cs, hparse, hcs⟩ := parse_stringified h
    exact handled_records hparse hcs fun hs => absurd h hs
  | @spent s cs h records used =>
    have hparse : (parseBackupCodes (some s) : Json N) = .arr cs := by
      rw [parseBackupCodes, h]
      rfl
    exact handled_records hparse records fun _ => used

/-- What the service stores itself is handled. -/
theorem handled_stored (env : Env N) (w : World) (L : List BackupCode) (input : String) :
    Handled env w (some (stored N L)) input :=
  handled_of_harmless (.stringified (stringified_stored L))

/-- Which columns are handled, whatever the input is. -/
theorem handled_iff (env : Env N) (w : World) (column : Option String) (input : String) :
    Handled env w column input ↔ Harmless N column :=
  ⟨harmless_of_handled, handled_of_harmless⟩

section Corrupt

/-- What is no list is neither searched nor counted. -/
theorem throws_of_not_list (h : ∀ cs, (parseBackupCodes column : Json N) ≠ .arr cs) :
    ((validateBackupCode env column (some (.str input))).run (exec env) w).1 = .error .internal ∧
      countRemainingCodes (N := N) column = none := by
  rw [validateBackupCode, countRemainingCodes]
  cases hp : (parseBackupCodes column : Json N) with
  | arr cs => exact absurd hp (h cs)
  | _ => exact ⟨rfl, rfl⟩

/-- A column of `null`, and texts of JSON that is no list. -/
def corrupt : List (Option String) :=
  [none, some "null", some "7", some "true", some "\x7b\x7d"]

theorem corrupt_not_list : ∀ column ∈ corrupt, ∀ cs, (parseBackupCodes column : Json ℕ) ≠ .arr cs := by
  intro column h cs hparse
  simp only [corrupt, List.mem_cons, List.not_mem_nil, or_false] at h
  rcases h with rfl | rfl | rfl | rfl | rfl
  all_goals cases hparse

/-- They throw in both callers, `[null]` throws in the count, and `[1]` counts as one
code. -/
theorem corrupt_columns :
    (∀ column ∈ corrupt,
      ((validateBackupCode (plainEnv []) column (some (.str "ABCD1234"))).run (exec (plainEnv []))
        World.empty).1 = .error .internal ∧ countRemainingCodes (N := ℕ) column = none) ∧
    countRemainingCodes (N := ℕ) (some "[null]") = none ∧
    countRemainingCodes (N := ℕ) (some "[1]") = some 1 ∧
    ∀ column ∈ corrupt ++ [some "[null]", some "[1]"],
      ¬ Handled (plainEnv []) World.empty column "ABCD1234" := by
  have hnull : countRemainingCodes (N := ℕ) (some "[null]") = none := by rfl
  refine ⟨fun column h => throws_of_not_list (corrupt_not_list column h), hnull, by rfl, ?_⟩
  intro column h hhandled
  rcases List.mem_append.mp h with h | h
  · obtain ⟨cs, hcs, -⟩ := hhandled.parsed
    exact corrupt_not_list column h cs hcs
  · simp only [List.mem_cons, List.not_mem_nil, or_false] at h
    rcases h with rfl | rfl
    · obtain ⟨n, hn, -⟩ := hhandled.counted
      cases hnull.symm.trans hn
    · obtain ⟨cs, hcs, hrecords⟩ := hhandled.parsed
      have hparse : (parseBackupCodes (some "[1]") : Json ℕ) = .arr [.num 1] := by rfl
      obtain rfl := Json.arr.inj (hparse.symm.trans hcs)
      obtain ⟨s, hs⟩ := (hrecords (.num 1) List.mem_cons_self).code
      cases hs

end Corrupt

end VerdeAuth.CorruptBackupCodes
