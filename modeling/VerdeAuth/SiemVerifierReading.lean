import VerdeAuth.HexDigests
import VerdeAuth.RunHistories

/-!
# What the verifier accepts

The verifier reads each file up to the first line numbered beyond its range. It
accepts any directory whose lines, read in this order, continue the chain where
they are numbered within the range.
-/

namespace VerdeAuth.SiemVerifierReading

open HashChains JsonTexts SiemLoggerService LogEntryLines SiemChainIntegrity
open HexDigests RunHistories

/-- How the number on a line lies to the range that is verified. -/
inductive Place where
  | before
  | beyond
  | within
  deriving DecidableEq

variable {N : Type} [JsNumber N]

section Lines

variable (N)

/-- How the number on a line lies to the range `start … stop`. -/
def placeBetween (start stop : ℕ) (line : List Char) : Place :=
  match (parseText line : Option (Json N)) with
  | none => .within
  | some entry => match Json.lessThan (entry.get? "logSequenceNumber") start with
    | some true => .before
    | none => .within
    | some false => match Json.greaterThan (entry.get? "logSequenceNumber") stop with
      | some true => .beyond
      | _ => .within

def fileRead (start stop : ℕ) (f : List (List Char)) : List (List Char) :=
  f.takeWhile fun l => placeBetween N start stop l ≠ .beyond

/-- The lines the verifier gets to see, in order. -/
def linesRead (start stop : ℕ) (files : List (List (List Char))) : List (List Char) :=
  files.flatMap (fileRead N start stop)

/-- The hash that is stored on a line. -/
def storedHash (line : List Char) : Option (Json N) :=
  (parseText line : Option (Json N)).bind fun entry => entry.get? "hash"

def storedPrevious (line : List Char) : Option (Json N) :=
  (parseText line : Option (Json N)).bind fun entry => entry.get? "previousHash"

end Lines

variable [DecidableEq N]

/-- The line has a number, names `x` as the hash before and stores the hash of its contents. -/
def Extends (H : String → String) (x : Option (Json N)) (line : List Char) : Prop :=
  ∃ (entry : Json N) (c : String), parseText line = some entry ∧
    Json.toNumber (entry.get? "logSequenceNumber") ≠ none ∧
    Json.strictEq (entry.get? "previousHash") x = true ∧
    recomputedHash H entry = some c ∧ entry.get? "hash" = some (.str c)

/-- From the hash `x` on, every line within the range extends the line before it. -/
def Unbroken (H : String → String) (start stop : ℕ) (x : Option (Json N))
    (lines : List (List Char)) : Prop :=
  Always (fun _ l => storedHash N l) (fun x l => placeBetween N start stop l = .within → Extends H x l)
    x lines

variable {H : String → String} {start stop : ℕ} {x : Option (Json N)} {line : List Char}
variable {f : List (List Char)} {files : List (List (List Char))}

omit [JsNumber N] in
theorem strictEq_str_left {v : Option (Json N)} {s : String} :
    Json.strictEq (some (.str s)) v = true ↔ v = some (.str s) := by
  rcases v with _ | (_ | _ | _ | _ | _ | _) <;> simp [Json.strictEq, eq_comm]

omit [DecidableEq N] in
theorem toNumber_eq_none {v : Option (Json N)} {n : ℕ} :
    Json.lessThan v n = none ↔ Json.toNumber v = none := Option.map_eq_none_iff

theorem checkLine_eq {entry : Json N} (hp : parseText line = some entry) (hnull : entry ≠ .null) :
    checkLine H start stop x line = checkEntry H start stop x entry := by
  rw [checkLine, hp]
  cases entry with
  | null => exact absurd rfl hnull
  | _ => rfl

theorem extends_iff {entry : Json N} (hp : parseText line = some entry) : Extends H x line ↔
    Json.toNumber (entry.get? "logSequenceNumber") ≠ none ∧
      Json.strictEq (entry.get? "previousHash") x = true ∧
      ∃ c, recomputedHash H entry = some c ∧ entry.get? "hash" = some (.str c) := by
  constructor
  · rintro ⟨entry', c, hparse, hn, hprev, hc, hhash⟩
    obtain rfl := Option.some.inj (hp.symm.trans hparse)
    exact ⟨hn, hprev, c, hc, hhash⟩
  · rintro ⟨hn, hprev, c, hc, hhash⟩
    exact ⟨entry, c, hp, hn, hprev, hc, hhash⟩

omit [DecidableEq N] in
theorem defect_isValid (before between after : String) (seq found stored : Option (Json N)) :
    (defect before between after seq found stored).isValid = false := by
  rw [defect]
  split <;> rfl

/-- What the verifier does with a line is told by its place and whether it extends the chain. -/
theorem checkLine_cases (H : String → String) (start stop : ℕ) (x : Option (Json N))
    (line : List Char) :
    (placeBetween N start stop line = .before ∧
      checkLine H start stop x line = .next (storedHash N line)) ∨
    (placeBetween N start stop line = .beyond ∧ checkLine H start stop x line = .stop) ∨
    (placeBetween N start stop line = .within ∧ Extends H x line ∧
      checkLine H start stop x line = .next (storedHash N line)) ∨
    (placeBetween N start stop line = .within ∧ ¬ Extends H x line ∧
      ∃ v, checkLine H start stop x line = .reply v ∧ v.isValid = false) := by
  cases hp : (parseText line : Option (Json N)) with
  | none =>
    refine Or.inr (Or.inr (Or.inr ⟨by rw [placeBetween, hp], ?_, .error, by rw [checkLine, hp], rfl⟩))
    rintro ⟨entry, c, hparse, -⟩
    rw [hp] at hparse
    cases hparse
  | some entry =>
    have hstored : storedHash N line = entry.get? "hash" := by
      rw [storedHash, hp]
      rfl
    by_cases hnull : entry = .null
    · subst hnull
      refine Or.inr (Or.inr (Or.inr ⟨?_, ?_, .error, by rw [checkLine, hp], rfl⟩))
      · simp [placeBetween, hp, Json.get?, Json.lessThan, Json.greaterThan, Json.toNumber]
      · rw [extends_iff hp]
        rintro ⟨-, -, c, -, hc⟩
        cases hc
    · rw [checkLine_eq hp hnull, extends_iff hp, hstored, placeBetween, hp, checkEntry]
      simp only
      cases hlow : Json.lessThan (entry.get? "logSequenceNumber") start with
      | none =>
        exact Or.inr (Or.inr (Or.inr ⟨rfl, fun h => h.1 (toNumber_eq_none.mp hlow), _, rfl, rfl⟩))
      | some low =>
        have hnumber : Json.toNumber (entry.get? "logSequenceNumber") ≠ none := by
          intro hnone
          rw [toNumber_eq_none.mpr hnone] at hlow
          cases hlow
        cases low with
        | true => exact Or.inl ⟨rfl, rfl⟩
        | false =>
          cases hhigh : Json.greaterThan (entry.get? "logSequenceNumber") stop with
          | none => exact absurd (Option.map_eq_none_iff.mp hhigh) hnumber
          | some high =>
            cases high with
            | true => exact Or.inr (Or.inl ⟨rfl, rfl⟩)
            | false =>
              refine Or.inr (Or.inr ?_)
              simp only
              by_cases hprev : Json.strictEq (entry.get? "previousHash") x = true
              · rw [if_pos hprev]
                cases hc : recomputedHash H entry with
                | none =>
                  refine Or.inr ⟨trivial, ?_, _, rfl, rfl⟩
                  rintro ⟨-, -, c, hnone, -⟩
                  cases hnone
                | some c =>
                  simp only
                  by_cases hhash : Json.strictEq (some (.str c)) (entry.get? "hash") = true
                  · rw [if_pos hhash]
                    exact Or.inl ⟨trivial, ⟨hnumber, hprev, c, rfl, strictEq_str_left.mp hhash⟩, rfl⟩
                  · rw [if_neg hhash]
                    refine Or.inr ⟨trivial, ?_, _, rfl, defect_isValid _ _ _ _ _ _⟩
                    rintro ⟨-, -, c', hc', heq⟩
                    cases hc'
                    exact hhash (strictEq_str_left.mpr heq)
              · rw [if_neg hprev]
                exact Or.inr ⟨trivial, fun h => hprev h.2.1, _, rfl, defect_isValid _ _ _ _ _ _⟩

/-- One file: the hash expected after it where all goes well, else a refusal. -/
theorem verifyLines_cases (H : String → String) (start stop : ℕ) (x : Option (Json N))
    (f : List (List Char)) :
    (Unbroken H start stop x (fileRead N start stop f) ∧ verifyLines H start stop x f =
      .ok (run (fun _ l => storedHash N l) x (fileRead N start stop f))) ∨
    (¬ Unbroken H start stop x (fileRead N start stop f) ∧
      ∃ v, verifyLines H start stop x f = .error v ∧ v.isValid = false) := by
  induction f generalizing x with
  | nil => exact Or.inl ⟨always_nil, rfl⟩
  | cons l f ih =>
    have hskip : placeBetween N start stop l ≠ .beyond →
        fileRead N start stop (l :: f) = l :: fileRead N start stop f := by
      intro h
      simp [fileRead, h]
    have hnext : placeBetween N start stop l ≠ .beyond →
        (placeBetween N start stop l = .within → Extends H x l) →
        (Unbroken H start stop x (fileRead N start stop (l :: f)) ↔
          Unbroken H start stop (storedHash N l) (fileRead N start stop f)) := by
      intro h hl
      rw [hskip h, Unbroken, always_cons]
      exact and_iff_right hl
    rw [verifyLines]
    rcases checkLine_cases H start stop x l with ⟨hplace, hline⟩ | ⟨hplace, hline⟩ |
      ⟨hplace, hext, hline⟩ | ⟨hplace, hext, v, hline, hv⟩
    · have hne : placeBetween N start stop l ≠ .beyond := by simp [hplace]
      rw [hline, hnext hne (by simp [hplace]), hskip hne]
      exact ih (storedHash N l)
    · have hread : fileRead N start stop (l :: f) = [] := by simp [fileRead, hplace]
      rw [hline, hread]
      exact Or.inl ⟨always_nil, rfl⟩
    · have hne : placeBetween N start stop l ≠ .beyond := by simp [hplace]
      rw [hline, hnext hne fun _ => hext, hskip hne]
      exact ih (storedHash N l)
    · have hne : placeBetween N start stop l ≠ .beyond := by simp [hplace]
      rw [hline, hskip hne, Unbroken, always_cons]
      exact Or.inr ⟨fun h => hext (h.1 hplace), v, rfl, hv⟩

theorem isValid_verifyFiles : (verifyFiles H start stop x files).isValid = true ↔
    Unbroken H start stop x (linesRead N start stop files) := by
  induction files generalizing x with
  | nil => exact iff_of_true rfl always_nil
  | cons f files ih =>
    have hsplit : Unbroken H start stop x (linesRead N start stop (f :: files)) ↔
        Unbroken H start stop x (fileRead N start stop f) ∧
        Unbroken H start stop (run (fun _ l => storedHash N l) x (fileRead N start stop f))
          (linesRead N start stop files) := always_append
    rw [verifyFiles, hsplit]
    rcases verifyLines_cases H start stop x f with ⟨hread, hlines⟩ | ⟨hread, v, hlines, hv⟩
    · rw [hlines, and_iff_right hread]
      exact ih
    · rw [hlines, hv]
      exact iff_of_false (by simp) fun h => hread h.1

/-- The hash on the last of these lines; the chain starts from the genesis hash. -/
def hashBefore (N : Type) [JsNumber N] (lines : List (List Char)) : Option (Json N) :=
  match lines.getLast? with
  | none => some (.str genesisHash)
  | some l => storedHash N l

omit [DecidableEq N] in
theorem run_storedHash (lines : List (List Char)) :
    run (fun _ l => storedHash N l) (some (.str genesisHash)) lines = hashBefore N lines := by
  rcases List.eq_nil_or_concat' lines with rfl | ⟨init, l, rfl⟩
  · rfl
  · simp [run, hashBefore]

theorem not_unbroken {lines : List (List Char)} :
    ¬ Unbroken H start stop (some (.str genesisHash) : Option (Json N)) lines ↔
      ∃ before l after, lines = before ++ l :: after ∧ placeBetween N start stop l = .within ∧
        ¬ Extends H (hashBefore N before) l := by
  simp only [Unbroken, Always, run_storedHash, not_forall, exists_prop]

theorem flatMap_takeWhile {α : Type} {p : α → Bool} {xss : List (List α)}
    (h : ∀ x ∈ xss.flatten, p x = true) : (xss.flatMap fun xs => xs.takeWhile p) = xss.flatten := by
  rw [List.flatMap_def]
  congr 1
  apply (List.map_congr_left fun xs hxs => ?_).trans (List.map_id _)
  apply List.takeWhile_eq_self_iff.mpr
  intro x hx
  exact h x (List.mem_flatten_of_mem hxs hx)

omit [DecidableEq N] in
/-- No line is left out where none is beyond the range. -/
theorem linesRead_of_within {files : List (List (List Char))}
    (h : ∀ l ∈ files.flatten, placeBetween N start stop l = .within) :
    linesRead N start stop files = files.flatten := by
  apply flatMap_takeWhile
  intro l hl
  simp [h l hl]

/-- The verifier accepts a directory exactly when the lines it reads form a chain. -/
theorem isValid_verifyChainIntegrity (H : String → String) (l : SiemLogger) (dir : LogDir)
    (startSeq endSeq : Option ℕ) : (verifyChainIntegrity N H l dir startSeq endSeq).isValid = true ↔
      Unbroken H (orDefault startSeq 1) (orDefault endSeq l.sequenceNumber)
        (some (.str genesisHash) : Option (Json N)) (linesRead N (orDefault startSeq 1)
          (orDefault endSeq l.sequenceNumber) (logLines dir)) := isValid_verifyFiles

/-! Lines of entries -/

section Entries

variable {all : List (LogEntry N)} {e : LogEntry N}

omit [DecidableEq N] in
theorem storedPrevious_line (e : LogEntry N) :
    storedPrevious N e.line = some (.str e.previousHash) := by
  rw [storedPrevious, parseText_line]
  exact get?_previousHash e

omit [DecidableEq N] in
theorem storedHash_line (e : LogEntry N) : storedHash N e.line = some (.str e.hash) := by
  rw [storedHash, parseText_line]
  exact get?_hash e

omit [DecidableEq N] in
theorem placeBetween_entry (e : LogEntry N) : placeBetween N start stop e.line =
    if e.logSequenceNumber < start then .before
    else if stop < e.logSequenceNumber then .beyond
    else .within := by
  rw [placeBetween, parseText_line]
  by_cases hlow : e.logSequenceNumber < start
  · simp [hlow]
  · by_cases hhigh : stop < e.logSequenceNumber
    · simp [hlow, hhigh]
    · simp [hlow, hhigh]

omit [DecidableEq N] in
theorem placeBetween_line (h : (logChain H).Linked genesisHash 0 all) (he : e ∈ all)
    (hstop : all.length ≤ stop) : placeBetween N 1 stop e.line = .within := by
  obtain ⟨hlow, hhigh⟩ := Scheme.number_le h he
  have hlow : ¬ e.logSequenceNumber < 1 := Nat.not_lt.mpr hlow
  have hhigh : e.logSequenceNumber ≤ 0 + all.length := hhigh
  rw [placeBetween_entry, if_neg hlow, if_neg (by omega)]

/-- A line that stores the hash of its contents extends the chain exactly where
it names the hash before it. -/
theorem extends_hashed
    (he : e.hash = computeHash H e.previousHash e.toStandardLogFormat.properties)
    {x : Option (Json N)} : Extends H x e.line ↔ some (.str e.previousHash) = x := by
  rw [extends_iff (parseText_line e), get?_previousHash, get?_hash]
  constructor
  · rintro ⟨-, hprev, -⟩
    exact (strictEq_str_left.mp hprev).symm
  · rintro rfl
    refine ⟨?_, strictEq_str_left.mpr rfl, e.hash, ?_, rfl⟩
    · rw [get?_logSequenceNumber]
      simp [Json.toNumber]
    · rw [recomputedHash_linked, ← he]

theorem extends_line (h : (logChain H).Linked genesisHash 0 all) (he : e ∈ all)
    {x : Option (Json N)} : Extends H x e.line ↔ storedPrevious N e.line = x := by
  rw [storedPrevious_line]
  exact extends_hashed (Scheme.link_eq_digest h he)

/-- Lines of entries that follow on form a chain, whatever their numbers. -/
theorem unbroken_of_follows {es : List (LogEntry N)} {p : String} (hes : ∀ e ∈ es,
    e.hash = computeHash H e.previousHash e.toStandardLogFormat.properties)
    (h : (logChain H).Follows p es) :
    Unbroken H start stop (some (.str p) : Option (Json N)) (es.map LogEntry.line) := by
  induction es generalizing p with
  | nil => exact always_nil
  | cons e es ih =>
    obtain ⟨hp, hrest⟩ := h
    have htail := ih (fun e' he' => hes e' (List.mem_cons_of_mem e he')) hrest
    rw [Unbroken] at htail ⊢
    rw [List.map_cons, always_cons, storedHash_line]
    refine ⟨fun _ => ?_, htail⟩
    have hprev : e.previousHash = p := hp
    exact (extends_hashed (hes e List.mem_cons_self)).mpr (by rw [hprev])

/-- Where all are within the range, they form a chain only so. -/
theorem unbroken_iff_follows {es : List (LogEntry N)} {p : String} (hes : ∀ e ∈ es,
    e.hash = computeHash H e.previousHash e.toStandardLogFormat.properties)
    (hwithin : ∀ e ∈ es, placeBetween N start stop e.line = .within) :
    Unbroken H start stop (some (.str p) : Option (Json N)) (es.map LogEntry.line) ↔
      (logChain H).Follows p es := by
  induction es generalizing p with
  | nil => exact iff_of_true always_nil trivial
  | cons e es ih =>
    have htail := ih (p := e.hash) (fun e' he' => hes e' (List.mem_cons_of_mem e he'))
      fun e' he' => hwithin e' (List.mem_cons_of_mem e he')
    rw [Unbroken] at htail ⊢
    rw [List.map_cons, always_cons, storedHash_line, htail, Scheme.Follows]
    simp [hwithin e List.mem_cons_self, extends_hashed (hes e List.mem_cons_self), logChain]

end Entries

end VerdeAuth.SiemVerifierReading
