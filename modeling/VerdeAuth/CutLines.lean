import Mathlib.Algebra.GroupWithZero.Nat
import VerdeAuth.JsonPrefixes
import VerdeAuth.LogEntryLines
import VerdeAuth.RunHistories

/-!
# Lines cut short

What a reader of UTF-8 sees where only the first bytes of a line are in its file.
The line of an entry that is cut anywhere before its end does not parse.
-/

namespace VerdeAuth.CutLines

open JsonTexts SiemLoggerService LogEntryLines RunHistories

def utf8Length (cs : List Char) : ℕ := (cs.map Char.utf8Size).sum

/-- The reading of the first `b` bytes; a character cut in two shows as one replacement. -/
def utf8Prefix : ℕ → List Char → List Char
  | _, [] => []
  | b, c :: cs =>
    if c.utf8Size ≤ b then c :: utf8Prefix (b - c.utf8Size) cs
    else if b = 0 then []
    else [Char.ofNat 0xfffd]

theorem utf8Prefix_append {b : ℕ} {p : List Char} (h : utf8Length p ≤ b) (r : List Char) :
    utf8Prefix b (p ++ r) = p ++ utf8Prefix (b - utf8Length p) r := by
  induction p generalizing b with
  | nil => rfl
  | cons c p ih =>
    rw [utf8Length, List.map_cons, List.sum_cons] at h ⊢
    have hp : utf8Length p ≤ b - c.utf8Size := by
      rw [utf8Length]
      omega
    rw [List.cons_append, utf8Prefix, if_pos (by omega), ih hp, utf8Length, Nat.sub_sub]
    rfl

/-- Short of the whole text, the reading is a proper beginning, up to one replacement. -/
theorem utf8Prefix_of_lt {b : ℕ} {cs : List Char} (h : b < utf8Length cs) (t : List Char) :
    ∃ p r, cs = p ++ r ∧ r ≠ [] ∧
      (utf8Prefix b (cs ++ t) = p ∨ utf8Prefix b (cs ++ t) = p ++ [Char.ofNat 0xfffd]) := by
  induction cs generalizing b with
  | nil => cases h
  | cons c cs ih =>
    rw [utf8Length, List.map_cons, List.sum_cons] at h
    rw [List.cons_append, utf8Prefix]
    by_cases hc : c.utf8Size ≤ b
    · have hlt : b - c.utf8Size < utf8Length cs := by
        rw [utf8Length]
        omega
      obtain ⟨p, r, rfl, hr, hread⟩ := ih hlt
      refine ⟨c :: p, r, rfl, hr, ?_⟩
      rw [if_pos hc, List.cons_append]
      exact hread.imp (congrArg (c :: ·)) (congrArg (c :: ·))
    · refine ⟨[], c :: cs, rfl, List.cons_ne_nil c cs, ?_⟩
      rw [if_neg hc]
      split
      · exact Or.inl rfl
      · exact Or.inr rfl

theorem utf8Prefix_zero (cs : List Char) : utf8Prefix 0 cs = [] := by
  cases cs with
  | nil => rfl
  | cons c cs => rw [utf8Prefix, if_neg (Nat.not_le.mpr c.utf8Size_pos), if_pos rfl]

/-- After an opening brace, trimming only takes an end off. -/
theorem trim_brace (x : List Char) : ∃ y z, x = y ++ z ∧ trim ('{' :: x) = '{' :: y := by
  have hdrop : ('{' :: x).dropWhile isTrimmed = '{' :: x := by simp [isTrimmed_brace.1]
  obtain ⟨z, hz⟩ := List.dropWhile_suffix (l := ('{' :: x).reverse) isTrimmed
  have htrim : '{' :: x = trim ('{' :: x) ++ z.reverse := by
    rw [trim, hdrop, ← List.reverse_append, hz, List.reverse_reverse]
  cases ht : trim ('{' :: x) with
  | nil =>
    rw [trim, hdrop, List.reverse_eq_nil_iff, List.dropWhile_eq_nil_iff] at ht
    have hbrace := ht '{' (by simp)
    rw [isTrimmed_brace.1] at hbrace
    cases hbrace
  | cons c y =>
    rw [ht, List.cons_append] at htrim
    obtain ⟨rfl, hx⟩ := List.cons.inj htrim
    exact ⟨y, z.reverse, hx, rfl⟩

section Entries

variable {N : Type} [JsNumber N] {e : LogEntry N}

/-- A proper beginning of a line does not parse. -/
theorem parseText_cut {y r : List Char} (h : e.line = '{' :: (y ++ r)) (hr : r ≠ []) :
    (parseText ('{' :: y) : Option (Json N)) = none := by
  have hp : (parseText ('{' :: (y ++ r)) : Option (Json N)) = some e.json := h ▸ parseText_line e
  apply parseText_beginning hp
  intro hspace
  obtain ⟨init, hends⟩ := line_ends e
  obtain ⟨c, r, rfl⟩ := List.exists_cons_of_ne_nil hr
  rw [hends, ← List.cons_append] at h
  rw [skipSpace, List.dropWhile_eq_nil_iff] at hspace
  have hbrace : '}' ∈ c :: r := by
    rcases append_singleton_eq h with ⟨rfl, -, rfl⟩ | ⟨rest, rfl, -⟩
    · exact List.mem_singleton_self _
    · exact List.mem_cons_of_mem c (List.mem_append_right rest (List.mem_singleton_self _))
  exact absurd (hspace '}' hbrace) (by decide)

/-- Nor does one that ends in a replacement character. -/
theorem parseText_replaced (y : List Char) :
    (parseText ('{' :: (y ++ [Char.ofNat 0xfffd])) : Option (Json N)) = none := by
  cases hp : (parseText ('{' :: (y ++ [Char.ofNat 0xfffd])) : Option (Json N)) with
  | none => rfl
  | some v =>
    obtain ⟨r, s, hsplit, hs⟩ := ends_of_parseText hp (isObj_of_parseText hp)
    rw [← List.cons_append] at hsplit
    rcases append_singleton_eq hsplit with ⟨-, -, hc⟩ | ⟨rest, rfl, -⟩
    · exact absurd hc (by decide)
    · rw [skipSpace, List.dropWhile_eq_nil_iff] at hs
      exact absurd (hs _ (List.mem_append_right rest (List.mem_singleton_self _))) (by decide)

/-- What is left of a line that was cut, trimmed, does not parse. -/
theorem cut_line {b : ℕ} (hb : b ≠ 0) (hlt : b < utf8Length e.line) (t : List Char) :
    ∃ x, utf8Prefix b (e.line ++ t) = '{' :: x ∧ '\n' ∉ x ∧
      (parseText (trim ('{' :: x)) : Option (Json N)) = none := by
  obtain ⟨rest, hline⟩ := line_starts e
  have hbrace : '{'.utf8Size = 1 := rfl
  have hbreak := noBreak_line e
  rw [hline, utf8Length, List.map_cons, List.sum_cons, hbrace] at hlt
  have hrest : b - 1 < utf8Length rest := by
    rw [utf8Length]
    omega
  rw [hline, List.cons_append, utf8Prefix, hbrace, if_pos (by omega)]
  obtain ⟨p, r, rfl, hr, hread⟩ := utf8Prefix_of_lt hrest t
  rw [hline] at hbreak
  refine ⟨_, rfl, ?_, ?_⟩
  · rcases hread with hread | hread
    · rw [hread]
      exact fun hmem => hbreak (by simp [hmem])
    · rw [hread]
      intro hmem
      rcases List.mem_append.mp hmem with hmem | hmem
      · exact hbreak (by simp [hmem])
      · exact absurd (List.mem_singleton.mp hmem) (by decide)
  · rcases hread with hread | hread
    · rw [hread]
      obtain ⟨y, z, rfl, htrim⟩ := trim_brace p
      rw [htrim]
      have hwhole : e.line = '{' :: (y ++ (z ++ r)) := by rw [hline, List.append_assoc]
      exact parseText_cut hwhole fun hnil => hr (List.append_eq_nil_iff.mp hnil).2
    · rw [hread]
      have hfixed : trim ('{' :: (p ++ [Char.ofNat 0xfffd])) =
          '{' :: (p ++ [Char.ofNat 0xfffd]) := by
        have hmark : isTrimmed (Char.ofNat 0xfffd) = false := by decide
        simp [trim, isTrimmed_brace.1, hmark]
      rw [hfixed]
      exact parseText_replaced p

private theorem render_append_eq_intercalate (es : List (LogEntry N)) (l : List Char) :
    render es ++ l = ['\n'].intercalate (es.map LogEntry.line ++ [l]) := by
  induction es with
  | nil => simp [render]
  | cons e es ih =>
    have hne : es.map LogEntry.line ++ [l] ≠ [] := by simp
    obtain ⟨l', ls, hls⟩ := List.exists_cons_of_ne_nil hne
    rw [List.map_cons, List.cons_append, hls, List.intercalate_cons_cons, ← hls, ← ih, render,
      List.flatMap_cons, List.append_assoc]
    rfl

private theorem render_starts (es : List (LogEntry N)) :
    render es = [] ∨ ∃ r, render es = '{' :: r := by
  cases es with
  | nil => exact Or.inl rfl
  | cons e es =>
    obtain ⟨r, hr⟩ := line_starts e
    exact Or.inr ⟨_, by rw [render, List.flatMap_cons, hr]; rfl⟩

/-- The lines of a file to which less than a line was added. -/
theorem fileLines_render_append (es : List (LogEntry N)) {x : List Char} (hx : '\n' ∉ x) :
    fileLines (render es ++ '{' :: x) = es.map LogEntry.line ++ [trim ('{' :: x)] := by
  have hstarts : ∃ r, render es ++ '{' :: x = '{' :: r := by
    rcases render_starts es with hnil | ⟨r, hr⟩
    · exact ⟨x, by rw [hnil, List.nil_append]⟩
    · exact ⟨r ++ '{' :: x, by rw [hr, List.cons_append]⟩
  obtain ⟨r, hr⟩ := hstarts
  have hdrop : ∀ r, ('{' :: r).dropWhile isTrimmed = '{' :: r := by simp [isTrimmed_brace.1]
  have hne : ('{' :: x).reverse.dropWhile isTrimmed ≠ [] := by
    rw [Ne, List.dropWhile_eq_nil_iff]
    intro h
    simpa [isTrimmed_brace.1] using h '{'
  have htrim : trim (render es ++ '{' :: x) = render es ++ trim ('{' :: x) := by
    rw [trim, hr, hdrop, ← hr, List.reverse_append, List.dropWhile_append,
      if_neg (by simpa using hne), List.reverse_append, List.reverse_reverse, trim, hdrop]
  obtain ⟨y, z, hxy, hcut⟩ := trim_brace x
  rw [hcut, render_append_eq_intercalate es ('{' :: y)] at htrim
  rw [hcut]
  apply fileLines_of_trim (by simp) htrim
  intro l hl
  rcases List.mem_append.mp hl with hl | hl
  · obtain ⟨e, -, rfl⟩ := List.mem_map.mp hl
    exact ⟨noBreak_line e, line_ne_nil e⟩
  · obtain rfl := List.mem_singleton.mp hl
    refine ⟨fun hmem => ?_, List.cons_ne_nil _ y⟩
    rcases List.mem_cons.mp hmem with hmem | hmem
    · exact absurd hmem (by decide)
    · exact hx (hxy ▸ List.mem_append_left z hmem)

theorem utf8Length_line_pos (e : LogEntry N) : 0 < utf8Length e.line := by
  obtain ⟨x, hx⟩ := line_starts e
  rw [hx, utf8Length, List.map_cons, List.sum_cons]
  exact Nat.add_pos_left '{'.utf8Size_pos _

theorem trim_line (e : LogEntry N) : trim e.line = e.line := by
  obtain ⟨hopen, hclose, -⟩ := isTrimmed_brace
  obtain ⟨r, hstarts⟩ := line_starts e
  obtain ⟨r', hends⟩ := line_ends e
  have hdrop : e.line.dropWhile isTrimmed = e.line := by simp [hstarts, hopen]
  rw [trim, hdrop, hends]
  simp [hclose]

/-- The lines of a file to which a beginning of a further line was added. -/
theorem fileLines_cut (es : List (LogEntry N)) (e : LogEntry N) (kept : ℕ) :
    (utf8Length e.line ≤ kept ∧ fileLines (render es ++ utf8Prefix kept (e.line ++ ['\n'])) =
      (es ++ [e]).map LogEntry.line) ∨
    (kept = 0 ∧ fileLines (render es ++ utf8Prefix kept (e.line ++ ['\n'])) =
      es.map LogEntry.line) ∨
    (kept ≠ 0 ∧ kept < utf8Length e.line ∧ ∃ l, (parseText l : Option (Json N)) = none ∧
      fileLines (render es ++ utf8Prefix kept (e.line ++ ['\n'])) =
        es.map LogEntry.line ++ [l]) := by
  rcases Nat.lt_or_ge kept (utf8Length e.line) with hlt | hle
  · apply Or.inr
    by_cases hzero : kept = 0
    · left
      rw [hzero, utf8Prefix_zero, List.append_nil]
      exact ⟨rfl, fileLines_render es⟩
    · right
      obtain ⟨x, hread, hbreak, hparse⟩ := cut_line hzero hlt ['\n']
      rw [hread]
      exact ⟨hzero, hlt, _, hparse, fileLines_render_append es hbreak⟩
  · left
    refine ⟨hle, ?_⟩
    rw [utf8Prefix_append hle, List.map_append, List.map_singleton]
    by_cases hend : '\n'.utf8Size ≤ kept - utf8Length e.line
    · have hlines := fileLines_render (es ++ [e])
      rw [List.map_append, List.map_singleton, render, List.flatMap_append] at hlines
      rw [utf8Prefix, if_pos hend]
      simpa [render, utf8Prefix] using hlines
    · have hnone : utf8Prefix (kept - utf8Length e.line) ['\n'] = [] := by
        have hsize : '\n'.utf8Size = 1 := rfl
        rw [hsize] at hend
        rw [Nat.lt_one_iff.mp (Nat.not_le.mp hend), utf8Prefix_zero]
      obtain ⟨x, hline⟩ := line_starts e
      have hbreak : '\n' ∉ x := fun hmem =>
        noBreak_line e (hline ▸ List.mem_cons_of_mem _ hmem)
      have hlines := fileLines_render_append es hbreak
      rw [← hline, trim_line] at hlines
      rw [hnone, List.append_nil, hlines]

end Entries

end VerdeAuth.CutLines
