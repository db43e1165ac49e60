import VerdeAuth.JsonTexts

/-!
# Reading back what was written

`parseText` undoes `text` on every value whose objects are JavaScript objects,
so the text determines the value. The texts hold no line breaks, and the text
of an object starts and ends with its braces.
-/

namespace VerdeAuth.JsonTexts

private theorem simpleEscape_of_shortEscape {c e : Char} (h : shortEscape c = some e) :
    e ≠ 'u' ∧ simpleEscape e = some c := by
  unfold shortEscape at h
  split_ifs at h <;> cases h <;> subst_vars <;> decide

private theorem hexValue_hexDigit : ∀ n < 16, hexValue (hexDigit n) = some n := by decide

private theorem hex4_control (n : ℕ) (h : n < 32) :
    hex4 '0' '0' (hexDigit (n / 16)) (hexDigit (n % 16)) = some n := by
  have h0 : hexValue '0' = some 0 := by decide
  have h1 := hexValue_hexDigit (n / 16) (by omega)
  have h2 := hexValue_hexDigit (n % 16) (by omega)
  simp only [hex4, h0, h1, h2, Option.bind_eq_bind, Option.bind_some, Option.pure_def]
  exact congrArg some (by omega)

/-- How the reader sees a written character. -/
def unitOf (c : Char) : Char ⊕ ℕ :=
  if shortEscape c = none ∧ c.toNat < 32 then .inr c.toNat else .inl c

private theorem scanUnits_escape (c : Char) (r : List Char) :
    scanUnits (escape c ++ r) = consUnit (unitOf c) (scanUnits r) := by
  unfold escape
  cases hs : shortEscape c with
  | some e =>
    obtain ⟨hu, he⟩ := simpleEscape_of_shortEscape hs
    rw [List.cons_append, List.cons_append, scanUnits.eq_def]
    simp [hu, he, unitOf, hs]
  | none =>
    by_cases hc : c.toNat < 32
    · have hex := hex4_control c.toNat hc
      simp only [hc, if_true, List.cons_append, List.nil_append]
      rw [scanUnits.eq_def]
      simp [hex, hc, unitOf, hs]
    · have hq : c ≠ '"' := by
        rintro rfl
        exact absurd hs (by decide)
      have hb : c ≠ '\\' := by
        rintro rfl
        exact absurd hs (by decide)
      simp only [hc, if_false, List.cons_append, List.nil_append]
      rw [scanUnits.eq_def]
      simp [hc, hq, hb, unitOf]

private theorem codeUnit_control (c : Char) (h : c.toNat < 32) : codeUnit c.toNat = c := by
  have hh : isHighSurrogate c.toNat = false := by simp [isHighSurrogate]; omega
  have hl : isLowSurrogate c.toNat = false := by simp [isLowSurrogate]; omega
  simp [codeUnit, hh, hl]

private theorem joinUnits_unitOf (c : Char) (us : List (Char ⊕ ℕ)) :
    joinUnits (unitOf c :: us) = c :: joinUnits us := by
  unfold unitOf
  split
  · next h =>
    have hh : isHighSurrogate c.toNat = false := by simp [isHighSurrogate]; omega
    rcases us with _ | ⟨u | u, us⟩ <;> simp [joinUnits, hh, codeUnit_control c h.2]
  · rfl

private theorem scanUnits_quote (s : List Char) (r : List Char) :
    scanUnits (s.flatMap escape ++ '"' :: r) = some (s.map unitOf, r) := by
  induction s with
  | nil =>
    rw [List.flatMap_nil, List.nil_append, scanUnits.eq_def]
    simp
  | cons c s ih => simp [List.append_assoc, scanUnits_escape, ih, consUnit]

private theorem joinUnits_map (s : List Char) : joinUnits (s.map unitOf) = s := by
  induction s with
  | nil => rfl
  | cons c s ih => rw [List.map_cons, joinUnits_unitOf, ih]

theorem scanString_quote (s : String) (r : List Char) :
    scanString (s.toList.flatMap escape ++ '"' :: r) = some (s, r) := by
  simp [scanString, scanUnits_quote, joinUnits_map, String.ofList_toList]

/-- The text after a number has to end it. -/
def EndsNumber (r : List Char) : Prop := ∀ c ∈ r.head?, isNumeric c = false

section RoundTrip

variable {N : Type} [NumberFormat N]

mutual

/-- Fuel that reading a value's text takes. -/
def size : Json N → ℕ
  | .arr [] => 1
  | .arr (x :: xs) => 1 + size x + elemsSize xs
  | .obj [] => 1
  | .obj ((_, v) :: ps) => 2 + size v + membersSize ps
  | _ => 1

def elemsSize : List (Json N) → ℕ
  | [] => 1
  | x :: xs => 1 + size x + elemsSize xs

def membersSize : Members N → ℕ
  | [] => 1
  | (_, v) :: ps => 2 + size v + membersSize ps

end

mutual

theorem size_le_length : ∀ v : Json N, size v ≤ (text v).length
  | .null => by simp [size, text]
  | .bool true => by simp [size, text]
  | .bool false => by simp [size, text]
  | .num n => by
    have h := List.length_pos_iff.mpr (NumberFormat.text_ne_nil n)
    simpa [size, text] using Nat.succ_le_iff.mpr h
  | .str s => by simp [size, text, quote]
  | .arr [] => by simp [size, text]
  | .arr (x :: xs) => by
    have hx := size_le_length x
    have hxs := elemsSize_le_length xs
    simp only [size, text, List.length_cons, List.length_append]
    omega
  | .obj [] => by simp [size, text]
  | .obj ((k, v) :: ps) => by
    have hv := size_le_length v
    have hps := membersSize_le_length ps
    simp only [size, text, quote, List.length_cons, List.length_append]
    omega

theorem elemsSize_le_length : ∀ xs : List (Json N), elemsSize xs ≤ (elemsText xs).length
  | [] => by simp [elemsSize, elemsText]
  | x :: xs => by
    have hx := size_le_length x
    have hxs := elemsSize_le_length xs
    simp only [elemsSize, elemsText, List.length_cons, List.length_append]
    omega

theorem membersSize_le_length : ∀ ps : Members N, membersSize ps ≤ (membersText ps).length
  | [] => by simp [membersSize, membersText]
  | (k, v) :: ps => by
    have hv := size_le_length v
    have hps := membersSize_le_length ps
    simp only [membersSize, membersText, quote, List.length_cons, List.length_append]
    omega

end

private theorem takeWhile_numeric (n : N) {r : List Char} (hr : EndsNumber r) :
    (NumberFormat.text n ++ r).takeWhile isNumeric = NumberFormat.text n := by
  rw [List.takeWhile_append_of_pos (NumberFormat.numeric n)]
  cases r with
  | nil => simp
  | cons c r => simp [hr c rfl]

private theorem dropWhile_numeric (n : N) {r : List Char} (hr : EndsNumber r) :
    (NumberFormat.text n ++ r).dropWhile isNumeric = r := by
  rw [List.dropWhile_append_of_pos (NumberFormat.numeric n)]
  cases r with
  | nil => simp
  | cons c r => simp [hr c rfl]

private theorem parseNumber_text (n : N) {r : List Char} (hr : EndsNumber r) :
    parseNumber (NumberFormat.text n ++ r) = some (Json.num n, r) := by
  simp [parseNumber, takeWhile_numeric n hr, dropWhile_numeric n hr, NumberFormat.read_text]

private theorem numeric_ne {c : Char} (h : isNumeric c = true) :
    c ≠ 'n' ∧ c ≠ 't' ∧ c ≠ 'f' ∧ c ≠ '"' ∧ c ≠ '[' ∧ c ≠ '{' ∧ c ≠ ']' ∧ isSpace c = false := by
  refine ⟨?_, ?_, ?_, ?_, ?_, ?_, ?_, ?_⟩
  all_goals try (rintro rfl; revert h; decide)
  cases hs : isSpace c with
  | false => rfl
  | true =>
    simp only [isSpace, Bool.or_eq_true, decide_eq_true_eq] at hs
    rcases hs with ((rfl | rfl) | rfl) | rfl <;> exact absurd h (by decide)

@[simp] theorem skipSpace_cons {c : Char} (hc : isSpace c = false) (r : List Char) :
    skipSpace (c :: r) = c :: r := by simp [skipSpace, hc]

/-- A value's text starts with a character that is neither white space nor a bracket
closing the array around it. -/
theorem text_head (v : Json N) :
    ∃ c r, text v = c :: r ∧ isSpace c = false ∧ c ≠ ']' ∧ c ≠ '}' := by
  cases v with
  | null => exact ⟨_, _, rfl, by decide, by decide, by decide⟩
  | bool b => cases b <;> exact ⟨_, _, rfl, by decide, by decide, by decide⟩
  | num n =>
    cases hn : NumberFormat.text n with
    | nil => exact absurd hn (NumberFormat.text_ne_nil n)
    | cons c r =>
      have hc := NumberFormat.numeric n c (by simp [hn])
      obtain ⟨-, -, -, -, -, -, hb, hs⟩ := numeric_ne hc
      refine ⟨c, r, by simpa [text] using hn, hs, hb, ?_⟩
      rintro rfl
      exact absurd hc (by decide)
  | str s => exact ⟨_, _, rfl, by decide, by decide, by decide⟩
  | arr xs => cases xs <;> exact ⟨_, _, rfl, by decide, by decide, by decide⟩
  | obj ps => cases ps <;> exact ⟨_, _, rfl, by decide, by decide, by decide⟩

private theorem endsNumber_elems (xs : List (Json N)) (r : List Char) :
    EndsNumber (elemsText xs ++ r) := by
  cases xs <;> simp [EndsNumber, elemsText] <;> decide

private theorem endsNumber_members (ps : Members N) (r : List Char) :
    EndsNumber (membersText ps ++ r) := by
  rcases ps with _ | ⟨⟨k, v⟩, ps⟩ <;> simp [EndsNumber, membersText] <;> decide

private theorem scanKey_quote (k : String) (r : List Char) :
    scanKey (quote k ++ ':' :: r) = some (k, r) := by
  have h := scanString_quote k (':' :: r)
  simp only [quote, List.cons_append, List.append_assoc, List.nil_append, scanKey]
  rw [skipSpace_cons (by decide)]
  simp only [if_true, h]
  rw [skipSpace_cons (by decide)]
  simp

mutual

theorem parseValue_text : ∀ (v : Json N) (n : ℕ) (r : List Char), v.Wf → size v ≤ n →
    EndsNumber r → parseValue n (text v ++ r) = some (v, r)
  | .null, n + 1, r, _, _, _ => by
    simp [text, parseValue, skipSpace, isSpace, strip]
  | .bool true, n + 1, r, _, _, _ => by
    simp [text, parseValue, skipSpace, isSpace, strip]
  | .bool false, n + 1, r, _, _, _ => by
    simp [text, parseValue, skipSpace, isSpace, strip]
  | .num m, n + 1, r, _, _, hr => by
    have hp := parseNumber_text m hr
    cases hm : NumberFormat.text m with
    | nil => exact absurd hm (NumberFormat.text_ne_nil m)
    | cons c cs =>
      obtain ⟨h1, h2, h3, h4, h5, h6, -, hs⟩ :=
        numeric_ne (NumberFormat.numeric m c (by simp [hm]))
      rw [hm] at hp
      simp only [text, hm, List.cons_append] at hp ⊢
      rw [parseValue, skipSpace_cons hs]
      simpa only [h1, h2, h3, h4, h5, h6, if_false] using hp
  | .str s, n + 1, r, _, _, _ => by
    have h := scanString_quote s r
    simp only [text, quote, List.cons_append, List.append_assoc, List.nil_append]
    rw [parseValue, skipSpace_cons (by decide)]
    simp [h]
  | .arr [], n + 1, r, _, _, _ => by
    simp [text, parseValue, skipSpace, isSpace]
  | .arr (x :: xs), n + 1, r, hw, hn, _ => by
    simp only [size] at hn
    have hx := parseValue_text x n (elemsText xs ++ r) hw.1 (by omega) (endsNumber_elems xs r)
    have hxs := parseElems_text xs n r hw.2 (by omega)
    obtain ⟨c, cs, hc, hs, hb, -⟩ := text_head x
    simp only [text, List.cons_append, List.append_assoc]
    rw [parseValue, skipSpace_cons (by decide)]
    rw [hc, List.cons_append] at hx ⊢
    simp only [skipSpace_cons hs, List.head?_cons, Option.some.injEq, hb, if_false, hx, hxs]
    simp
  | .obj [], n + 1, r, _, _, _ => by
    simp [text, parseValue, skipSpace, isSpace]
  | .obj ((k, v) :: ps), n + 1, r, hw, hn, _ => by
    simp only [size] at hn
    obtain ⟨hob, hv, hps⟩ := hw
    obtain ⟨n, rfl⟩ := Nat.exists_eq_add_of_le' (show 1 ≤ n by omega)
    have hval := parseValue_text v n (membersText ps ++ r) hv (by omega) (endsNumber_members ps r)
    have hmem := parseMembers_text ps (n + 1) r hps (by omega)
    have hkey := scanKey_quote k (text v ++ (membersText ps ++ r))
    simp only [text, List.cons_append, List.append_assoc]
    rw [parseValue, skipSpace_cons (by decide)]
    have hhead : (skipSpace (quote k ++ ':' :: (text v ++ (membersText ps ++ r)))).head?
        = some '"' := by
      simp [quote, skipSpace, isSpace]
    simp only [hhead, parseMember, hkey, hval]
    simp [hmem, ofMembers_of_ordered hob]
  | .null, 0, _, _, h, _ => by simp [size] at h
  | .bool _, 0, _, _, h, _ => by simp [size] at h
  | .num _, 0, _, _, h, _ => by simp [size] at h
  | .str _, 0, _, _, h, _ => by simp [size] at h
  | .arr [], 0, _, _, h, _ => by simp [size] at h
  | .arr (_ :: _), 0, _, _, h, _ => by simp [size] at h
  | .obj [], 0, _, _, h, _ => by simp [size] at h
  | .obj (_ :: _), 0, _, _, h, _ => by simp [size] at h

theorem parseElems_text : ∀ (xs : List (Json N)) (n : ℕ) (r : List Char), Json.WfElems xs →
    elemsSize xs ≤ n → parseElems n (elemsText xs ++ r) = some (xs, r)
  | [], n + 1, r, _, _ => by simp [elemsText, parseElems, skipSpace, isSpace]
  | x :: xs, n + 1, r, hw, hn => by
    simp only [elemsSize] at hn
    have hx := parseValue_text x n (elemsText xs ++ r) hw.1 (by omega) (endsNumber_elems xs r)
    have hxs := parseElems_text xs n r hw.2 (by omega)
    simp only [elemsText, List.cons_append, List.append_assoc]
    rw [parseElems, skipSpace_cons (by decide)]
    simp [hx, hxs]
  | [], 0, _, _, h => by simp [elemsSize] at h
  | _ :: _, 0, _, _, h => by simp [elemsSize] at h

theorem parseMembers_text : ∀ (ps : Members N) (n : ℕ) (r : List Char), Json.WfMembers ps →
    membersSize ps ≤ n → parseMembers n (membersText ps ++ r) = some (ps, r)
  | [], n + 1, r, _, _ => by simp [membersText, parseMembers, skipSpace, isSpace]
  | (k, v) :: ps, n + 1, r, hw, hn => by
    simp only [membersSize] at hn
    obtain ⟨n, rfl⟩ := Nat.exists_eq_add_of_le' (show 1 ≤ n by omega)
    have hval := parseValue_text v n (membersText ps ++ r) hw.1 (by omega) (endsNumber_members ps r)
    have hmem := parseMembers_text ps (n + 1) r hw.2 (by omega)
    have hkey := scanKey_quote k (text v ++ (membersText ps ++ r))
    simp only [membersText, List.cons_append, List.append_assoc]
    rw [parseMembers, skipSpace_cons (by decide)]
    simp only [parseMember, hkey, hval]
    simp [hmem]
  | [], 0, _, _, h => by simp [membersSize] at h
  | _ :: _, 0, _, _, h => by simp [membersSize] at h

end

/-- `JSON.parse` undoes `JSON.stringify`. -/
theorem parseText_text (v : Json N) (hv : v.Wf) : parseText (text v) = some v := by
  have hsize := size_le_length v
  have h := parseValue_text v ((text v).length + 1) [] hv (by omega) (by simp [EndsNumber])
  rw [List.append_nil] at h
  simp [parseText, h, skipSpace]

/-- The text determines the value. -/
theorem text_injective {v w : Json N} (hv : v.Wf) (hw : w.Wf) (h : text v = text w) : v = w := by
  have hp := parseText_text v hv
  rw [h, parseText_text w hw] at hp
  exact (Option.some.inj hp).symm

private theorem parse_wf (n : ℕ) (cs r : List Char) :
    (∀ v : Json N, parseValue n cs = some (v, r) → v.Wf) ∧
    (∀ xs : List (Json N), parseElems n cs = some (xs, r) → Json.WfElems xs) ∧
    (∀ m : String × Json N, parseMember n cs = some (m, r) → m.2.Wf) ∧
    (∀ ps : Members N, parseMembers n cs = some (ps, r) → Json.WfMembers ps) := by
  induction n generalizing cs r with
  | zero => simp [parseValue, parseElems, parseMember, parseMembers]
  | succ n ih =>
    refine ⟨fun v h => ?_, fun xs h => ?_, fun m h => ?_, fun ps h => ?_⟩
    · rw [parseValue] at h
      split at h
      · contradiction
      · next c cs' _ =>
        split_ifs at h
        · obtain ⟨_, _, he⟩ := Option.map_eq_some_iff.mp h
          cases he
          trivial
        · obtain ⟨_, _, he⟩ := Option.map_eq_some_iff.mp h
          cases he
          trivial
        · obtain ⟨_, _, he⟩ := Option.map_eq_some_iff.mp h
          cases he
          trivial
        · obtain ⟨_, _, he⟩ := Option.map_eq_some_iff.mp h
          cases he
          trivial
        · cases h
          trivial
        · split at h
          · contradiction
          · next x cs'' hx =>
            obtain ⟨p, hp, he⟩ := Option.map_eq_some_iff.mp h
            cases he
            exact ⟨(ih cs' cs'').1 x hx, (ih cs'' p.2).2.1 p.1 hp⟩
        · cases h
          exact ⟨⟨List.nodup_nil, List.Pairwise.nil⟩, trivial⟩
        · split at h
          · contradiction
          · next m cs'' hm =>
            obtain ⟨p, hp, he⟩ := Option.map_eq_some_iff.mp h
            cases he
            have hmem : Json.WfMembers (m :: p.1) :=
              ⟨(ih cs' cs'').2.2.1 m hm, (ih cs'' p.2).2.2.2 p.1 hp⟩
            refine ⟨ordered_ofMembers _, Json.wfMembers_iff.mpr fun q hq => ?_⟩
            exact Json.wfMembers_iff.mp hmem q (mem_of_mem_ofMembers hq)
        · obtain ⟨_, _, he⟩ := Option.map_eq_some_iff.mp h
          cases he
          trivial
    · rw [parseElems] at h
      split at h
      · contradiction
      · next c cs' _ =>
        split_ifs at h
        · cases h
          trivial
        · split at h
          · contradiction
          · next x cs'' hx =>
            obtain ⟨p, hp, he⟩ := Option.map_eq_some_iff.mp h
            cases he
            exact ⟨(ih cs' cs'').1 x hx, (ih cs'' p.2).2.1 p.1 hp⟩
    · rw [parseMember] at h
      split at h
      · contradiction
      · next k cs' _ =>
        obtain ⟨p, hp, he⟩ := Option.map_eq_some_iff.mp h
        cases he
        exact (ih cs' p.2).1 p.1 hp
    · rw [parseMembers] at h
      split at h
      · contradiction
      · next c cs' _ =>
        split_ifs at h
        · cases h
          trivial
        · split at h
          · contradiction
          · next m cs'' hm =>
            obtain ⟨p, hp, he⟩ := Option.map_eq_some_iff.mp h
            cases he
            exact ⟨(ih cs' cs'').2.2.1 m hm, (ih cs'' p.2).2.2.2 p.1 hp⟩

/-- The objects in a value that was read are objects of the language. -/
theorem wf_of_parseText {cs : List Char} {v : Json N} (h : parseText cs = some v) : v.Wf := by
  rw [parseText] at h
  split at h
  · next w r hw =>
    split_ifs at h
    cases h
    exact (parse_wf _ cs r).1 v hw
  · contradiction

private theorem noBreak_escape (c : Char) : '\n' ∉ escape c := by
  rw [escape]
  cases hs : shortEscape c with
  | some e =>
    have he : e ≠ '\n' := by
      intro he
      have hn := (simpleEscape_of_shortEscape hs).2
      rw [he] at hn
      exact absurd hn (by simp [simpleEscape])
    simpa using fun h => he h.symm
  | none =>
    have hhex : ∀ k < 16, hexDigit k ≠ '\n' := by decide
    have hc : c ≠ '\n' := by
      intro hc
      rw [hc] at hs
      exact absurd hs (by decide)
    by_cases hlt : c.toNat < 32
    · have h1 := hhex (c.toNat / 16) (by omega)
      have h2 := hhex (c.toNat % 16) (by omega)
      simp [hlt, Ne.symm h1, Ne.symm h2]
    · simpa [hlt] using Ne.symm hc

private theorem noBreak_quote (s : String) : '\n' ∉ quote s := by
  simpa [quote] using fun c _ => noBreak_escape c

mutual

/-- A value is written on one line. -/
theorem noBreak_text : ∀ v : Json N, '\n' ∉ text v
  | .null => by simp [text]
  | .bool true => by simp [text]
  | .bool false => by simp [text]
  | .num n => by
    intro h
    exact absurd (NumberFormat.numeric n _ h) (by decide)
  | .str s => noBreak_quote s
  | .arr [] => by simp [text]
  | .arr (x :: xs) => by simp [text, noBreak_text x, noBreak_elemsText xs]
  | .obj [] => by simp [text]
  | .obj ((k, v) :: ps) => by
    simp [text, noBreak_quote k, noBreak_text v, noBreak_membersText ps]

theorem noBreak_elemsText : ∀ xs : List (Json N), '\n' ∉ elemsText xs
  | [] => by simp [elemsText]
  | x :: xs => by simp [elemsText, noBreak_text x, noBreak_elemsText xs]

theorem noBreak_membersText : ∀ ps : Members N, '\n' ∉ membersText ps
  | [] => by simp [membersText]
  | (k, v) :: ps => by
    simp [membersText, noBreak_quote k, noBreak_text v, noBreak_membersText ps]

end

private theorem membersText_ends (ps : Members N) : ∃ r, membersText ps = r ++ ['}'] := by
  induction ps with
  | nil => exact ⟨[], rfl⟩
  | cons p ps ih =>
    obtain ⟨r, hr⟩ := ih
    exact ⟨',' :: (quote p.1 ++ ':' :: (text p.2 ++ r)), by simp [membersText, hr]⟩

theorem objText_ends (ps : Members N) : ∃ r, text (.obj ps) = r ++ ['}'] := by
  rcases ps with _ | ⟨⟨k, v⟩, ps⟩
  · exact ⟨['{'], rfl⟩
  · obtain ⟨r, hr⟩ := membersText_ends ps
    exact ⟨'{' :: (quote k ++ ':' :: (text v ++ r)), by simp [text, hr]⟩

theorem objText_starts (ps : Members N) : ∃ r, text (.obj ps) = '{' :: r := by
  rcases ps with _ | ⟨⟨k, v⟩, ps⟩
  · exact ⟨_, rfl⟩
  · exact ⟨_, rfl⟩

end RoundTrip

end VerdeAuth.JsonTexts
