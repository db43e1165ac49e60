import Mathlib.Data.List.Basic

/-!
# Bytes as texts

How bytes are written as texts and read back: in base64, whose reader takes any
text, in ASCII, where the high bit is masked, and in UTF-8, where malformed bytes
read as replacement characters.
-/

namespace VerdeAuth.ByteTexts

abbrev Bytes := List UInt8

/-! Base64 -/

def base64Char (v : ℕ) : Char :=
  if v < 26 then Char.ofNat (65 + v)
  else if v < 52 then Char.ofNat (97 + (v - 26))
  else if v < 62 then Char.ofNat (48 + (v - 52))
  else if v = 62 then '+'
  else '/'

/-- Six bits, in either of the two alphabets. -/
def unbase64 (c : Char) : Option ℕ :=
  if 'A' ≤ c ∧ c ≤ 'Z' then some (c.toNat - 65)
  else if 'a' ≤ c ∧ c ≤ 'z' then some (c.toNat - 97 + 26)
  else if '0' ≤ c ∧ c ≤ '9' then some (c.toNat - 48 + 52)
  else if c = '+' ∨ c = '-' then some 62
  else if c = '/' ∨ c = '_' then some 63
  else none

/-- The bytes, six bits at a time; the last ones are filled up with zeros. -/
def sextets : Bytes → List ℕ
  | [] => []
  | [a] => [a.toNat / 4, a.toNat % 4 * 16]
  | [a, b] => [a.toNat / 4, a.toNat % 4 * 16 + b.toNat / 16, b.toNat % 16 * 4]
  | a :: b :: c :: rest =>
    a.toNat / 4 :: (a.toNat % 4 * 16 + b.toNat / 16) :: (b.toNat % 16 * 4 + c.toNat / 64) ::
      c.toNat % 64 :: sextets rest

/-- Whole bytes; what is left over at the end is dropped. -/
def octets : List ℕ → Bytes
  | w :: x :: y :: z :: rest =>
    UInt8.ofNat (w * 4 + x / 16) :: UInt8.ofNat (x % 16 * 16 + y / 4) ::
      UInt8.ofNat (y % 4 * 64 + z) :: octets rest
  | [w, x, y] => [UInt8.ofNat (w * 4 + x / 16), UInt8.ofNat (x % 16 * 16 + y / 4)]
  | [w, x] => [UInt8.ofNat (w * 4 + x / 16)]
  | _ => []

/-- `buffer.toString('base64')` -/
def base64Text (bytes : Bytes) : String :=
  String.ofList ((sextets bytes).map base64Char ++ List.replicate ((3 - bytes.length % 3) % 3) '=')

/-- `Buffer.from(text, 'base64')`: the reader stops at the padding and passes over
characters of no alphabet. (Node reads the low byte of a character above U+00FF; such
texts are out of scope.) -/
def base64Bytes (text : String) : Bytes :=
  octets ((text.toList.takeWhile (· ≠ '=')).filterMap unbase64)

theorem unbase64_base64Char {v : ℕ} (h : v < 64) : unbase64 (base64Char v) = some v := by
  have hall : ∀ v < 64, unbase64 (base64Char v) = some v := by decide
  exact hall v h

theorem base64Char_ne {v : ℕ} (h : v < 64) : base64Char v ≠ '=' := by
  have hall : ∀ v < 64, base64Char v ≠ '=' := by decide
  exact hall v h

theorem base64Char_ne_bracket {v : ℕ} (h : v < 64) : base64Char v ≠ '[' := by
  have hall : ∀ v < 64, base64Char v ≠ '[' := by decide
  exact hall v h

theorem sextets_lt (bytes : Bytes) : ∀ v ∈ sextets bytes, v < 64 := by
  have hbyte : ∀ a : UInt8, a.toNat < 256 := fun a => a.toNat_lt
  fun_induction sextets bytes with
  | case1 => simp
  | case2 a =>
    have ha := hbyte a
    simp
    omega
  | case3 a b =>
    have ha := hbyte a
    have hb := hbyte b
    simp
    omega
  | case4 a b c rest ih =>
    have ha := hbyte a
    have hb := hbyte b
    have hc := hbyte c
    simp only [List.mem_cons, forall_eq_or_imp]
    refine ⟨?_, ?_, ?_, ?_, ih⟩
    all_goals omega

theorem octets_sextets (bytes : Bytes) : octets (sextets bytes) = bytes := by
  have hbyte : ∀ (a : UInt8) (n : ℕ), n = a.toNat → UInt8.ofNat n = a := by
    rintro a n rfl
    exact UInt8.ofNat_toNat
  fun_induction sextets bytes with
  | case1 => rfl
  | case2 a => rw [octets, hbyte a _ (by omega)]
  | case3 a b =>
    have hb := b.toNat_lt
    rw [octets, hbyte a _ (by omega), hbyte b _ (by omega)]
  | case4 a b c rest ih =>
    have hb := b.toNat_lt
    have hc := c.toNat_lt
    rw [octets, hbyte a _ (by omega), hbyte b _ (by omega), hbyte c _ (by omega), ih]

/-- The characters before the padding of a written text. -/
theorem takeWhile_base64Text (bytes : Bytes) :
    (base64Text bytes).toList.takeWhile (· ≠ '=') = (sextets bytes).map base64Char := by
  have hchars : ∀ c ∈ (sextets bytes).map base64Char, (decide (c ≠ '=')) = true := by
    intro c hc
    obtain ⟨v, hv, rfl⟩ := List.mem_map.mp hc
    exact decide_eq_true (base64Char_ne (sextets_lt bytes v hv))
  rw [base64Text, String.toList_ofList, List.takeWhile_append_of_pos hchars]
  cases (3 - bytes.length % 3) % 3 <;> simp [List.replicate_succ]

theorem base64Bytes_base64Text (bytes : Bytes) : base64Bytes (base64Text bytes) = bytes := by
  have hread : ∀ l : List ℕ, (∀ v ∈ l, v < 64) → (l.map base64Char).filterMap unbase64 = l := by
    intro l hl
    induction l with
    | nil => rfl
    | cons v l ih =>
      have hv := hl v List.mem_cons_self
      have hrest := ih fun v' hv' => hl v' (List.mem_cons_of_mem v hv')
      rw [List.map_cons, List.filterMap_cons_some (unbase64_base64Char hv), hrest]
  rw [base64Bytes, takeWhile_base64Text, hread _ (sextets_lt bytes), octets_sextets]

example : base64Text [102, 111] = "Zm8=" ∧ base64Bytes " Z-m8=Zg" = [103, 233, 188] := by decide

theorem bracket_notMem_base64Text (bytes : Bytes) : '[' ∉ (base64Text bytes).toList := by
  intro h
  rw [base64Text, String.toList_ofList, List.mem_append] at h
  rcases h with h | h
  · obtain ⟨v, hv, hc⟩ := List.mem_map.mp h
    exact base64Char_ne_bracket (sextets_lt bytes v hv) hc
  · cases List.eq_of_mem_replicate h

/-! ASCII -/

/-- `buffer.toString('ascii')` -/
def asciiText (bytes : Bytes) : String :=
  String.ofList (bytes.map fun b => Char.ofNat (b.toNat % 128))

/-! UTF-8 -/

def utf8Bytes (text : String) : Bytes := text.toList.flatMap String.utf8EncodeChar

theorem asciiText_utf8Bytes {text : String} (h : ∀ c ∈ text.toList, c.toNat < 128) :
    asciiText (utf8Bytes text) = text := by
  have hread : ∀ cs : List Char, (∀ c ∈ cs, c.toNat < 128) →
      (cs.flatMap String.utf8EncodeChar).map (fun b => Char.ofNat (b.toNat % 128)) = cs := by
    intro cs hcs
    induction cs with
    | nil => rfl
    | cons c cs ih =>
      have hc := hcs c List.mem_cons_self
      have hrest := ih fun c' hc' => hcs c' (List.mem_cons_of_mem c hc')
      have hsize : c.utf8Size = 1 := by
        apply Char.utf8Size_eq_one_iff.mpr
        apply UInt32.le_iff_toNat_le.mpr
        change c.toNat ≤ 127
        omega
      have hmask : c.toNat % 256 % 128 = c.toNat := by omega
      have hchar : Char.ofNat (c.val.toUInt8.toNat % 128) = c := by
        change Char.ofNat (c.toNat % 256 % 128) = c
        rw [hmask, Char.ofNat_toNat]
      rw [List.flatMap_cons, List.map_append, hrest, String.utf8EncodeChar_eq_singleton hsize,
        List.map_singleton, hchar, List.singleton_append]
  rw [asciiText, utf8Bytes, hread _ h, String.ofList_toList]

/-- The length of the malformed sequence in front, as one replacement character
stands for it. -/
def malformedLength : Bytes → ℕ
  | a :: b :: rest =>
    let lower : UInt8 := if a = 0xE0 then 0xA0 else if a = 0xF0 then 0x90 else 0x80
    let upper : UInt8 := if a = 0xED then 0x9F else if a = 0xF4 then 0x8F else 0xBF
    if 0xE0 ≤ a ∧ a ≤ 0xF4 ∧ lower ≤ b ∧ b ≤ upper then
      match rest with
      | c :: _ => if 0xF0 ≤ a ∧ 0x80 ≤ c ∧ c ≤ 0xBF then 3 else 2
      | [] => 2
    else 1
  | _ => 1

/-- Read at most `n` characters. -/
def utf8Chars : ℕ → Bytes → List Char
  | 0, _ => []
  | _, [] => []
  | n + 1, b :: bytes => match (b :: bytes).toByteArray.utf8DecodeChar? 0 with
    | some c => c :: utf8Chars n ((b :: bytes).drop c.utf8Size)
    | none => '\uFFFD' :: utf8Chars n ((b :: bytes).drop (malformedLength (b :: bytes)))

/-- `buffer.toString('utf8')` -/
def utf8Text (bytes : Bytes) : String := String.ofList (utf8Chars bytes.length bytes)

theorem utf8Chars_cons (n : ℕ) (c : Char) (bytes : Bytes) :
    utf8Chars (n + 1) (String.utf8EncodeChar c ++ bytes) = c :: utf8Chars n bytes := by
  have hlen : (String.utf8EncodeChar c).length = c.utf8Size := String.length_utf8EncodeChar c
  have hread : (String.utf8EncodeChar c ++ bytes).toByteArray.utf8DecodeChar? 0 = some c := by
    rw [List.toByteArray_append]
    exact ByteArray.utf8DecodeChar?_utf8EncodeChar_append
  have hdrop : (String.utf8EncodeChar c ++ bytes).drop c.utf8Size = bytes :=
    List.drop_left' hlen
  cases hcons : String.utf8EncodeChar c ++ bytes with
  | nil =>
    have hpos := c.utf8Size_pos
    simp [List.append_eq_nil_iff.mp hcons] at hlen
    omega
  | cons b rest =>
    rw [hcons] at hread hdrop
    rw [utf8Chars, hread]
    simp only
    rw [hdrop]

theorem utf8Text_utf8Bytes (text : String) : utf8Text (utf8Bytes text) = text := by
  have hread : ∀ (cs : List Char) (n : ℕ), (cs.flatMap String.utf8EncodeChar).length ≤ n →
      utf8Chars n (cs.flatMap String.utf8EncodeChar) = cs := by
    intro cs
    induction cs with
    | nil =>
      intro n _
      cases n <;> rfl
    | cons c cs ih =>
      intro n hn
      have hpos := c.utf8Size_pos
      rw [List.flatMap_cons, List.length_append, String.length_utf8EncodeChar] at hn
      obtain ⟨m, rfl⟩ : ∃ m, n = m + 1 := ⟨n - 1, by omega⟩
      rw [List.flatMap_cons, utf8Chars_cons, ih m (by omega)]
  rw [utf8Text, utf8Bytes, hread _ _ (Nat.le_refl _), String.ofList_toList]

end VerdeAuth.ByteTexts
