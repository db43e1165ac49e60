import Mathlib.Algebra.Group.Nat.Defs
import Mathlib.Data.List.Basic
import Mathlib.Data.List.TakeWhile

/-!
# JSON values and their texts

Values, the text `JSON.stringify` gives a value and the reading `JSON.parse`
gives a text. Numbers are a parameter: any type whose own texts read back.
Objects keep their members in the order a JavaScript object keeps them, with
array indices first, and reading a text rebuilds that order.
-/

namespace VerdeAuth.JsonTexts

def isNumeric (c : Char) : Bool :=
  c.isDigit || c = '-' || c = '+' || c = '.' || c = 'e' || c = 'E'

/-- Numbers with a text of their own, such as the shortest decimal that reads
back as the same double. The infinities, whose text is `null`, are left out. -/
class NumberFormat (N : Type) where
  text : N → List Char
  read : List Char → Option N
  text_ne_nil : ∀ n, text n ≠ []
  numeric : ∀ n, ∀ c ∈ text n, isNumeric c = true
  read_text : ∀ n, read (text n) = some n

inductive Json (N : Type) where
  | null
  | bool (b : Bool)
  | num (n : N)
  | str (s : String)
  | arr (xs : List (Json N))
  | obj (ps : List (String × Json N))

abbrev Members (N : Type) := List (String × Json N)

section Members

variable {N : Type}

/-- The array index a property name denotes, when it is written canonically. -/
def arrayIndex (k : String) : Option ℕ :=
  let cs := k.toList
  if cs.all Char.isDigit ∧ cs ≠ [] ∧ (cs.head? = some '0' → cs = ['0']) then
    let n := cs.foldl (fun n c => 10 * n + (c.toNat - 48)) 0
    if n < 2 ^ 32 - 1 then some n else none
  else none

/-- Array indices come before other names, in ascending order. -/
def precedes (k k' : String) : Bool :=
  match arrayIndex k, arrayIndex k' with
  | some i, some i' => i < i'
  | some _, none => true
  | none, _ => false

def insertMember (k : String) (v : Json N) : Members N → Members N
  | [] => [(k, v)]
  | p :: ps => if precedes k p.1 then (k, v) :: p :: ps else p :: insertMember k v ps

/-- Define a property: in place when it exists, otherwise where its name belongs. -/
def setMember (ps : Members N) (k : String) (v : Json N) : Members N :=
  if ps.any (fun p => p.1 = k) then ps.map fun p => if p.1 = k then (k, v) else p
  else insertMember k v ps

/-- The members an object has after these definitions, made in this order. -/
def ofMembers (ps : Members N) : Members N :=
  ps.foldl (fun acc p => setMember acc p.1 p.2) []

/-- The members are in the order in which an object keeps them. -/
def Ordered (ps : Members N) : Prop :=
  (ps.map Prod.fst).Nodup ∧ ps.Pairwise fun p q => precedes q.1 p.1 = false

private theorem precedes_trans {k k' k'' : String} (h : precedes k k' = true)
    (h' : precedes k' k'' = true) : precedes k k'' = true := by
  cases hk : arrayIndex k <;> cases hk' : arrayIndex k' <;> cases hk'' : arrayIndex k'' <;>
    simp only [precedes, hk, hk', hk'', decide_eq_true_eq] at h h' ⊢
  all_goals first | omega | contradiction

private theorem mem_insertMember {k : String} {v : Json N} {ps : Members N} {p : String × Json N} :
    p ∈ insertMember k v ps ↔ p = (k, v) ∨ p ∈ ps := by
  induction ps with
  | nil => simp [insertMember]
  | cons q ps ih =>
    rw [insertMember]
    split
    · simp
    · rw [List.mem_cons, ih, List.mem_cons]
      tauto

private theorem insertMember_last {k : String} {v : Json N} {ps : Members N}
    (h : ∀ p ∈ ps, precedes k p.1 = false) : insertMember k v ps = ps ++ [(k, v)] := by
  induction ps with
  | nil => rfl
  | cons q ps ih =>
    have hq : precedes k q.1 = false := h q (by simp)
    simp [insertMember, hq, ih fun p hp => h p (by simp [hp])]

private theorem ordered_insertMember {k : String} {v : Json N} {ps : Members N} (h : Ordered ps)
    (hk : ∀ p ∈ ps, p.1 ≠ k) : Ordered (insertMember k v ps) := by
  induction ps with
  | nil => simp [insertMember, Ordered]
  | cons q ps ih =>
    obtain ⟨hd, ho⟩ := h
    obtain ⟨hq, hd⟩ := List.nodup_cons.mp hd
    obtain ⟨hoq, ho⟩ := List.pairwise_cons.mp ho
    have hps : ∀ p ∈ ps, p.1 ≠ k := fun p hp => hk p (by simp [hp])
    rw [insertMember]
    split
    · next hlt =>
      refine ⟨List.nodup_cons.mpr ⟨?_, List.nodup_cons.mpr ⟨hq, hd⟩⟩,
        List.pairwise_cons.mpr ⟨?_, List.pairwise_cons.mpr ⟨hoq, ho⟩⟩⟩
      · intro hm
        obtain ⟨p, hp, he⟩ := List.mem_map.mp hm
        exact hk p hp he
      · intro p hp
        by_contra hc
        rw [Bool.not_eq_false] at hc
        rcases List.mem_cons.mp hp with rfl | hp
        · have hself := precedes_trans hc hlt
          cases hi : arrayIndex p.1 <;> simp [precedes, hi] at hself
        · have hqp := precedes_trans hc hlt
          rw [hoq p hp] at hqp
          contradiction
    · next hlt =>
      rw [Bool.not_eq_true] at hlt
      obtain ⟨hd', ho'⟩ := ih ⟨hd, ho⟩ hps
      refine ⟨List.nodup_cons.mpr ⟨?_, hd'⟩, List.pairwise_cons.mpr ⟨?_, ho'⟩⟩
      · intro hm
        obtain ⟨p, hp, he⟩ := List.mem_map.mp hm
        rcases mem_insertMember.mp hp with rfl | hp
        · exact hk q (by simp) he.symm
        · exact hq (List.mem_map.mpr ⟨p, hp, he⟩)
      · intro p hp
        rcases mem_insertMember.mp hp with rfl | hp
        · exact hlt
        · exact hoq p hp

private theorem ordered_setMember {k : String} {v : Json N} {ps : Members N} (h : Ordered ps) :
    Ordered (setMember ps k v) := by
  rw [setMember]
  split
  · have hfst : ∀ p : String × Json N, (if p.1 = k then (k, v) else p).1 = p.1 := by
      intro p
      split
      · next hp => exact hp.symm
      · rfl
    have hnames : (ps.map fun p => if p.1 = k then (k, v) else p).map Prod.fst
        = ps.map Prod.fst := by simp [hfst]
    refine ⟨hnames ▸ h.1, List.pairwise_map.mpr (h.2.imp fun {p q} hpq => ?_)⟩
    rw [hfst p, hfst q]
    exact hpq
  · next hany =>
    refine ordered_insertMember h fun p hp he => hany ?_
    exact List.any_eq_true.mpr ⟨p, hp, decide_eq_true he⟩

private theorem ordered_foldl {qs ps : Members N} (h : Ordered qs) :
    Ordered (ps.foldl (fun acc p => setMember acc p.1 p.2) qs) := by
  induction ps generalizing qs with
  | nil => exact h
  | cons p ps ih => exact ih (ordered_setMember h)

theorem ordered_ofMembers (ps : Members N) : Ordered (ofMembers ps) :=
  ordered_foldl ⟨List.nodup_nil, List.Pairwise.nil⟩

private theorem mem_setMember {k : String} {v : Json N} {ps : Members N} {p : String × Json N}
    (h : p ∈ setMember ps k v) : p = (k, v) ∨ p ∈ ps := by
  rw [setMember] at h
  split at h
  · obtain ⟨q, hq, rfl⟩ := List.mem_map.mp h
    split
    · exact Or.inl rfl
    · exact Or.inr hq
  · exact mem_insertMember.mp h

private theorem mem_foldl_setMember {qs ps : Members N} {p : String × Json N}
    (h : p ∈ ps.foldl (fun acc p => setMember acc p.1 p.2) qs) : p ∈ qs ∨ p ∈ ps := by
  induction ps generalizing qs with
  | nil => exact Or.inl h
  | cons q ps ih =>
    rcases ih h with h | h
    · rcases mem_setMember h with rfl | h
      · exact Or.inr (by simp)
      · exact Or.inl h
    · exact Or.inr (by simp [h])

theorem mem_of_mem_ofMembers {ps : Members N} {p : String × Json N} (h : p ∈ ofMembers ps) :
    p ∈ ps := by
  rcases mem_foldl_setMember h with h | h
  · exact absurd h (by simp)
  · exact h

private theorem foldl_setMember {qs ps : Members N} (h : Ordered (qs ++ ps)) :
    ps.foldl (fun acc p => setMember acc p.1 p.2) qs = qs ++ ps := by
  induction ps generalizing qs with
  | nil => simp
  | cons p ps ih =>
    have hset : setMember qs p.1 p.2 = qs ++ [p] := by
      obtain ⟨hd, ho⟩ := h
      rw [List.map_append, List.map_cons] at hd
      have hany : qs.any (fun q => q.1 = p.1) = false := by
        rw [List.any_eq_false]
        intro q hq
        have hne := (List.nodup_append.mp hd).2.2 q.1 (List.mem_map_of_mem hq) p.1 (by simp)
        simpa using hne
      have hlast : ∀ q ∈ qs, precedes p.1 q.1 = false := fun q hq =>
        (List.pairwise_append.mp ho).2.2 q hq p (by simp)
      simp [setMember, hany, insertMember_last hlast]
    rw [List.foldl_cons, hset, ih (by simpa using h)]
    simp

/-- Making an object of its own members changes nothing. -/
theorem ofMembers_of_ordered {ps : Members N} (h : Ordered ps) : ofMembers ps = ps := by
  rw [ofMembers, foldl_setMember (by simpa using h), List.nil_append]

/-- Distinct names that are no array indices stay in the order of definition. -/
theorem ordered_of_names {ps : Members N} (hd : (ps.map Prod.fst).Nodup)
    (hi : ∀ p ∈ ps, arrayIndex p.1 = none) : Ordered ps :=
  ⟨hd, List.pairwise_of_forall_mem_list fun p _ q hq => by simp [precedes, hi q hq]⟩

end Members

namespace Json

variable {N : Type}

/-- The value of a property; `none` is `undefined`. -/
def get? : Json N → String → Option (Json N)
  | .obj ps, k => (ps.find? fun p => p.1 = k).map Prod.snd
  | _, _ => none

theorem get?_cons (p : String × Json N) (ps : Members N) (k : String) :
    (obj (p :: ps)).get? k = if p.1 = k then some p.2 else (obj ps).get? k := by
  by_cases h : p.1 = k <;> simp [get?, h]

private theorem get?_insertMember {k k' : String} {v : Json N} {ps : Members N}
    (hk : ∀ p ∈ ps, p.1 ≠ k) :
    (obj (insertMember k v ps)).get? k' = if k' = k then some v else (obj ps).get? k' := by
  induction ps with
  | nil =>
    rw [insertMember, get?_cons]
    simp only [eq_comm]
  | cons p ps ih =>
    have hp : p.1 ≠ k := hk p List.mem_cons_self
    rw [insertMember]
    split
    · rw [get?_cons]
      simp only [eq_comm]
    · rw [get?_cons, get?_cons, ih fun q hq => hk q (List.mem_cons_of_mem p hq)]
      by_cases h : p.1 = k'
      · rw [if_pos h, if_pos h, if_neg fun he => hp (h.trans he)]
      · rw [if_neg h, if_neg h]

private theorem get?_mapMember {k k' : String} {v : Json N} {ps : Members N} :
    (obj (ps.map fun p => if p.1 = k then (k, v) else p)).get? k' =
      if k' = k then ((obj ps).get? k').map fun _ => v else (obj ps).get? k' := by
  induction ps with
  | nil => simp [get?]
  | cons p ps ih =>
    rw [List.map_cons, get?_cons, get?_cons, ih]
    by_cases hp : p.1 = k
    · by_cases h : k' = k
      · simp [hp, h]
      · have hne : p.1 ≠ k' := fun he => h (he.symm.trans hp)
        simp [hp, h, Ne.symm h]
    · by_cases h : k' = k
      · simp [hp, h]
      · simp [hp, h]

/-- A property is read back as it was set last. -/
theorem get?_setMember (ps : Members N) (k k' : String) (v : Json N) :
    (obj (setMember ps k v)).get? k' = if k' = k then some v else (obj ps).get? k' := by
  rw [setMember]
  split
  · next hany =>
    rw [get?_mapMember]
    split
    · next h =>
      obtain ⟨p, hp⟩ : ∃ p, ps.find? (fun p => p.1 = k) = some p := by
        rw [← Option.isSome_iff_exists, List.find?_isSome]
        exact List.any_eq_true.mp hany
      simp [get?, h, hp]
    · rfl
  · next hany =>
    apply get?_insertMember
    intro p hp he
    exact hany (List.any_eq_true.mpr ⟨p, hp, decide_eq_true he⟩)

mutual

/-- The members are those of a JavaScript object, at every depth. -/
def Wf : Json N → Prop
  | .arr xs => WfElems xs
  | .obj ps => Ordered ps ∧ WfMembers ps
  | _ => True

def WfElems : List (Json N) → Prop
  | [] => True
  | x :: xs => Wf x ∧ WfElems xs

def WfMembers : Members N → Prop
  | [] => True
  | (_, v) :: ps => Wf v ∧ WfMembers ps

end

theorem wfElems_iff {xs : List (Json N)} : WfElems xs ↔ ∀ x ∈ xs, Wf x := by
  induction xs with
  | nil => simp [WfElems]
  | cons x xs ih => rw [WfElems, ih, List.forall_mem_cons]

theorem wfMembers_iff {ps : Members N} : WfMembers ps ↔ ∀ p ∈ ps, p.2.Wf := by
  induction ps with
  | nil => simp [WfMembers]
  | cons p ps ih => simp [WfMembers, ih]

theorem wf_get? {v w : Json N} {k : String} (hv : v.Wf) (h : v.get? k = some w) : w.Wf := by
  cases v with
  | obj ps =>
    obtain ⟨p, hp, rfl⟩ := Option.map_eq_some_iff.mp h
    exact wfMembers_iff.mp hv.2 p (List.mem_of_find?_eq_some hp)
  | _ => contradiction

end Json

def shortEscape (c : Char) : Option Char :=
  if c = '"' then some '"'
  else if c = '\\' then some '\\'
  else if c = '\x08' then some 'b'
  else if c = '\t' then some 't'
  else if c = '\n' then some 'n'
  else if c = '\x0c' then some 'f'
  else if c = '\r' then some 'r'
  else none

def hexDigit (n : ℕ) : Char := Char.ofNat (if n < 10 then 48 + n else 87 + n)

def escape (c : Char) : List Char :=
  match shortEscape c with
  | some e => ['\\', e]
  | none =>
    if c.toNat < 32 then ['\\', 'u', '0', '0', hexDigit (c.toNat / 16), hexDigit (c.toNat % 16)]
    else [c]

def quote (s : String) : List Char := '"' :: (s.toList.flatMap escape ++ ['"'])

section Text

variable {N : Type} [NumberFormat N]

mutual

/-- The text `JSON.stringify` writes. -/
def text : Json N → List Char
  | .null => ['n', 'u', 'l', 'l']
  | .bool true => ['t', 'r', 'u', 'e']
  | .bool false => ['f', 'a', 'l', 's', 'e']
  | .num n => NumberFormat.text n
  | .str s => quote s
  | .arr [] => ['[', ']']
  | .arr (x :: xs) => '[' :: (text x ++ elemsText xs)
  | .obj [] => ['{', '}']
  | .obj ((k, v) :: ps) => '{' :: (quote k ++ ':' :: (text v ++ membersText ps))

def elemsText : List (Json N) → List Char
  | [] => [']']
  | x :: xs => ',' :: (text x ++ elemsText xs)

def membersText : Members N → List Char
  | [] => ['}']
  | (k, v) :: ps => ',' :: (quote k ++ ':' :: (text v ++ membersText ps))

end

end Text

def isSpace (c : Char) : Bool := c = ' ' || c = '\t' || c = '\n' || c = '\r'

def skipSpace (cs : List Char) : List Char := cs.dropWhile isSpace

def hexValue (c : Char) : Option ℕ :=
  if c.isDigit then some (c.toNat - 48)
  else if 97 ≤ c.toNat ∧ c.toNat ≤ 102 then some (c.toNat - 87)
  else if 65 ≤ c.toNat ∧ c.toNat ≤ 70 then some (c.toNat - 55)
  else none

def hex4 (a b c d : Char) : Option ℕ := do
  let a ← hexValue a
  let b ← hexValue b
  let c ← hexValue c
  let d ← hexValue d
  return 16 * (16 * (16 * a + b) + c) + d

def simpleEscape (e : Char) : Option Char :=
  if e = '"' then some '"'
  else if e = '\\' then some '\\'
  else if e = '/' then some '/'
  else if e = 'b' then some '\x08'
  else if e = 'f' then some '\x0c'
  else if e = 'n' then some '\n'
  else if e = 'r' then some '\r'
  else if e = 't' then some '\t'
  else none

def isHighSurrogate (u : ℕ) : Bool := 0xd800 ≤ u && u < 0xdc00

def isLowSurrogate (u : ℕ) : Bool := 0xdc00 ≤ u && u < 0xe000

def surrogatePair (hi lo : ℕ) : Char := Char.ofNat (0x10000 + (hi - 0xd800) * 0x400 + (lo - 0xdc00))

/-- A lone surrogate is kept as the replacement character, as writing it out would. -/
def codeUnit (u : ℕ) : Char :=
  if isHighSurrogate u || isLowSurrogate u then Char.ofNat 0xfffd else Char.ofNat u

def consUnit {U : Type} (u : U) (p : Option (List U × List Char)) : Option (List U × List Char) :=
  p.map fun p => (u :: p.1, p.2)

/-- The rest of a string literal after its opening quote, as characters and
`\u` code units. -/
def scanUnits : List Char → Option (List (Char ⊕ ℕ) × List Char)
  | [] => none
  | c :: r =>
    if c = '"' then some ([], r)
    else if c = '\\' then
      match r with
      | [] => none
      | e :: r =>
        if e = 'u' then
          match r with
          | a :: b :: c :: d :: r =>
            match hex4 a b c d with
            | some u => consUnit (.inr u) (scanUnits r)
            | none => none
          | _ => none
        else
          match simpleEscape e with
          | some c => consUnit (.inl c) (scanUnits r)
          | none => none
    else if c.toNat < 32 then none
    else consUnit (.inl c) (scanUnits r)

def joinUnits : List (Char ⊕ ℕ) → List Char
  | [] => []
  | .inl c :: us => c :: joinUnits us
  | .inr u :: .inr u' :: us =>
    if isHighSurrogate u && isLowSurrogate u' then surrogatePair u u' :: joinUnits us
    else codeUnit u :: joinUnits (.inr u' :: us)
  | .inr u :: us => codeUnit u :: joinUnits us

def scanString (cs : List Char) : Option (String × List Char) :=
  (scanUnits cs).map fun p => (String.ofList (joinUnits p.1), p.2)

def strip : List Char → List Char → Option (List Char)
  | [], r => some r
  | c :: cs, c' :: r => if c = c' then strip cs r else none
  | _ :: _, [] => none

section Parse

variable {N : Type} [NumberFormat N]

def parseNumber (cs : List Char) : Option (Json N × List Char) :=
  (NumberFormat.read (cs.takeWhile isNumeric)).map fun n => (.num n, cs.dropWhile isNumeric)

def scanKey (cs : List Char) : Option (String × List Char) :=
  match skipSpace cs with
  | c :: r =>
    if c = '"' then
      match scanString r with
      | some (k, r) =>
        match skipSpace r with
        | c :: r => if c = ':' then some (k, r) else none
        | [] => none
      | none => none
    else none
  | [] => none

mutual

def parseValue : ℕ → List Char → Option (Json N × List Char)
  | 0, _ => none
  | n + 1, cs =>
    match skipSpace cs with
    | [] => none
    | c :: r =>
      if c = 'n' then (strip ['u', 'l', 'l'] r).map fun r => (.null, r)
      else if c = 't' then (strip ['r', 'u', 'e'] r).map fun r => (.bool true, r)
      else if c = 'f' then (strip ['a', 'l', 's', 'e'] r).map fun r => (.bool false, r)
      else if c = '"' then (scanString r).map fun p => (.str p.1, p.2)
      else if c = '[' then
        if (skipSpace r).head? = some ']' then some (.arr [], (skipSpace r).tail)
        else match parseValue n r with
          | none => none
          | some (v, r) => (parseElems n r).map fun p => (.arr (v :: p.1), p.2)
      else if c = '{' then
        if (skipSpace r).head? = some '}' then some (.obj [], (skipSpace r).tail)
        else match parseMember n r with
          | none => none
          | some (m, r) => (parseMembers n r).map fun p => (.obj (ofMembers (m :: p.1)), p.2)
      else parseNumber (c :: r)

def parseElems : ℕ → List Char → Option (List (Json N) × List Char)
  | 0, _ => none
  | n + 1, cs =>
    match skipSpace cs with
    | [] => none
    | c :: r =>
      if c = ']' then some ([], r)
      else if c = ',' then
        match parseValue n r with
        | none => none
        | some (v, r) => (parseElems n r).map fun p => (v :: p.1, p.2)
      else none

def parseMember : ℕ → List Char → Option ((String × Json N) × List Char)
  | 0, _ => none
  | n + 1, cs =>
    match scanKey cs with
    | none => none
    | some (k, r) => (parseValue n r).map fun p => ((k, p.1), p.2)

def parseMembers : ℕ → List Char → Option (Members N × List Char)
  | 0, _ => none
  | n + 1, cs =>
    match skipSpace cs with
    | [] => none
    | c :: r =>
      if c = '}' then some ([], r)
      else if c = ',' then
        match parseMember n r with
        | none => none
        | some (m, r) => (parseMembers n r).map fun p => (m :: p.1, p.2)
      else none

end

/-- What `JSON.parse` reads; `none` stands for its SyntaxError. -/
def parseText (cs : List Char) : Option (Json N) :=
  match parseValue (cs.length + 1) cs with
  | some (v, r) => if skipSpace r = [] then some v else none
  | none => none

end Parse

end VerdeAuth.JsonTexts
