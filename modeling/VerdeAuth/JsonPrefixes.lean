import VerdeAuth.JsonRoundTrip

/-!
# Beginnings of JSON texts

What the reader makes of a value does not depend on the text after it. So no
proper beginning of an object's text reads as a value, and neither does a text
that starts like an object and ends in anything but its brace.
-/

namespace VerdeAuth.JsonTexts

theorem skipSpace_append {cs r : List Char} {c : Char} (h : skipSpace cs = c :: r)
    (t : List Char) : skipSpace (cs ++ t) = c :: (r ++ t) := by
  rw [skipSpace] at h ⊢
  rw [List.dropWhile_append, h]
  rfl

theorem suffix_of_skipSpace {cs r : List Char} {c : Char} (h : skipSpace cs = c :: r) :
    (c :: r) <:+ cs := h ▸ List.dropWhile_suffix isSpace

private theorem rest_of_skipSpace {cs r : List Char} {c : Char} (h : skipSpace cs = c :: r) :
    r <:+ cs := (List.suffix_cons c r).trans (suffix_of_skipSpace h)

theorem strip_extend {l cs r : List Char} (h : strip l cs = some r) :
    r <:+ cs ∧ ∀ t, strip l (cs ++ t) = some (r ++ t) := by
  induction l generalizing cs with
  | nil =>
    cases h
    exact ⟨List.suffix_refl _, fun _ => rfl⟩
  | cons c l ih =>
    cases cs with
    | nil => cases h
    | cons c' cs =>
      rw [strip] at h
      split_ifs at h with hc
      obtain ⟨hsuffix, hextend⟩ := ih h
      constructor
      · exact hsuffix.trans (List.suffix_cons c' cs)
      · intro t
        rw [List.cons_append, strip, if_pos hc]
        exact hextend t

private theorem consUnit_eq_some {U : Type} {u : U} {p : Option (List U × List Char)} {us : List U}
    {r : List Char} (h : consUnit u p = some (us, r)) : ∃ vs, p = some (vs, r) ∧ us = u :: vs := by
  obtain ⟨⟨vs, r'⟩, hp, heq⟩ := Option.map_eq_some_iff.mp h
  cases heq
  exact ⟨vs, hp, rfl⟩

/-- The characters of one unit of a string literal are read alike before any text. -/
theorem scanUnits_step {cs r : List Char} {us : List (Char ⊕ ℕ)} (h : scanUnits cs = some (us, r)) :
    cs = '"' :: r ∧ us = [] ∨ ∃ u c pre rest vs, cs = c :: (pre ++ rest) ∧ us = u :: vs ∧
      scanUnits rest = some (vs, r) ∧
      ∀ s, scanUnits (c :: (pre ++ s)) = consUnit u (scanUnits s) := by
  rw [scanUnits.eq_def] at h
  split at h
  · cases h
  · next c cs =>
    split_ifs at h with hquote hslash hlow
    · cases h
      exact Or.inl ⟨congrArg (· :: r) hquote, rfl⟩
    · apply Or.inr
      split at h
      · cases h
      · next e cs =>
        split_ifs at h with hu
        · split at h
          · next a b c' d cs =>
            cases hex : hex4 a b c' d with
            | none =>
              rw [hex] at h
              cases h
            | some u =>
              rw [hex] at h
              obtain ⟨vs, hvs, hus⟩ := consUnit_eq_some h
              refine ⟨.inr u, c, [e, a, b, c', d], cs, vs, rfl, hus, hvs, fun s => ?_⟩
              rw [scanUnits.eq_def]
              simp [hslash, hu, hex]
          · cases h
        · cases he : simpleEscape e with
          | none =>
            rw [he] at h
            cases h
          | some c' =>
            rw [he] at h
            obtain ⟨vs, hvs, hus⟩ := consUnit_eq_some h
            refine ⟨.inl c', c, [e], cs, vs, rfl, hus, hvs, fun s => ?_⟩
            rw [scanUnits.eq_def]
            simp [hslash, hu, he]
    · obtain ⟨vs, hvs, hus⟩ := consUnit_eq_some h
      refine Or.inr ⟨.inl c, c, [], cs, vs, rfl, hus, hvs, fun s => ?_⟩
      rw [scanUnits.eq_def]
      simp [hquote, hslash, hlow]

theorem scanUnits_extend {cs r : List Char} {us : List (Char ⊕ ℕ)}
    (h : scanUnits cs = some (us, r)) :
    r <:+ cs ∧ ∀ t, scanUnits (cs ++ t) = some (us, r ++ t) := by
  induction us generalizing cs with
  | nil =>
    rcases scanUnits_step h with ⟨rfl, -⟩ | ⟨u, c, pre, rest, vs, -, hus, -⟩
    · constructor
      · exact List.suffix_cons _ _
      · intro t
        rw [List.cons_append, scanUnits.eq_def]
        rfl
    · cases hus
  | cons u us ih =>
    rcases scanUnits_step h with ⟨-, hus⟩ | ⟨u, c, pre, rest, vs, rfl, hus, hvs, hstep⟩
    · cases hus
    · cases hus
      obtain ⟨hsuffix, hextend⟩ := ih hvs
      constructor
      · exact (hsuffix.trans (List.suffix_append pre rest)).trans (List.suffix_cons c _)
      · intro t
        rw [List.cons_append, List.append_assoc, hstep, hextend]
        rfl

theorem scanString_extend {cs r : List Char} {s : String} (h : scanString cs = some (s, r)) :
    r <:+ cs ∧ ∀ t, scanString (cs ++ t) = some (s, r ++ t) := by
  obtain ⟨⟨us, r'⟩, hp, heq⟩ := Option.map_eq_some_iff.mp h
  cases heq
  obtain ⟨hsuffix, hextend⟩ := scanUnits_extend hp
  constructor
  · exact hsuffix
  · intro t
    rw [scanString, hextend]
    rfl

theorem scanKey_extend {cs r : List Char} {k : String} (h : scanKey cs = some (k, r)) :
    r <:+ cs ∧ ∀ t, scanKey (cs ++ t) = some (k, r ++ t) := by
  cases hcs : skipSpace cs with
  | nil =>
    rw [scanKey, hcs] at h
    cases h
  | cons c r₁ =>
    rw [scanKey, hcs] at h
    simp only at h
    split_ifs at h with hquote
    cases hs : scanString r₁ with
    | none =>
      rw [hs] at h
      cases h
    | some p =>
      rcases p with ⟨k', r₂⟩
      rw [hs] at h
      cases hr : skipSpace r₂ with
      | nil =>
        simp only [hr] at h
        cases h
      | cons c' r₃ =>
        simp only [hr] at h
        split_ifs at h with hcolon
        cases h
        obtain ⟨hsuffix, hextend⟩ := scanString_extend hs
        constructor
        · exact ((rest_of_skipSpace hr).trans hsuffix).trans (rest_of_skipSpace hcs)
        · intro t
          rw [scanKey, skipSpace_append hcs]
          simp only [if_pos hquote, hextend]
          rw [skipSpace_append hr]
          simp only [if_pos hcolon]

section Values

variable {N : Type} [NumberFormat N]

def Json.isNum : Json N → Bool
  | .num _ => true
  | _ => false

def Json.isObj : Json N → Bool
  | .obj _ => true
  | _ => false

/-- With at least this fuel, the reader makes the same of the text whatever follows it. -/
def ReadsAlike {α : Type} (p : ℕ → List Char → Option (α × List Char)) (n : ℕ) (cs : List Char)
    (a : α) (r : List Char) : Prop := ∀ m t, n ≤ m → p m (cs ++ t) = some (a, r ++ t)

theorem parseNumber_extend {cs r : List Char} {v : Json N} (h : parseNumber cs = some (v, r)) :
    r <:+ cs ∧ v.isObj = false ∧
      ((v.isNum = true → r ≠ []) → ∀ t, parseNumber (cs ++ t) = some (v, r ++ t)) := by
  obtain ⟨n, hn, heq⟩ := Option.map_eq_some_iff.mp h
  cases heq
  refine ⟨List.dropWhile_suffix isNumeric, rfl, fun hr t => ?_⟩
  have hrest : cs.dropWhile isNumeric ≠ [] := hr rfl
  have hlen : (cs.takeWhile isNumeric).length ≠ cs.length := by
    intro hlen
    have hsum := congrArg List.length (List.takeWhile_append_dropWhile (p := isNumeric) (l := cs))
    rw [List.length_append] at hsum
    exact hrest (List.length_eq_zero_iff.mp (by omega))
  rw [parseNumber, List.takeWhile_append, if_neg hlen, hn, List.dropWhile_append]
  simp [hrest]

/-- Values other than arrays and objects. -/
theorem parseValue_leaf {n : ℕ} {cs r r₀ : List Char} {c : Char} {v : Json N}
    (hcs : skipSpace cs = c :: r₀) (harr : c ≠ '[') (hobj : c ≠ '{')
    (h : parseValue (n + 1) cs = some (v, r)) :
    r <:+ cs ∧ v.isObj = false ∧
      ((v.isNum = true → r ≠ []) → ∀ m t, parseValue (m + 1) (cs ++ t) = some (v, r ++ t)) := by
  have hword : ∀ {l : List Char} {w : Json N}, w.isObj = false →
      (strip l r₀).map (fun r => (w, r)) = some (v, r) → r <:+ cs ∧ v.isObj = false ∧
        ∀ t, (strip l (r₀ ++ t)).map (fun r => (w, r)) = some (v, r ++ t) := by
    intro l w hw hl
    obtain ⟨r', hstrip, heq⟩ := Option.map_eq_some_iff.mp hl
    cases heq
    obtain ⟨hsuffix, hextend⟩ := strip_extend hstrip
    refine ⟨hsuffix.trans (rest_of_skipSpace hcs), hw, fun t => ?_⟩
    rw [hextend]
    rfl
  rw [parseValue, hcs] at h
  simp only at h
  split_ifs at h with hn ht hf hs
  · obtain ⟨hsuffix, hv, hextend⟩ := hword rfl h
    refine ⟨hsuffix, hv, fun _ m t => ?_⟩
    rw [parseValue, skipSpace_append hcs]
    simp only [if_pos hn]
    exact hextend t
  · obtain ⟨hsuffix, hv, hextend⟩ := hword rfl h
    refine ⟨hsuffix, hv, fun _ m t => ?_⟩
    rw [parseValue, skipSpace_append hcs]
    simp only [if_neg hn, if_pos ht]
    exact hextend t
  · obtain ⟨hsuffix, hv, hextend⟩ := hword rfl h
    refine ⟨hsuffix, hv, fun _ m t => ?_⟩
    rw [parseValue, skipSpace_append hcs]
    simp only [if_neg hn, if_neg ht, if_pos hf]
    exact hextend t
  · obtain ⟨⟨s, r'⟩, hscan, heq⟩ := Option.map_eq_some_iff.mp h
    cases heq
    obtain ⟨hsuffix, hextend⟩ := scanString_extend hscan
    refine ⟨hsuffix.trans (rest_of_skipSpace hcs), rfl, fun _ m t => ?_⟩
    rw [parseValue, skipSpace_append hcs]
    simp only [if_neg hn, if_neg ht, if_neg hf, if_pos hs, hextend]
    rfl
  · obtain ⟨hsuffix, hv, hextend⟩ := parseNumber_extend h
    refine ⟨hsuffix.trans (suffix_of_skipSpace hcs), hv, fun hr m t => ?_⟩
    rw [parseValue, skipSpace_append hcs]
    simp only [if_neg hn, if_neg ht, if_neg hf, if_neg hs, if_neg harr, if_neg hobj]
    exact hextend hr t

variable (N) in
/-- With this fuel the readers leave an end of the text, those of a bracket's contents
after the closing one, and make the same of it whatever is added; only after a number
there has to be something. -/
structure ReadsOn (n : ℕ) : Prop where
  value : ∀ {cs r : List Char} {v : Json N}, parseValue n cs = some (v, r) →
    r <:+ cs ∧ (v.isObj = true → ('}' :: r) <:+ cs) ∧
      ((v.isNum = true → r ≠ []) → ReadsAlike parseValue n cs v r)
  elems : ∀ {cs r : List Char} {xs : List (Json N)}, parseElems n cs = some (xs, r) →
    (']' :: r) <:+ cs ∧ ReadsAlike parseElems n cs xs r
  member : ∀ {cs r : List Char} {m : String × Json N}, parseMember n cs = some (m, r) →
    r <:+ cs ∧ ((m.2.isNum = true → r ≠ []) → ReadsAlike parseMember n cs m r)
  members : ∀ {cs r : List Char} {ps : Members N}, parseMembers n cs = some (ps, r) →
    ('}' :: r) <:+ cs ∧ ReadsAlike parseMembers n cs ps r

omit [NumberFormat N] in
private theorem ne_nil_of_cons_suffix {c : Char} {r cs : List Char} (h : (c :: r) <:+ cs) :
    cs ≠ [] := by
  rintro rfl
  exact absurd (List.suffix_nil.mp h) (List.cons_ne_nil c r)

omit [NumberFormat N] in
private theorem exists_fuel {n m : ℕ} (h : n + 1 ≤ m) : ∃ k, m = k + 1 ∧ n ≤ k :=
  ⟨m - 1, by omega, by omega⟩

omit [NumberFormat N] in
/-- A list up to its closing bracket, each item after a comma. -/
theorem list_extend {α : Type} (item : ℕ → List Char → Option (α × List Char))
    (list : ℕ → List Char → Option (List α × List Char)) (close : Char)
    (hlist : ∀ k cs, list (k + 1) cs = match skipSpace cs with
      | [] => none
      | c :: r =>
        if c = close then some ([], r)
        else if c = ',' then
          match item k r with
          | none => none
          | some (x, r) => (list k r).map fun p => (x :: p.1, p.2)
        else none)
    {n : ℕ} (hitem : ∀ {cs r x}, item n cs = some (x, r) →
      r <:+ cs ∧ (r ≠ [] → ReadsAlike item n cs x r))
    (ih : ∀ {cs r xs}, list n cs = some (xs, r) → (close :: r) <:+ cs ∧ ReadsAlike list n cs xs r)
    {cs r : List Char} {xs : List α} (h : list (n + 1) cs = some (xs, r)) :
    (close :: r) <:+ cs ∧ ReadsAlike list (n + 1) cs xs r := by
  rw [hlist] at h
  cases hcs : skipSpace cs with
  | nil =>
    rw [hcs] at h
    cases h
  | cons c r₀ =>
    rw [hcs] at h
    simp only at h
    split_ifs at h with hend hcomma
    · cases h
      constructor
      · exact hend ▸ suffix_of_skipSpace hcs
      · intro m t hm
        obtain ⟨k, rfl, -⟩ := exists_fuel hm
        rw [hlist, skipSpace_append hcs]
        simp only [if_pos hend]
    · cases hx : item n r₀ with
      | none =>
        rw [hx] at h
        cases h
      | some p =>
        rcases p with ⟨x, r₁⟩
        rw [hx] at h
        obtain ⟨⟨ys, r'⟩, hys, heq⟩ := Option.map_eq_some_iff.mp h
        cases heq
        obtain ⟨hsuffix, hitems⟩ := hitem hx
        obtain ⟨hclose, hrest⟩ := ih hys
        constructor
        · exact (hclose.trans hsuffix).trans (rest_of_skipSpace hcs)
        · intro m t hm
          obtain ⟨k, rfl, hk⟩ := exists_fuel hm
          rw [hlist, skipSpace_append hcs]
          simp only [if_neg hend, if_pos hcomma, hitems (ne_nil_of_cons_suffix hclose) k t hk,
            hrest k t hk, Option.map_some]

private theorem ReadsOn.member_succ {n : ℕ} (ih : ReadsOn N n) {cs r : List Char}
    {m : String × Json N} (h : parseMember (n + 1) cs = some (m, r)) :
    r <:+ cs ∧ ((m.2.isNum = true → r ≠ []) → ReadsAlike parseMember (n + 1) cs m r) := by
  rw [parseMember] at h
  cases hk : scanKey cs with
  | none =>
    rw [hk] at h
    cases h
  | some p =>
    rcases p with ⟨k, r₁⟩
    rw [hk] at h
    obtain ⟨⟨v, r'⟩, hv, heq⟩ := Option.map_eq_some_iff.mp h
    cases heq
    obtain ⟨hkey, hkeys⟩ := scanKey_extend hk
    obtain ⟨hsuffix, -, hvalue⟩ := ih.value hv
    refine ⟨hsuffix.trans hkey, fun hr m t hm => ?_⟩
    obtain ⟨j, rfl, hj⟩ := exists_fuel hm
    rw [parseMember, hkeys]
    simp only [hvalue hr j t hj, Option.map_some]

private theorem ReadsOn.item {n : ℕ} (ih : ReadsOn N n) {cs r : List Char} {v : Json N}
    (h : parseValue n cs = some (v, r)) :
    r <:+ cs ∧ (r ≠ [] → ReadsAlike parseValue n cs v r) := by
  obtain ⟨hsuffix, -, hvalue⟩ := ih.value h
  exact ⟨hsuffix, fun hr => hvalue fun _ => hr⟩

private theorem ReadsOn.memberItem {n : ℕ} (ih : ReadsOn N n) {cs r : List Char}
    {m : String × Json N} (h : parseMember n cs = some (m, r)) :
    r <:+ cs ∧ (r ≠ [] → ReadsAlike parseMember n cs m r) := by
  obtain ⟨hsuffix, hmember⟩ := ih.member h
  exact ⟨hsuffix, fun hr => hmember fun _ => hr⟩

private theorem ReadsOn.elems_succ {n : ℕ} (ih : ReadsOn N n) {cs r : List Char}
    {xs : List (Json N)} (h : parseElems (n + 1) cs = some (xs, r)) :
    (']' :: r) <:+ cs ∧ ReadsAlike parseElems (n + 1) cs xs r := by
  apply list_extend parseValue parseElems ']' _ ih.item ih.elems h
  intro k cs
  rw [parseElems]
  cases skipSpace cs with
  | nil => rfl
  | cons c r =>
    simp only
    cases (parseValue k r : Option (Json N × List Char)) <;> rfl

private theorem ReadsOn.members_succ {n : ℕ} (ih : ReadsOn N n) {cs r : List Char}
    {ps : Members N} (h : parseMembers (n + 1) cs = some (ps, r)) :
    ('}' :: r) <:+ cs ∧ ReadsAlike parseMembers (n + 1) cs ps r := by
  apply list_extend parseMember parseMembers '}' _ ih.memberItem ih.members h
  intro k cs
  rw [parseMembers]
  cases skipSpace cs with
  | nil => rfl
  | cons c r =>
    simp only
    cases (parseMember k r : Option ((String × Json N) × List Char)) <;> rfl

private theorem head_skipSpace_append {cs : List Char} (h : skipSpace cs ≠ []) (t : List Char) :
    (skipSpace (cs ++ t)).head? = (skipSpace cs).head? := by
  obtain ⟨c, r, hcs⟩ := List.exists_cons_of_ne_nil h
  rw [skipSpace_append hcs, hcs]
  rfl

private theorem skipSpace_of_parseValue {n : ℕ} {cs : List Char} {p : Json N × List Char}
    (h : parseValue n cs = some p) : skipSpace cs ≠ [] := by
  intro hcs
  cases n with
  | zero =>
    rw [parseValue] at h
    cases h
  | succ n =>
    rw [parseValue, hcs] at h
    cases h

private theorem skipSpace_of_parseMember {n : ℕ} {cs : List Char}
    {p : (String × Json N) × List Char} (h : parseMember n cs = some p) : skipSpace cs ≠ [] := by
  intro hcs
  cases n with
  | zero =>
    rw [parseMember] at h
    cases h
  | succ n =>
    rw [parseMember, scanKey, hcs] at h
    cases h

/-- What follows an opening bracket. -/
def bracketed {α : Type} (item : ℕ → List Char → Option (α × List Char))
    (list : ℕ → List Char → Option (List α × List Char)) (close : Char) (make : List α → Json N)
    (k : ℕ) (r : List Char) : Option (Json N × List Char) :=
  if (skipSpace r).head? = some close then some (make [], (skipSpace r).tail)
  else match item k r with
    | none => none
    | some (x, r) => (list k r).map fun p => (make (x :: p.1), p.2)

omit [NumberFormat N] in
theorem bracketed_extend {α : Type} {item : ℕ → List Char → Option (α × List Char)}
    {list : ℕ → List Char → Option (List α × List Char)} {close : Char} {make : List α → Json N}
    {n : ℕ} (hhead : ∀ {cs p}, item n cs = some p → skipSpace cs ≠ [])
    (hitem : ∀ {cs r x}, item n cs = some (x, r) →
      r <:+ cs ∧ (r ≠ [] → ReadsAlike item n cs x r))
    (hlist : ∀ {cs r xs}, list n cs = some (xs, r) →
      (close :: r) <:+ cs ∧ ReadsAlike list n cs xs r)
    {r₀ r : List Char} {v : Json N} (h : bracketed item list close make n r₀ = some (v, r)) :
    (close :: r) <:+ r₀ ∧ ReadsAlike (bracketed item list close make) n r₀ v r ∧
      ∃ xs, v = make xs := by
  rw [bracketed] at h
  split_ifs at h with hend
  · cases h
    obtain ⟨c, r, hr⟩ : ∃ c r, skipSpace r₀ = c :: r := List.exists_cons_of_ne_nil fun hnil => by
      simp [hnil] at hend
    have hc : c = close := by simpa [hr] using hend
    rw [hr, List.tail_cons, ← hc]
    refine ⟨suffix_of_skipSpace hr, fun m t _ => ?_, [], rfl⟩
    rw [bracketed, skipSpace_append hr, List.head?_cons, if_pos rfl, List.tail_cons]
  · cases hx : item n r₀ with
    | none =>
      rw [hx] at h
      cases h
    | some p =>
      rcases p with ⟨x, r₁⟩
      rw [hx] at h
      obtain ⟨⟨ys, r'⟩, hys, heq⟩ := Option.map_eq_some_iff.mp h
      cases heq
      obtain ⟨hsuffix, hitems⟩ := hitem hx
      obtain ⟨hclose, hrest⟩ := hlist hys
      refine ⟨hclose.trans hsuffix, fun m t hm => ?_, x :: ys, rfl⟩
      rw [bracketed, head_skipSpace_append (hhead hx), if_neg hend,
        hitems (ne_nil_of_cons_suffix hclose) m t hm]
      simp only [hrest m t hm, Option.map_some]

private theorem parseValue_array {k : ℕ} {cs r : List Char} (hcs : skipSpace cs = '[' :: r) :
    (parseValue (k + 1) cs : Option (Json N × List Char)) =
      bracketed parseValue parseElems ']' .arr k r := by
  rw [parseValue, hcs, bracketed]
  simp only [↓Char.isValue, Char.reduceEq, ↓reduceIte]
  cases (parseValue k r : Option (Json N × List Char)) <;> rfl

private theorem parseValue_object {k : ℕ} {cs r : List Char} (hcs : skipSpace cs = '{' :: r) :
    (parseValue (k + 1) cs : Option (Json N × List Char)) =
      bracketed parseMember parseMembers '}' (fun ps => .obj (ofMembers ps)) k r := by
  rw [parseValue, hcs, bracketed]
  simp only [↓Char.isValue, Char.reduceEq, ↓reduceIte]
  cases (parseMember k r : Option ((String × Json N) × List Char)) <;> rfl

private theorem ReadsOn.value_succ {n : ℕ} (ih : ReadsOn N n) {cs r : List Char} {v : Json N}
    (h : parseValue (n + 1) cs = some (v, r)) :
    r <:+ cs ∧ (v.isObj = true → ('}' :: r) <:+ cs) ∧
      ((v.isNum = true → r ≠ []) → ReadsAlike parseValue (n + 1) cs v r) := by
  obtain ⟨c, r₀, hcs⟩ := List.exists_cons_of_ne_nil (skipSpace_of_parseValue h)
  have hrest := rest_of_skipSpace hcs
  by_cases harr : c = '['
  · subst harr
    rw [parseValue_array hcs] at h
    obtain ⟨hclose, hread, xs, rfl⟩ := bracketed_extend skipSpace_of_parseValue ih.item ih.elems h
    refine ⟨((List.suffix_cons _ _).trans hclose).trans hrest, by simp [Json.isObj], ?_⟩
    intro _ m t hm
    obtain ⟨k, rfl, hk⟩ := exists_fuel hm
    rw [parseValue_array (skipSpace_append hcs t)]
    exact hread k t hk
  · by_cases hobj : c = '{'
    · subst hobj
      rw [parseValue_object hcs] at h
      obtain ⟨hclose, hread, -⟩ :=
        bracketed_extend skipSpace_of_parseMember ih.memberItem ih.members h
      refine ⟨((List.suffix_cons _ _).trans hclose).trans hrest, fun _ => hclose.trans hrest, ?_⟩
      intro _ m t hm
      obtain ⟨k, rfl, hk⟩ := exists_fuel hm
      rw [parseValue_object (skipSpace_append hcs t)]
      exact hread k t hk
    · obtain ⟨hsuffix, hv, hextend⟩ := parseValue_leaf hcs harr hobj h
      refine ⟨hsuffix, by simp [hv], fun hr m t hm => ?_⟩
      obtain ⟨k, rfl, -⟩ := exists_fuel hm
      exact hextend hr k t

/-- How the readers go on does not depend on the fuel. -/
theorem readsOn (n : ℕ) : ReadsOn N n := by
  induction n with
  | zero =>
    constructor
    all_goals
      intro cs r x h
      simp [parseValue, parseElems, parseMember, parseMembers] at h
  | succ n ih => exact ⟨ih.value_succ, ih.elems_succ, ih.member_succ, ih.members_succ⟩

theorem parseText_eq_some {cs : List Char} {v : Json N} : parseText cs = some v ↔
    ∃ s, parseValue (cs.length + 1) cs = some (v, s) ∧ skipSpace s = [] := by
  rw [parseText]
  cases hp : (parseValue (cs.length + 1) cs : Option (Json N × List Char)) with
  | none => simp
  | some p =>
    rcases p with ⟨w, s⟩
    by_cases hs : skipSpace s = []
    · simp [hs]
    · simp [hs]

/-- After a value, and one that is no number, only white space may follow. -/
theorem parseText_append {cs : List Char} {v : Json N} (h : parseText cs = some v)
    (hv : v.isNum = false) {r : List Char} (hr : skipSpace r ≠ []) :
    (parseText (cs ++ r) : Option (Json N)) = none := by
  obtain ⟨s, hp, hs⟩ := parseText_eq_some.mp h
  have hread := ((readsOn (cs.length + 1)).value hp).2.2 (by simp [hv]) ((cs ++ r).length + 1) r
    (by simp)
  have hspace : skipSpace (s ++ r) = skipSpace r := by
    rw [skipSpace] at hs ⊢
    rw [List.dropWhile_append, hs]
    rfl
  rw [parseText, hread]
  simp only [hspace, if_neg hr]

/-- What starts with a brace reads as an object. -/
theorem isObj_of_parseText {cs : List Char} {v : Json N} (h : parseText ('{' :: cs) = some v) :
    v.isObj = true := by
  obtain ⟨s, hp, -⟩ := parseText_eq_some.mp h
  rw [parseValue_object (skipSpace_cons (by decide) cs)] at hp
  obtain ⟨-, -, ps, rfl⟩ := bracketed_extend skipSpace_of_parseMember
    (readsOn _).memberItem (readsOn _).members hp
  rfl

/-- A text without a bracket is no list. -/
theorem parseText_ne_arr {cs : List Char} (h : '[' ∉ cs) (vs : List (Json N)) :
    parseText cs ≠ some (.arr vs) := by
  intro hparse
  obtain ⟨s, hp, -⟩ := parseText_eq_some.mp hparse
  rw [parseValue] at hp
  cases hskip : skipSpace cs with
  | nil => simp [hskip] at hp
  | cons c r =>
    have hc : c ≠ '[' := by
      rintro rfl
      have hmem : '[' ∈ skipSpace cs := by simp [hskip]
      exact h ((List.dropWhile_sublist _).subset hmem)
    simp only [hskip, hc, if_false] at hp
    split_ifs at hp
    all_goals try simp [parseNumber] at hp
    split at hp
    · cases hp
    · simp at hp

/-- An object's text ends in a brace, up to white space. -/
theorem ends_of_parseText {cs : List Char} {v : Json N} (h : parseText cs = some v)
    (hv : v.isObj = true) : ∃ r s, cs = r ++ '}' :: s ∧ skipSpace s = [] := by
  obtain ⟨s, hp, hs⟩ := parseText_eq_some.mp h
  obtain ⟨r, hr⟩ := ((readsOn _).value hp).2.1 hv
  exact ⟨r, s, hr.symm, hs⟩

/-- A text that starts with a brace does not read as a value before it has ended. -/
theorem parseText_beginning {cs r : List Char} {v : Json N}
    (h : parseText ('{' :: (cs ++ r)) = some v) (hr : skipSpace r ≠ []) : (parseText ('{' :: cs) : Option (Json N)) = none := by
  cases hcs : (parseText ('{' :: cs) : Option (Json N)) with
  | none => rfl
  | some w =>
    have hw := isObj_of_parseText hcs
    have hnum : w.isNum = false := by cases w <;> simp_all [Json.isNum, Json.isObj]
    have hnone := parseText_append hcs hnum hr
    rw [List.cons_append, h] at hnone
    cases hnone

end Values

end VerdeAuth.JsonTexts
