import VerdeAuth.JsonTexts

/-!
# Operators on JSON values

What the operators of JavaScript do with values read from JSON: truth value,
strict equality, conversion to text and to a number, comparison with a number.
`undefined` is `none`. A conversion throws for an object with an own member
`toString`, which is then no function.
-/

namespace VerdeAuth.JsonTexts

/-- Numbers with what the operators need of them. All natural numbers are among them, where
doubles have those up to 2^53. -/
class JsNumber (N : Type) extends NumberFormat N where
  ofNat : ℕ → N
  /-- The number as a natural number, where it is one. -/
  toNat? : N → Option ℕ
  lt : N → N → Bool
  /-- `Number(s)` for a text; `none` is NaN. -/
  ofText : String → Option N
  toNat?_ofNat : ∀ n, toNat? (ofNat n) = some n
  lt_ofNat : ∀ m n, lt (ofNat m) (ofNat n) = decide (m < n)

namespace Json

variable {N : Type}

/-- The condition `if (v)` tests. -/
def truthy [JsNumber N] [DecidableEq N] : Option (Json N) → Bool
  | none => false
  | some .null => false
  | some (.bool b) => b
  | some (.num n) => n ≠ JsNumber.ofNat 0
  | some (.str s) => s ≠ ""
  | some (.arr _) => true
  | some (.obj _) => true

/-- `v === w`; two separately read arrays or objects are never the same one. -/
def strictEq [DecidableEq N] : Option (Json N) → Option (Json N) → Bool
  | none, none => true
  | some .null, some .null => true
  | some (.bool b), some (.bool b') => b = b'
  | some (.num n), some (.num n') => n = n'
  | some (.str s), some (.str s') => s = s'
  | _, _ => false

theorem strictEq_str_iff [DecidableEq N] {v : Option (Json N)} {s : String} :
    strictEq v (some (.str s)) = true ↔ v = some (.str s) := by
  rcases v with _ | (_ | _ | _ | _ | _ | _) <;> simp [strictEq]

variable [JsNumber N]

mutual

/-- `String(v)`; `none` is a TypeError. -/
def toText : Json N → Option String
  | .null => some "null"
  | .bool true => some "true"
  | .bool false => some "false"
  | .num n => some (String.ofList (NumberFormat.text n))
  | .str s => some s
  | .arr xs => (elemTexts xs).map (",".intercalate ·)
  | .obj ps => if ps.any fun p => p.1 = "toString" then none else some "[object Object]"

def elemTexts : List (Json N) → Option (List String)
  | [] => some []
  | .null :: xs => (elemTexts xs).map ("" :: ·)
  | x :: xs => do
    let t ← toText x
    let ts ← elemTexts xs
    return t :: ts

end

/-- `${v}`; `none` is a TypeError. -/
def templateText : Option (Json N) → Option String
  | none => some "undefined"
  | some v => toText v

/-- `Number(v)`: `none` is a TypeError, `some none` is NaN. -/
def toNumber : Option (Json N) → Option (Option N)
  | none => some none
  | some .null => some (some (JsNumber.ofNat 0))
  | some (.bool b) => some (some (JsNumber.ofNat (if b then 1 else 0)))
  | some (.num n) => some (some n)
  | some (.str s) => some (JsNumber.ofText s)
  | some v => match toText v with
    | some s => some (JsNumber.ofText s)
    | none => none

/-- `v < n`; `none` is a TypeError. -/
def lessThan (v : Option (Json N)) (n : ℕ) : Option Bool :=
  (toNumber v).map fun x => x.any fun x => JsNumber.lt x (JsNumber.ofNat n)

/-- `v > n`; `none` is a TypeError. -/
def greaterThan (v : Option (Json N)) (n : ℕ) : Option Bool :=
  (toNumber v).map fun x => x.any fun x => JsNumber.lt (JsNumber.ofNat n) x

@[simp] theorem lessThan_ofNat (m n : ℕ) :
    lessThan (some (.num (JsNumber.ofNat m)) : Option (Json N)) n = some (decide (m < n)) := by
  simp [lessThan, toNumber, JsNumber.lt_ofNat]

@[simp] theorem greaterThan_ofNat (m n : ℕ) :
    greaterThan (some (.num (JsNumber.ofNat m)) : Option (Json N)) n = some (decide (n < m)) := by
  simp [greaterThan, toNumber, JsNumber.lt_ofNat]

/-- `v + s` for a string `s`; `none` is a TypeError. -/
def concat (v : Option (Json N)) (s : String) : Option String :=
  match v with
  | none => some ("undefined" ++ s)
  | some v => (toText v).map (· ++ s)

end Json

/-! Natural numbers, written in decimal, as a number type. -/

def digitChar (n : ℕ) : Char := Char.ofNat (48 + n)

/-- Decimal digits of a number below `10 ^ fuel`. -/
def decimalDigits : ℕ → ℕ → List Char
  | 0, _ => []
  | fuel + 1, n => if n < 10 then [digitChar n] else decimalDigits fuel (n / 10) ++ [digitChar (n % 10)]

def decimal (n : ℕ) : List Char := decimalDigits (n + 1) n

def readDigits (cs : List Char) : ℕ := cs.foldl (fun n c => 10 * n + (c.toNat - 48)) 0

def readDecimal (cs : List Char) : Option ℕ :=
  if cs ≠ [] ∧ cs.all Char.isDigit ∧ (cs.head? = some '0' → cs.length = 1) then some (readDigits cs)
  else none

private theorem digitChar_spec : ∀ n < 10, (digitChar n).isDigit = true ∧
    (digitChar n).toNat - 48 = n ∧ (0 < n → digitChar n ≠ '0') := by decide

private theorem decimalDigits_isDigit (fuel n : ℕ) :
    ∀ c ∈ decimalDigits fuel n, c.isDigit = true := by
  induction fuel generalizing n with
  | zero => simp [decimalDigits]
  | succ fuel ih =>
    intro c hc
    unfold decimalDigits at hc
    split at hc
    · next h =>
      rw [List.mem_singleton.mp hc]
      exact (digitChar_spec n h).1
    · rcases List.mem_append.mp hc with hc | hc
      · exact ih _ c hc
      · rw [List.mem_singleton.mp hc]
        exact (digitChar_spec (n % 10) (by omega)).1

private theorem decimalDigits_spec (fuel n : ℕ) (h : n < fuel) :
    readDigits (decimalDigits fuel n) = n ∧ decimalDigits fuel n ≠ [] ∧
      ((decimalDigits fuel n).head? = some '0' → (decimalDigits fuel n).length = 1) ∧
      (0 < n → (decimalDigits fuel n).head? ≠ some '0') := by
  induction fuel generalizing n with
  | zero => omega
  | succ fuel ih =>
    unfold decimalDigits
    split
    · next hn =>
      obtain ⟨-, hv, h0⟩ := digitChar_spec n hn
      exact ⟨by simpa [readDigits] using hv, by simp, by simp, by simpa using h0⟩
    · next hn =>
      obtain ⟨hr, hne, -, h0⟩ := ih (n / 10) (by omega)
      have hv := (digitChar_spec (n % 10) (by omega)).2.1
      have hhead : (decimalDigits fuel (n / 10) ++ [digitChar (n % 10)]).head? ≠ some '0' := by
        rw [List.head?_append_of_ne_nil _ hne]
        exact h0 (by omega)
      refine ⟨?_, by simp, fun h => absurd h hhead, fun _ => hhead⟩
      simp only [readDigits, List.foldl_append, List.foldl_cons, List.foldl_nil] at hr ⊢
      rw [hr, hv]
      omega

theorem readDecimal_decimal (n : ℕ) : readDecimal (decimal n) = some n := by
  obtain ⟨hr, hne, h0, -⟩ := decimalDigits_spec (n + 1) n (Nat.lt_succ_self n)
  have hd : (decimal n).all Char.isDigit = true :=
    List.all_eq_true.mpr (decimalDigits_isDigit (n + 1) n)
  simp only [readDecimal]
  rw [if_pos ⟨hne, hd, h0⟩]
  exact congrArg some hr

instance naturalNumbers : JsNumber ℕ where
  text := decimal
  read := readDecimal
  text_ne_nil n := (decimalDigits_spec (n + 1) n (Nat.lt_succ_self n)).2.1
  numeric n c hc := by simp [isNumeric, decimalDigits_isDigit (n + 1) n c hc]
  read_text := readDecimal_decimal
  ofNat n := n
  toNat? := some
  lt m n := m < n
  ofText s := if s = "" then some 0 else readDecimal s.toList
  toNat?_ofNat _ := rfl
  lt_ofNat _ _ := rfl

end VerdeAuth.JsonTexts
