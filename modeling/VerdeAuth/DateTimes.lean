import VerdeAuth.SiemLoggerService

/-!
# Date-times

The texts of RFC 3339 for a point in time, which the `date-time` format of JSON
Schema asks for, and that the clock writes such texts.
-/

namespace VerdeAuth.DateTimes

open JsonTexts SiemLoggerService

def isLeapYear (y : ℕ) : Bool := y % 4 = 0 && (y % 100 ≠ 0 || y % 400 = 0)

def daysInMonth (y m : ℕ) : ℕ :=
  if m = 2 then (if isLeapYear y then 29 else 28)
  else if m = 4 ∨ m = 6 ∨ m = 9 ∨ m = 11 then 30
  else 31

def isDate (y m d : ℕ) : Bool := 1 ≤ m && m ≤ 12 && 1 ≤ d && d ≤ daysInMonth y m

/-- The number these decimal digits denote. -/
def numeral (cs : List Char) : Option ℕ := if cs.all Char.isDigit then some (readDigits cs) else none

def isFullDate (year month day : List Char) : Bool :=
  match numeral year, numeral month, numeral day with
  | some y, some m, some d => isDate y m d
  | _, _, _ => false

/-- At most this hour, minute or second. -/
def atMost (n : ℕ) (cs : List Char) : Bool := (numeral cs).any (· ≤ n)

def isOffset : List Char → Bool
  | ['Z'] | ['z'] => true
  | [sign, h, h', ':', m, m'] => (sign = '+' || sign = '-') && atMost 23 [h, h'] && atMost 59 [m, m']
  | _ => false

/-- Fraction of a second, where there is one, and offset. -/
def isRest : List Char → Bool
  | '.' :: cs => (cs.takeWhile Char.isDigit ≠ []) && isOffset (cs.dropWhile Char.isDigit)
  | cs => isOffset cs

/-- The leap second 60 is taken in any minute. -/
def isDateTime : List Char → Bool
  | y₁ :: y₂ :: y₃ :: y₄ :: '-' :: m₁ :: m₂ :: '-' :: d₁ :: d₂ :: t :: h₁ :: h₂ :: ':' :: n₁ :: n₂ ::
      ':' :: s₁ :: s₂ :: rest =>
    isFullDate [y₁, y₂, y₃, y₄] [m₁, m₂] [d₁, d₂] && (t = 'T' || t = 't') && atMost 23 [h₁, h₂] &&
      atMost 59 [n₁, n₂] && atMost 60 [s₁, s₂] && isRest rest
  | _ => false

/-- A reading of a real clock: the day is one of the calendar. -/
def OnCalendar (t : Instant) : Prop := isDate t.year t.month t.day = true

private theorem digitChar_numeral : ∀ n < 10, (digitChar n).isDigit = true ∧
    (digitChar n).toNat - 48 = n := by decide

section Numerals

variable {n m : ℕ}

private theorem numeral_pad2 (h : n < 100) : numeral (Instant.pad2 n) = some n := by
  obtain ⟨hd, hv⟩ := digitChar_numeral (n / 10) (by omega)
  obtain ⟨hd', hv'⟩ := digitChar_numeral (n % 10) (by omega)
  simp only [numeral, Instant.pad2, readDigits, List.all_cons, List.all_nil, hd, hd', Bool.and_self,
    if_true, List.foldl_cons, List.foldl_nil, hv, hv', Option.some.injEq]
  omega

private theorem numeral_pad4 (h : n < 10000) : numeral (Instant.pad4 n) = some n := by
  obtain ⟨hd, hv⟩ := digitChar_numeral (n / 1000) (by omega)
  obtain ⟨hd', hv'⟩ := digitChar_numeral (n % 1000 / 100) (by omega)
  obtain ⟨hd₁, hv₁⟩ := digitChar_numeral (n % 1000 % 100 / 10) (by omega)
  obtain ⟨hd₂, hv₂⟩ := digitChar_numeral (n % 1000 % 100 % 10) (by omega)
  simp only [numeral, Instant.pad4, Instant.pad3, Instant.pad2, readDigits, List.all_cons,
    List.all_nil, hd, hd', hd₁, hd₂, Bool.and_self, if_true, List.foldl_cons, List.foldl_nil, hv, hv',
    hv₁, hv₂, Option.some.injEq]
  omega

private theorem atMost_pad2 (h : n < 100) (hm : n ≤ m) : atMost m (Instant.pad2 n) = true := by
  rw [atMost, numeral_pad2 h]
  simpa using hm

private theorem isRest_milli (h : n < 1000) : isRest ('.' :: (Instant.pad3 n ++ ['Z'])) = true := by
  obtain ⟨hd, -⟩ := digitChar_numeral (n / 100) (by omega)
  obtain ⟨hd', -⟩ := digitChar_numeral (n % 100 / 10) (by omega)
  obtain ⟨hd₁, -⟩ := digitChar_numeral (n % 10) (by omega)
  simp [isRest, isOffset, Instant.pad3, Instant.pad2, hd, hd', hd₁]

end Numerals

/-- `toISOString` writes a date-time. -/
theorem isDateTime_toISOString {t : Instant} (h : OnCalendar t) :
    isDateTime t.toISOString.toList = true := by
  have hyear := numeral_pad4 (show t.year.val < 10000 from t.year.isLt)
  have hmonth := numeral_pad2 (show t.month.val < 100 by omega)
  have hday := numeral_pad2 (show t.day.val < 100 by omega)
  have hdate : isFullDate (Instant.pad4 t.year) (Instant.pad2 t.month) (Instant.pad2 t.day) = true := by
    simp only [isFullDate, hyear, hmonth, hday]
    exact h
  have hhour := atMost_pad2 (m := 23) (show t.hour.val < 100 by omega) (by omega)
  have hminute := atMost_pad2 (m := 59) (show t.minute.val < 100 by omega) (by omega)
  have hsecond := atMost_pad2 (m := 60) (show t.second.val < 100 by omega) (by omega)
  have hrest := isRest_milli (show t.milli.val < 1000 from t.milli.isLt)
  rw [Instant.toISOString, String.toList_ofList]
  change (_ && _ && _ && _ && _ && _) = true
  simp only [Bool.and_eq_true]
  exact ⟨⟨⟨⟨⟨hdate, rfl⟩, hhour⟩, hminute⟩, hsecond⟩, hrest⟩

end VerdeAuth.DateTimes
