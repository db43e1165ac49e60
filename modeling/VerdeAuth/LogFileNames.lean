import VerdeAuth.SiemLoggerService

/-!
# The order of the daily files

File names carry the date in decimal, most significant part first, so the order
in which they sort is the order of their dates.
-/

namespace VerdeAuth.LogFileNames

open JsonTexts SiemLoggerService Instant

private theorem digitChar_toNat : ∀ n < 10, (digitChar n).toNat = 48 + n ∧ digitChar n ≠ 'T' := by
  decide

/-- The characters are single code units, none of them the separator of the time. -/
def PlainUnits (cs : List Char) : Prop := ∀ c ∈ cs, c.toNat < 0x10000 ∧ c ≠ 'T'

theorem PlainUnits.append {cs cs' : List Char} (h : PlainUnits cs) (h' : PlainUnits cs') :
    PlainUnits (cs ++ cs') := by
  intro c hc
  rcases List.mem_append.mp hc with hc | hc
  · exact h c hc
  · exact h' c hc

theorem PlainUnits.cons {c : Char} {cs : List Char} (hc : c.toNat < 0x10000 ∧ c ≠ 'T')
    (h : PlainUnits cs) : PlainUnits (c :: cs) := by
  intro d hd
  rcases List.mem_cons.mp hd with rfl | hd
  · exact hc
  · exact h d hd

private theorem plain_digit {n : ℕ} (h : n < 10) :
    (digitChar n).toNat < 0x10000 ∧ digitChar n ≠ 'T' := by
  obtain ⟨hn, hT⟩ := digitChar_toNat n h
  exact ⟨by omega, hT⟩

private theorem plain_pad2 {n : ℕ} (h : n < 100) : PlainUnits (pad2 n) :=
  .cons (plain_digit (by omega)) (.cons (plain_digit (by omega)) (by simp [PlainUnits]))

private theorem plain_pad4 {n : ℕ} (h : n < 10000) : PlainUnits (pad4 n) :=
  .cons (plain_digit (by omega)) (.cons (plain_digit (by omega)) (plain_pad2 (by omega)))

private theorem plain_isoDate (t : Instant) : PlainUnits t.isoDate := by
  have hy := plain_pad4 (show t.year.val < 10000 from t.year.isLt)
  have hm := plain_pad2 (show t.month.val < 100 by omega)
  have hd := plain_pad2 (show t.day.val < 100 by omega)
  exact hy.append (.cons (by decide) (hm.append (.cons (by decide) hd)))

private theorem date_eq (t : Instant) : t.date = String.ofList t.isoDate := by
  have hp : ∀ c ∈ t.isoDate, decide (c ≠ 'T') = true := fun c hc =>
    decide_eq_true (plain_isoDate t c hc).2
  rw [date, toISOString, String.toList_ofList, List.takeWhile_append_of_pos hp]
  simp

private theorem units_of_plain {cs : List Char} (h : PlainUnits cs) :
    (cs.flatMap fun c => if c.toNat < 0x10000 then [c.toNat]
      else [0xd800 + (c.toNat - 0x10000) / 0x400, 0xdc00 + (c.toNat - 0x10000) % 0x400]) =
    cs.map Char.toNat := by
  induction cs with
  | nil => rfl
  | cons c cs ih =>
    have htail := ih fun d hd => h d (List.mem_cons_of_mem c hd)
    rw [List.flatMap_cons, htail, if_pos (h c List.mem_cons_self).1]
    rfl

private theorem codeUnits_fileName (t : Instant) : codeUnits (logFileName t) =
    codeUnits "banco-verde-" ++ (t.isoDate.map Char.toNat ++ codeUnits ".jsonl") := by
  have hu := units_of_plain (plain_isoDate t)
  simp only [codeUnits, logFileName, date_eq, String.toList_append, String.toList_ofList,
    List.flatMap_append, List.append_assoc] at hu ⊢
  rw [hu]

private theorem lexLe_append_left (as bs cs : List ℕ) :
    lexLe (as ++ bs) (as ++ cs) = lexLe bs cs := by
  induction as with
  | nil => rfl
  | cons a as ih => simp [lexLe, ih]

private theorem lexLe_refl (as : List ℕ) : lexLe as as = true := by
  induction as with
  | nil => rfl
  | cons a as ih => simp [lexLe, ih]

/-- Numbers below a hundred compare as their two digits do. -/
private theorem lexLe_pad2 {m n : ℕ} (hm : m < 100) (hn : n < 100) (bs cs : List ℕ) :
    lexLe ((pad2 m).map Char.toNat ++ bs) ((pad2 n).map Char.toNat ++ cs) = true ↔
      m < n ∨ m = n ∧ lexLe bs cs = true := by
  have h1 := (digitChar_toNat (m / 10) (by omega)).1
  have h2 := (digitChar_toNat (m % 10) (by omega)).1
  have h3 := (digitChar_toNat (n / 10) (by omega)).1
  have h4 := (digitChar_toNat (n % 10) (by omega)).1
  simp only [pad2, List.map_cons, List.map_nil, List.cons_append, List.nil_append, lexLe,
    h1, h2, h3, h4, Bool.or_eq_true, Bool.and_eq_true, decide_eq_true_eq]
  by_cases hrest : lexLe bs cs = true
  · simp only [hrest, and_true]
    omega
  · simp only [hrest, Bool.false_eq_true, and_false, or_false]
    omega

private theorem pad4_eq (n : ℕ) : pad4 n = pad2 (n / 100) ++ pad2 (n % 100) := by
  have h1 : n / 1000 = n / 100 / 10 := by omega
  have h2 : n % 1000 / 100 = n / 100 % 10 := by omega
  have h3 : n % 1000 % 100 = n % 100 := by omega
  rw [pad4, pad3, h1, h2, h3]
  rfl

private theorem lexLe_pad4 {m n : ℕ} (hm : m < 10000) (hn : n < 10000) (bs cs : List ℕ) :
    lexLe ((pad4 m).map Char.toNat ++ bs) ((pad4 n).map Char.toNat ++ cs) = true ↔
      m < n ∨ m = n ∧ lexLe bs cs = true := by
  rw [pad4_eq, pad4_eq, List.map_append, List.map_append, List.append_assoc,
    List.append_assoc, lexLe_pad2 (by omega) (by omega), lexLe_pad2 (by omega) (by omega)]
  by_cases hrest : lexLe bs cs = true
  · simp only [hrest, and_true]
    omega
  · simp only [hrest, Bool.false_eq_true, and_false, or_false]
    omega

/-- Files sort by their dates. -/
theorem sortsBefore_iff (a b : Instant) :
    sortsBefore (logFileName a) (logFileName b) = true ↔ a.dateKey ≤ b.dateKey := by
  have hsep : ∀ bs cs : List ℕ, lexLe ('-'.toNat :: bs) ('-'.toNat :: cs) = lexLe bs cs := by
    intro bs cs
    exact lexLe_append_left ['-'.toNat] bs cs
  rw [sortsBefore, codeUnits_fileName, codeUnits_fileName, lexLe_append_left]
  simp only [isoDate, List.map_append, List.map_cons, List.append_assoc, List.cons_append]
  rw [lexLe_pad4 a.year.isLt b.year.isLt, hsep, lexLe_pad2 (by omega) (by omega), hsep,
    lexLe_pad2 (by omega) (by omega), lexLe_refl]
  simp only [dateKey, and_true]
  omega

theorem dateKey_of_fileName {a b : Instant} (h : logFileName a = logFileName b) :
    a.dateKey = b.dateKey := by
  have hab : sortsBefore (logFileName a) (logFileName b) = true := by
    rw [h]
    exact lexLe_refl _
  have hba : sortsBefore (logFileName b) (logFileName a) = true := by
    rw [h]
    exact lexLe_refl _
  have h₁ := (sortsBefore_iff a b).mp hab
  have h₂ := (sortsBefore_iff b a).mp hba
  omega

theorem fileName_of_dateKey {a b : Instant} (h : a.dateKey = b.dateKey) :
    logFileName a = logFileName b := by
  have hy : a.year.val = b.year.val := by simp only [dateKey] at h; omega
  have hm : a.month.val = b.month.val := by simp only [dateKey] at h; omega
  have hd : a.day.val = b.day.val := by simp only [dateKey] at h; omega
  rw [logFileName, logFileName, date_eq, date_eq, isoDate, isoDate, hy, hm, hd]

theorem isJsonl_fileName (t : Instant) : isJsonl (logFileName t) = true := by
  simp [isJsonl, endsWith, logFileName, String.toList_append, List.isPrefixOf]

end VerdeAuth.LogFileNames
