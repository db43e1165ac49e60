import Mathlib.Algebra.BigOperators.Group.Finset.Piecewise
import Mathlib.Data.Finset.Range
import Mathlib.Logic.Function.Basic
import VerdeAuth.RunHistories

/-!
# Lost updates

Threads increment a shared cell: each reads it, and later stores one more than
what it read. The cell counts every store exactly when no store falls between
another thread's last read and its store.
-/

namespace VerdeAuth.LostUpdates

open RunHistories

inductive Access where
  | read (i : ℕ)
  | write (i : ℕ)
  deriving DecidableEq

/-- The shared cell, and what each thread read of it last. -/
structure Cell where
  value : ℕ
  copy : ℕ → ℕ

def Cell.step (c : Cell) : Access → Cell
  | .read i => { c with copy := Function.update c.copy i c.value }
  | .write i => { c with value := c.copy i + 1 }

@[simp] theorem Cell.copy_step_read_self (c : Cell) (i : ℕ) :
    (c.step (.read i)).copy i = c.value := by
  simp [step]

theorem Cell.copy_step_read_of_ne {i j : ℕ} (c : Cell) (hne : i ≠ j) :
    (c.step (.read j)).copy i = c.copy i := by
  simp [step, hne]

/-- The cell after accesses, from a value. -/
def cellAfter (n : ℕ) (l : List Access) : Cell := l.foldl Cell.step ⟨n, fun _ => n⟩

def writes : List Access → ℕ
  | [] => 0
  | .read _ :: l => writes l
  | .write _ :: l => writes l + 1

def writesOf (i : ℕ) : List Access → ℕ
  | [] => 0
  | .read _ :: l => writesOf i l
  | .write j :: l => writesOf i l + if j = i then 1 else 0

/-- Between a thread's last read before a store and that store there is no other store. -/
def Undisturbed (l : List Access) : Prop :=
  ∀ before between after i, l = before ++ .read i :: (between ++ .write i :: after) →
    .read i ∉ between → writes between = 0

/-- Every store comes after a read of its thread. -/
def ReadsFirst (l : List Access) : Prop :=
  ∀ before after i, l = before ++ .write i :: after → .read i ∈ before

/-- The stores since the last read of a thread. -/
def lag (i : ℕ) (l : List Access) : ℕ :=
  l.foldl (fun n a => match a with
    | .read j => if j = i then 0 else n
    | .write _ => n + 1) 0

variable {n i j : ℕ} {l : List Access}

@[simp] theorem writes_append (l l' : List Access) : writes (l ++ l') = writes l + writes l' := by
  induction l with
  | nil => simp [writes]
  | cons a l ih =>
    cases a with
    | read j => simpa [writes] using ih
    | write j =>
      simp only [List.cons_append, writes, ih]
      omega

@[simp] theorem writesOf_append (i : ℕ) (l l' : List Access) :
    writesOf i (l ++ l') = writesOf i l + writesOf i l' := by
  induction l with
  | nil => simp [writesOf]
  | cons a l ih =>
    cases a with
    | read j => simpa [writesOf] using ih
    | write j =>
      simp only [List.cons_append, writesOf, ih]
      omega

/-- The stores of a number of threads are all stores where no other thread stores. -/
theorem writes_eq_sum (m : ℕ) (hl : ∀ j, .write j ∈ l → j < m) :
    writes l = ∑ i ∈ Finset.range m, writesOf i l := by
  induction l with
  | nil => simp [writes, writesOf]
  | cons a l ih =>
    have hrest := ih fun j hj => hl j (List.mem_cons_of_mem a hj)
    cases a with
    | read j => simpa [writes, writesOf] using hrest
    | write j =>
      have hj : j ∈ Finset.range m := Finset.mem_range.mpr (hl j List.mem_cons_self)
      simp only [writes, writesOf, Finset.sum_add_distrib, hrest, Finset.sum_ite_eq, hj, if_true]

theorem cellAfter_append_singleton (n : ℕ) (l : List Access) (a : Access) :
    cellAfter n (l ++ [a]) = (cellAfter n l).step a := by
  simp [cellAfter]

@[simp] theorem lag_read_self (i : ℕ) (l : List Access) : lag i (l ++ [.read i]) = 0 := by
  simp [lag]

theorem lag_read_of_ne (hne : j ≠ i) (l : List Access) : lag i (l ++ [.read j]) = lag i l := by
  simp [lag, hne]

@[simp] theorem lag_write (i j : ℕ) (l : List Access) : lag i (l ++ [.write j]) = lag i l + 1 := by
  simp [lag]

theorem lag_append_of_notMem {between : List Access} (h : .read i ∉ between) :
    lag i (l ++ between) = lag i l + writes between := by
  induction between using List.reverseRecOn with
  | nil => simp [writes]
  | append_singleton between a ih =>
    simp only [List.mem_append, List.mem_singleton, not_or] at h
    have hprev := ih h.1
    rw [← List.append_assoc]
    cases a with
    | read j =>
      have hne : j ≠ i := fun he => h.2 (he ▸ rfl)
      rw [lag_read_of_ne hne, hprev]
      simp [writes]
    | write j =>
      rw [lag_write, hprev]
      simp only [writes_append, writes]
      omega

/-- A thread that has read has a last read, and lags by the stores after it. -/
theorem exists_last_read (h : .read i ∈ l) : ∃ before between,
    l = before ++ .read i :: between ∧ .read i ∉ between ∧ lag i l = writes between := by
  induction l using List.reverseRecOn with
  | nil => simp at h
  | append_singleton l a ih =>
    by_cases ha : a = .read i
    · subst ha
      exact ⟨l, [], by simp, by simp, by simp [writes]⟩
    · have hmem : .read i ∈ l := by
        rcases List.mem_append.mp h with h | h
        · exact h
        · exact absurd (List.mem_singleton.mp h).symm ha
      obtain ⟨before, between, rfl, hnot, hlag⟩ := ih hmem
      have hnot' : .read i ∉ between ++ [a] := by
        simp [hnot, Ne.symm ha]
      refine ⟨before, between ++ [a], by simp, hnot', ?_⟩
      have hsplit : before ++ .read i :: between ++ [a] =
          (before ++ [.read i]) ++ (between ++ [a]) := by simp
      rw [hsplit, lag_append_of_notMem hnot', lag_read_self, Nat.zero_add]

theorem undisturbed_nil : Undisturbed [] := by
  intro before between after i h
  simp at h

/-- Taking the last access off a list that is split at a read and a later store. -/
theorem split_append_singleton {a : Access} {before between after : List Access}
    (h : l ++ [a] = before ++ .read i :: (between ++ .write i :: after)) :
    (a = .write i ∧ l = before ++ .read i :: between) ∨
      ∃ rest, after = rest ++ [a] ∧ l = before ++ .read i :: (between ++ .write i :: rest) := by
  have hsplit : l ++ [a] = (before ++ .read i :: between) ++ .write i :: after := by simpa using h
  rcases append_singleton_eq hsplit with ⟨rfl, rfl, rfl⟩ | ⟨rest, rfl, rfl⟩
  · exact Or.inl ⟨rfl, rfl⟩
  · exact Or.inr ⟨rest, rfl, by simp⟩

theorem undisturbed_read : Undisturbed (l ++ [.read j]) ↔ Undisturbed l := by
  constructor
  · rintro h before between after i rfl hnot
    exact h before between (after ++ [.read j]) i (by simp) hnot
  · intro h before between after i heq hnot
    rcases split_append_singleton heq with ⟨hread, -⟩ | ⟨rest, rfl, rfl⟩
    · cases hread
    · exact h before between rest i rfl hnot

theorem undisturbed_write (hread : .read j ∈ l) :
    Undisturbed (l ++ [.write j]) ↔ Undisturbed l ∧ lag j l = 0 := by
  obtain ⟨before, between, rfl, hnot, hlag⟩ := exists_last_read hread
  constructor
  · intro h
    constructor
    · intro before' between' after i heq hnot'
      exact h before' between' (after ++ [.write j]) i (by simp [heq]) hnot'
    · rw [hlag]
      exact h before between [] j (by simp) hnot
  · rintro ⟨h, hzero⟩ before' between' after i heq hnot'
    rcases split_append_singleton heq with ⟨hwrite, heq'⟩ | ⟨rest, rfl, heq'⟩
    · cases hwrite
      have hsplit : before' ++ .read j :: between' = (before' ++ [.read j]) ++ between' := by simp
      rw [heq', hsplit, lag_append_of_notMem hnot', lag_read_self, Nat.zero_add] at hzero
      exact hzero
    · exact h before' between' rest i heq' hnot'

theorem readsFirst_append_singleton {a : Access} (h : ReadsFirst l)
    (ha : ∀ i, a = .write i → .read i ∈ l) : ReadsFirst (l ++ [a]) := by
  intro before after i heq
  rcases append_singleton_eq heq with ⟨rfl, rfl, rfl⟩ | ⟨rest, rfl, rfl⟩
  · exact ha i rfl
  · exact h before rest i rfl

theorem ReadsFirst.init {a : Access} (h : ReadsFirst (l ++ [a])) : ReadsFirst l := by
  rintro before after i rfl
  exact h before (after ++ [a]) i (by simp)

/-- What the cell and the copies amount to, with and without a disturbed store. -/
structure Tally (n : ℕ) (l : List Access) : Prop where
  le : (cellAfter n l).value ≤ n + writes l
  copy_le : ∀ i, .read i ∈ l → (cellAfter n l).copy i + lag i l ≤ n + writes l
  value_eq : Undisturbed l → (cellAfter n l).value = n + writes l
  copy_eq : Undisturbed l → ∀ i, .read i ∈ l → (cellAfter n l).copy i + lag i l = n + writes l
  value_lt : ¬ Undisturbed l → (cellAfter n l).value < n + writes l
  copy_lt : ¬ Undisturbed l → ∀ i, .read i ∈ l → lag i l = 0 →
    (cellAfter n l).copy i < n + writes l

theorem tally_read (h : Tally n l) : Tally n (l ++ [.read j]) := by
  have hwrites : writes (l ++ [.read j]) = writes l := by simp [writes]
  have hvalue : (cellAfter n (l ++ [.read j])).value = (cellAfter n l).value := by
    rw [cellAfter_append_singleton]
    rfl
  have hself : (cellAfter n (l ++ [.read j])).copy j = (cellAfter n l).value := by
    rw [cellAfter_append_singleton, Cell.copy_step_read_self]
  have hother : ∀ i, i ≠ j → (cellAfter n (l ++ [.read j])).copy i = (cellAfter n l).copy i := by
    intro i hne
    rw [cellAfter_append_singleton, Cell.copy_step_read_of_ne _ hne]
  have hmem : ∀ i, i ≠ j → .read i ∈ l ++ [.read j] → .read i ∈ l := by
    intro i hne hi
    simpa [hne] using hi
  constructor
  · rw [hvalue, hwrites]
    exact h.le
  · intro i hi
    by_cases hij : i = j
    · subst hij
      rw [hself, lag_read_self, hwrites]
      exact h.le
    · rw [hother i hij, lag_read_of_ne (Ne.symm hij), hwrites]
      exact h.copy_le i (hmem i hij hi)
  · intro hu
    rw [hvalue, hwrites]
    exact h.value_eq (undisturbed_read.mp hu)
  · intro hu i hi
    have hul : Undisturbed l := undisturbed_read.mp hu
    by_cases hij : i = j
    · subst hij
      rw [hself, lag_read_self, hwrites]
      exact h.value_eq hul
    · rw [hother i hij, lag_read_of_ne (Ne.symm hij), hwrites]
      exact h.copy_eq hul i (hmem i hij hi)
  · intro hu
    rw [hvalue, hwrites]
    exact h.value_lt fun hl => hu (undisturbed_read.mpr hl)
  · intro hu i hi hlag
    have hul : ¬ Undisturbed l := fun hl => hu (undisturbed_read.mpr hl)
    by_cases hij : i = j
    · subst hij
      rw [hself, hwrites]
      exact h.value_lt hul
    · rw [lag_read_of_ne (Ne.symm hij)] at hlag
      rw [hother i hij, hwrites]
      exact h.copy_lt hul i (hmem i hij hi) hlag

theorem tally_write (h : Tally n l) (hread : .read j ∈ l) : Tally n (l ++ [.write j]) := by
  have hwrites : writes (l ++ [.write j]) = writes l + 1 := by simp [writes]
  have hvalue : (cellAfter n (l ++ [.write j])).value = (cellAfter n l).copy j + 1 := by
    rw [cellAfter_append_singleton]
    rfl
  have hcopy : ∀ i, (cellAfter n (l ++ [.write j])).copy i = (cellAfter n l).copy i := by
    intro i
    rw [cellAfter_append_singleton]
    rfl
  have hmem : ∀ i, .read i ∈ l ++ [.write j] → .read i ∈ l := by
    intro i hi
    simpa using hi
  have hj := h.copy_le j hread
  constructor
  · rw [hvalue, hwrites]
    omega
  · intro i hi
    have hi := h.copy_le i (hmem i hi)
    rw [hcopy, lag_write, hwrites]
    omega
  · intro hu
    obtain ⟨hu, hlag⟩ := (undisturbed_write hread).mp hu
    have hj := h.copy_eq hu j hread
    rw [hvalue, hwrites]
    omega
  · intro hu i hi
    have hi := h.copy_eq ((undisturbed_write hread).mp hu).1 i (hmem i hi)
    rw [hcopy, lag_write, hwrites]
    omega
  · intro hu
    rw [hvalue, hwrites]
    by_cases hlag : lag j l = 0
    · have hu : ¬ Undisturbed l := fun hl => hu ((undisturbed_write hread).mpr ⟨hl, hlag⟩)
      have hlt := h.copy_lt hu j hread hlag
      omega
    · omega
  · intro _ i _ hlag
    rw [lag_write] at hlag
    omega

theorem tally (n : ℕ) (h : ReadsFirst l) : Tally n l := by
  induction l using List.reverseRecOn with
  | nil =>
    constructor
    · exact Nat.le_refl n
    · simp
    · intro _
      rfl
    · simp
    · intro hu
      exact absurd undisturbed_nil hu
    · simp
  | append_singleton l a ih =>
    have hl := ih h.init
    cases a with
    | read j => exact tally_read hl
    | write j => exact tally_write hl (h l [] j rfl)

/-- Every store is counted exactly when none is disturbed. -/
theorem value_eq_iff (n : ℕ) (h : ReadsFirst l) :
    (cellAfter n l).value = n + writes l ↔ Undisturbed l := by
  constructor
  · intro heq
    by_contra hu
    have hlt := (tally n h).value_lt hu
    omega
  · exact (tally n h).value_eq

end VerdeAuth.LostUpdates
