import VerdeAuth.RunHistories

/-!
# Counters that lock

A counter of failures locks for a while once it has reached a limit, and no
failure happens while it is locked. Nothing relieves it. Then no window of the
length of a lock holds more failures than the limit, however often the lock runs
out and from whatever counter the run starts.
-/

namespace VerdeAuth.LockoutCounters

open RunHistories

structure Counter where
  count : ℕ
  lock : Option ℕ
  deriving DecidableEq

/-- The counter after a failure at time `t`, for a limit and a duration. -/
def Counter.fail (limit duration t : ℕ) (c : Counter) : Counter where
  count := c.count + 1
  lock := if c.count + 1 ≥ limit then some (t + duration) else c.lock

variable {limit duration t a : ℕ} {c c' : Counter}

/-- A failure at an open counter, or nothing. -/
inductive Step (limit duration t : ℕ) (c : Counter) : Bool → Counter → Prop
  | failed (hopen : ∀ l, c.lock = some l → l ≤ t) :
      Step limit duration t c true (c.fail limit duration t)
  | kept : Step limit duration t c false c

/-- The counter is locked until the end of the window that starts at `a`. -/
def Counter.Shut (duration a : ℕ) (c : Counter) : Prop :=
  ∃ l, c.lock = some l ∧ a + duration ≤ l

def inWindow (a duration t : ℕ) : Bool := a ≤ t && t < a + duration

theorem shut_fail (hopen : ∀ l, c.lock = some l → l ≤ t) (h : c.Shut duration a) :
    (c.fail limit duration t).Shut duration a := by
  obtain ⟨l, hl, hle⟩ := h
  have hlt : l ≤ t := hopen l hl
  unfold Counter.fail Counter.Shut
  split
  · exact ⟨t + duration, rfl, by omega⟩
  · exact ⟨l, hl, hle⟩

theorem not_inWindow_of_shut (hopen : ∀ l, c.lock = some l → l ≤ t) (h : c.Shut duration a) :
    inWindow a duration t = false := by
  obtain ⟨l, hl, hle⟩ := h
  have hlt : l ≤ t := hopen l hl
  simp only [inWindow, Bool.and_eq_false_iff, decide_eq_false_iff_not]
  omega

/-- A failure inside the window that reaches the limit locks to the window's end. -/
theorem shut_of_limit (hlimit : c.count + 1 ≥ limit) (ht : inWindow a duration t = true) :
    (c.fail limit duration t).Shut duration a := by
  simp only [inWindow, Bool.and_eq_true, decide_eq_true_eq] at ht
  refine ⟨t + duration, ?_, by omega⟩
  simp [Counter.fail, hlimit]

section Runs

variable {σ α : Type} {step : σ → α → σ} {failed : σ → α → Bool} {time : α → ℕ} {view : σ → Counter}

/-- The times of the failures of a run. -/
def failures (step : σ → α → σ) (failed : σ → α → Bool) (time : α → ℕ) : σ → List α → List ℕ
  | _, [] => []
  | s, x :: xs =>
    if failed s x then time x :: failures step failed time (step s x) xs
    else failures step failed time (step s x) xs

/-- The step does to the counter what it may. -/
def Counts (limit duration : ℕ) (step : σ → α → σ) (failed : σ → α → Bool) (time : α → ℕ)
    (view : σ → Counter) (s : σ) (x : α) : Prop :=
  Step limit duration (time x) (view s) (failed s x) (view (step s x))

/-- While the counter is shut, the window holds no further failure. -/
theorem failures_of_shut {s : σ} {xs : List α}
    (hxs : Always step (Counts limit duration step failed time view) s xs)
    (h : (view s).Shut duration a) :
    (failures step failed time s xs).countP (inWindow a duration) = 0 := by
  induction xs generalizing s with
  | nil => rfl
  | cons x xs ih =>
    obtain ⟨hx, hrest⟩ := always_cons.mp hxs
    unfold Counts at hx
    unfold failures
    generalize failed s x = b at hx
    generalize hv : view (step s x) = c' at hx
    cases hx with
    | failed hopen =>
      have hshut : (view (step s x)).Shut duration a := by
        rw [hv]
        exact shut_fail hopen h
      simp [not_inWindow_of_shut hopen h, ih hrest hshut]
    | kept =>
      have hshut : (view (step s x)).Shut duration a := by
        rw [hv]
        exact h
      simpa using ih hrest hshut

/-- A counter that stands at `n` leaves room for `limit - n` failures in the window,
and for one once the limit is reached. -/
theorem failures_le_room {s : σ} {xs : List α}
    (hxs : Always step (Counts limit duration step failed time view) s xs) (a : ℕ) :
    (failures step failed time s xs).countP (inWindow a duration) ≤
      max (limit - (view s).count) 1 := by
  induction xs generalizing s with
  | nil => simp [failures]
  | cons x xs ih =>
    obtain ⟨hx, hrest⟩ := always_cons.mp hxs
    have hroom := ih hrest
    unfold Counts at hx
    unfold failures
    generalize failed s x = b at hx
    generalize hv : view (step s x) = c' at hx
    rw [hv] at hroom
    cases hx with
    | kept => simpa using hroom
    | failed hopen =>
      have hcount : ((view s).fail limit duration (time x)).count = (view s).count + 1 := rfl
      rw [hcount] at hroom
      rw [if_pos rfl, List.countP_cons]
      by_cases hwindow : inWindow a duration (time x) = true
      · rw [if_pos hwindow]
        by_cases hlimit : (view s).count + 1 ≥ limit
        · have hshut : (view (step s x)).Shut duration a := by
            rw [hv]
            exact shut_of_limit hlimit hwindow
          rw [failures_of_shut hrest hshut]
          omega
        · omega
      · rw [if_neg hwindow]
        omega

/-- No window of the length of a lock holds more failures than the limit. -/
theorem failures_le (hlimit : 0 < limit) {s : σ} {xs : List α}
    (hxs : Always step (Counts limit duration step failed time view) s xs) (a : ℕ) :
    (failures step failed time s xs).countP (inWindow a duration) ≤ limit := by
  have hroom := failures_le_room hxs a
  omega

end Runs

end VerdeAuth.LockoutCounters
