import Mathlib.Data.List.Basic
import Mathlib.Data.List.Induction

/-!
# Histories of runs

A run folds a step over a list of inputs. `Always` and `Since` speak of its
steps: the state before an input, and the input.
-/

namespace VerdeAuth.RunHistories

variable {σ α : Type} {step : σ → α → σ} {P P' Q Q' : σ → α → Prop} {s : σ} {xs : List α} {x : α}

/-- The state after the inputs. -/
def run (step : σ → α → σ) (s : σ) (xs : List α) : σ := xs.foldl step s

@[simp] theorem run_append (xs ys : List α) :
    run step s (xs ++ ys) = run step (run step s xs) ys := List.foldl_append

/-- Every step satisfies `P`. -/
def Always (step : σ → α → σ) (P : σ → α → Prop) (s : σ) (xs : List α) : Prop :=
  ∀ before x after, xs = before ++ x :: after → P (run step s before) x

/-- Some step satisfied `Q`, and every later one `P`. -/
def Since (step : σ → α → σ) (P Q : σ → α → Prop) (s : σ) (xs : List α) : Prop :=
  ∃ before x after, xs = before ++ x :: after ∧ Q (run step s before) x ∧
    Always step P (run step s (before ++ [x])) after

theorem always_nil : Always step P s [] := by
  intro before x after h
  simp at h

theorem always_cons :
    Always step P s (x :: xs) ↔ P s x ∧ Always step P (step s x) xs := by
  constructor
  · intro h
    constructor
    · exact h [] x xs rfl
    · rintro before y after rfl
      exact h (x :: before) y after rfl
  · rintro ⟨hx, h⟩ before y after heq
    cases before with
    | nil =>
      obtain ⟨rfl, rfl⟩ := List.cons.inj heq
      exact hx
    | cons z before =>
      obtain ⟨rfl, rfl⟩ := List.cons.inj heq
      exact h before y after rfl

theorem always_append {xs ys : List α} :
    Always step P s (xs ++ ys) ↔ Always step P s xs ∧ Always step P (run step s xs) ys := by
  induction xs generalizing s with
  | nil => simp [always_nil, run]
  | cons x xs ih =>
    have htail := ih (s := step s x)
    rw [List.cons_append, always_cons, always_cons, htail, and_assoc]
    rfl

theorem append_singleton_eq {xs before after : List α} {x y : α}
    (h : xs ++ [x] = before ++ y :: after) :
    (after = [] ∧ xs = before ∧ x = y) ∨ ∃ rest, after = rest ++ [x] ∧ xs = before ++ y :: rest := by
  rcases List.eq_nil_or_concat after with rfl | ⟨rest, last, rfl⟩
  · obtain ⟨hxs, hx⟩ := List.append_inj' h rfl
    exact Or.inl ⟨rfl, hxs, List.singleton_inj.mp hx⟩
  · rw [List.concat_eq_append, ← List.cons_append, ← List.append_assoc] at h
    obtain ⟨hxs, hx⟩ := List.append_inj' h rfl
    obtain rfl := List.singleton_inj.mp hx
    exact Or.inr ⟨rest, List.concat_eq_append, hxs⟩

theorem always_append_singleton :
    Always step P s (xs ++ [x]) ↔ Always step P s xs ∧ P (run step s xs) x := by
  constructor
  · intro h
    constructor
    · rintro before y after rfl
      exact h before y (after ++ [x]) (by simp)
    · exact h xs x [] rfl
  · rintro ⟨h, hx⟩ before y after heq
    rcases append_singleton_eq heq with ⟨rfl, rfl, rfl⟩ | ⟨rest, rfl, rfl⟩
    · exact hx
    · exact h before y rest rfl

theorem since_nil : ¬ Since step P Q s [] := by
  rintro ⟨before, x, after, h, -⟩
  simp at h

theorem since_cons :
    Since step P Q s (x :: xs) ↔
      (Q s x ∧ Always step P (step s x) xs) ∨ Since step P Q (step s x) xs := by
  constructor
  · rintro ⟨before, y, after, heq, hy, hafter⟩
    cases before with
    | nil =>
      obtain ⟨rfl, rfl⟩ := List.cons.inj heq
      exact Or.inl ⟨hy, hafter⟩
    | cons z before =>
      obtain ⟨rfl, rfl⟩ := List.cons.inj heq
      exact Or.inr ⟨before, y, after, rfl, hy, hafter⟩
  · rintro (⟨hx, h⟩ | ⟨before, y, after, rfl, hy, hafter⟩)
    · exact ⟨[], x, xs, rfl, hx, h⟩
    · exact ⟨x :: before, y, after, rfl, hy, hafter⟩

theorem since_append_singleton :
    Since step P Q s (xs ++ [x]) ↔
      Q (run step s xs) x ∨ (Since step P Q s xs ∧ P (run step s xs) x) := by
  constructor
  · rintro ⟨before, y, after, heq, hy, hafter⟩
    rcases append_singleton_eq heq with ⟨rfl, rfl, rfl⟩ | ⟨rest, rfl, rfl⟩
    · exact Or.inl hy
    · obtain ⟨hrest, hx⟩ := always_append_singleton.mp hafter
      refine Or.inr ⟨⟨before, y, rest, rfl, hy, hrest⟩, ?_⟩
      simpa [run] using hx
  · rintro (hx | ⟨⟨before, y, rest, rfl, hy, hrest⟩, hx⟩)
    · exact ⟨xs, x, [], rfl, hx, always_nil⟩
    · refine ⟨before, y, rest ++ [x], by simp, hy, always_append_singleton.mpr ⟨hrest, ?_⟩⟩
      simpa [run] using hx

/-- The last step is such a one itself. -/
theorem since_last (h : Q (run step s xs) x) : Since step P Q s (xs ++ [x]) :=
  since_append_singleton.mpr (Or.inl h)

/-- The last step changes nothing about it. -/
theorem Since.append_singleton (h : Since step P Q s xs) (hx : P (run step s xs) x) :
    Since step P Q s (xs ++ [x]) := since_append_singleton.mpr (Or.inr ⟨h, hx⟩)

/-- Histories of a machine that another one simulates. -/
theorem since_comp {τ : Type} {step' : τ → α → τ} {P' Q' : τ → α → Prop} {f : σ → τ}
    (hf : ∀ s x, f (step s x) = step' (f s) x) : Since step' P' Q' (f s) xs ↔
      Since step (fun s x => P' (f s) x) (fun s x => Q' (f s) x) s xs := by
  have hrun : ∀ xs s, run step' (f s) xs = f (run step s xs) := by
    intro xs
    induction xs with
    | nil => exact fun s => rfl
    | cons x xs ih =>
      intro s
      have htail := ih (step s x)
      rw [hf] at htail
      exact htail
  simp only [Since, Always, hrun]

/-- Properties that agree on the steps of a run hold of the same runs. -/
theorem always_congr (h : Always step P s xs) (hq : ∀ s x, P s x → (Q s x ↔ Q' s x)) :
    Always step Q s xs ↔ Always step Q' s xs := by
  constructor
  · intro hall before x after heq
    exact (hq _ x (h before x after heq)).mp (hall before x after heq)
  · intro hall before x after heq
    exact (hq _ x (h before x after heq)).mpr (hall before x after heq)

theorem always_congr_of_mem (h : ∀ x ∈ xs, ∀ s, P s x ↔ Q s x) :
    Always step P s xs ↔ Always step Q s xs := by
  have hmem : Always step (fun _ x => x ∈ xs) s xs := by
    intro before x after heq
    simp [heq]
  rw [always_congr hmem]
  intro s x hx
  exact h x hx s

/-- The inputs as another machine takes them. -/
def relabel {β : Type} (step : σ → α → σ) (g : σ → α → β) : σ → List α → List β
  | _, [] => []
  | s, x :: xs => g s x :: relabel step g (step s x) xs

section Relabel

variable {τ β : Type} {step' : τ → β → τ} {f : σ → τ} {g : σ → α → β}

/-- Runs of a machine that another one simulates on inputs of its own. -/
theorem run_relabel (hf : ∀ s x, f (step s x) = step' (f s) (g s x)) :
    run step' (f s) (relabel step g s xs) = f (run step s xs) := by
  induction xs generalizing s with
  | nil => rfl
  | cons x xs ih =>
    have htail := ih (s := step s x)
    rw [hf] at htail
    exact htail

theorem always_relabel (hf : ∀ s x, f (step s x) = step' (f s) (g s x)) {P' : τ → β → Prop} :
    Always step' P' (f s) (relabel step g s xs) ↔ Always step (fun s x => P' (f s) (g s x)) s xs := by
  induction xs generalizing s with
  | nil => exact iff_of_true always_nil always_nil
  | cons x xs ih =>
    have htail := ih (s := step s x)
    rw [hf] at htail
    rw [relabel, always_cons, always_cons, htail]

end Relabel

/-- An invariant of the history: what holds at the start, and after a step whenever
it held before and the step satisfies `P`. -/
theorem Always.induction {I : List α → Prop} (h : Always step P s xs) (hnil : I [])
    (hstep : ∀ xs x, I xs → P (run step s xs) x → I (xs ++ [x])) : I xs := by
  induction xs using List.reverseRecOn with
  | nil => exact hnil
  | append_singleton xs x ih =>
    obtain ⟨hxs, hx⟩ := always_append_singleton.mp h
    exact hstep xs x (ih hxs) hx

end VerdeAuth.RunHistories
