import VerdeAuth.ResponseContracts

/-!
# Contracts that foresee the log

Which responses a thread may be given can depend on what the log of the whole run will
say. A log is only ever extended, so each exchange on the way is one the log foretold.
-/

namespace VerdeAuth.ForetoldLogs

open ResumptionPrograms InterleavedPools ResponseContracts

variable {Op : Type} {Res : Op → Type} {ε α σ τ : Type} {h : Semantics Res σ} {env : τ → σ → σ}

theorem mem_log_exec (c : Pool Res ε α σ τ) (sched : List (Turn τ)) {x : Event Res τ}
    (hx : x ∈ c.log) : x ∈ (c.exec h env sched).log := by
  induction sched generalizing c with
  | nil => exact hx
  | cons t ts ih =>
    refine ih (c.turn h env t) ?_
    cases t with
    | outside e => exact List.mem_append_left _ hx
    | thread i =>
      rcases Pool.turn_thread_cases h env c i with ⟨o, next, -, ht⟩ | ⟨-, ht⟩
      · rw [ht]
        exact List.mem_append_left _ hx
      · rw [ht]
        exact hx

/-- Threads under contracts of their own, which an invariant bears out where the log of the
run foretells the exchange: they stay under them, and have asked only what these allow. -/
theorem foretold_exec {A : ℕ → (o : Op) → Res o → Prop} {P : ℕ → Op → Prop}
    {R : ℕ → Except ε α → Prop} {I : σ → Prop} {log : List (Event Res τ)} {sched : List (Turn τ)}
    (hstep : ∀ i o s, I s → P i o → .op i o (h o s).1 ∈ log → A i o (h o s).1 ∧ I (h o s).2)
    (houtside : ∀ e s, .outside e ∈ sched → I s → I (env e s)) {c : Pool Res ε α σ τ}
    (hlog : ∀ x ∈ (c.exec h env sched).log, x ∈ log) (hI : I c.state)
    (hps : ∀ i p, c.threads[i]? = some p → Under (A i) (P i) (R i) p)
    (hasked : ∀ i o r, .op i o r ∈ c.log → P i o) :
    I (c.exec h env sched).state ∧
      (∀ i p, (c.exec h env sched).threads[i]? = some p → Under (A i) (P i) (R i) p) ∧
      ∀ i o r, .op i o r ∈ (c.exec h env sched).log → P i o := by
  induction sched generalizing c with
  | nil => exact ⟨hI, hps, hasked⟩
  | cons t ts ih =>
    have hlater : ∀ e s, .outside e ∈ ts → I s → I (env e s) :=
      fun e s he => houtside e s (List.mem_cons_of_mem _ he)
    cases t with
    | outside e =>
      refine ih (c := c.turn h env (.outside e)) hlater hlog (houtside e _ List.mem_cons_self hI)
        hps fun i o r hmem => hasked i o r ?_
      simpa [Pool.turn] using hmem
    | thread i =>
      rcases Pool.turn_thread_cases h env c i with ⟨o, next, hi, ht⟩ | ⟨-, ht⟩
      · obtain ⟨ho, hnext⟩ := hps i _ hi
        have hmem : .op i o (h o c.state).1 ∈ log := by
          refine hlog _ (mem_log_exec (c.turn h env (.thread i)) ts ?_)
          rw [ht]
          exact List.mem_append_right _ List.mem_cons_self
        obtain ⟨hr, hI'⟩ := hstep i o _ hI ho hmem
        refine ih (c := c.turn h env (.thread i)) hlater hlog ?_ (fun j q hq => ?_)
          fun j o' r hmem => ?_
        · rw [ht]
          exact hI'
        · rw [ht] at hq
          rcases Pool.threads_perform_cases hi hq with ⟨rfl, rfl⟩ | ⟨-, hq⟩
          · exact hnext _ hr
          · exact hps j q hq
        · rw [ht] at hmem
          rcases List.mem_append.mp hmem with hmem | hmem
          · exact hasked j o' r hmem
          · cases List.mem_singleton.mp hmem
            exact ho
      · refine ih (c := c.turn h env (.thread i)) hlater hlog ?_ ?_ ?_
        all_goals
          rw [ht]
          assumption

end VerdeAuth.ForetoldLogs
