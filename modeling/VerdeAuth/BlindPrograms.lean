import VerdeAuth.InterleavedPools

/-!
# Programs blind to a difference

A program is blind to what a relation on responses leaves open when it goes on alike
after related responses. Blind programs cannot tell stores apart that differ in nothing
else, whatever runs beside them.
-/

namespace VerdeAuth.BlindPrograms

open ResumptionPrograms InterleavedPools

variable {Op : Type} {Res : Op → Type} {ε α β σ τ : Type}

/-- The program asks only operations with `P`, and goes on alike after responses that `S`
relates. -/
def Blind (S : (o : Op) → Res o → Res o → Prop) (P : Op → Prop) : Prog Res ε α → Prop
  | .call o next => P o ∧ (∀ r r', S o r r' → next r = next r') ∧ ∀ r, Blind S P (next r)
  | _ => True

section Rules

variable {S : (o : Op) → Res o → Res o → Prop} {P : Op → Prop}

theorem blind_ret (a : α) : Blind S P (.ret a : Prog Res ε α) := trivial

theorem blind_throw (e : ε) : Blind S P (.throw e : Prog Res ε α) := trivial

theorem blind_bind {p : Prog Res ε β} {f : β → Prog Res ε α} (hp : Blind S P p)
    (hf : ∀ b, Blind S P (f b)) : Blind S P (p >>= f) := by
  induction p with
  | ret b => exact hf b
  | throw e => trivial
  | call o next ih =>
    obtain ⟨ho, hsame, hnext⟩ := hp
    exact ⟨ho, fun r r' hr => congrArg (· >>= f) (hsame r r' hr), fun r => ih r (hnext r)⟩

/-- An operation whose response is not all used. -/
theorem blind_read {o : Op} {f : Res o → Prog Res ε α} (ho : P o)
    (hf : ∀ r r', S o r r' → f r = f r') (hnext : ∀ r, Blind S P (f r)) :
    Blind S P (Prog.perform o >>= f) := ⟨ho, hf, hnext⟩

/-- An operation whose response leaves nothing open. -/
theorem blind_op {o : Op} (ho : P o) (hS : ∀ r r', S o r r' → r = r') :
    Blind S P (Prog.perform o : Prog Res ε _) :=
  ⟨ho, fun r r' hr => by rw [hS r r' hr], fun _ => trivial⟩

end Rules

/-- Operations with `P` have related responses in corresponding states, and leave
corresponding states. -/
structure Corresponds (h : Semantics Res σ) (env : τ → σ → σ) (I : σ → σ → Prop)
    (S : (o : Op) → Res o → Res o → Prop) (P : Op → Prop) : Prop where
  answers : ∀ o s s', P o → I s s' → S o (h o s).1 (h o s').1
  keeps : ∀ o s s', P o → I s s' → I (h o s).2 (h o s').2
  outside : ∀ e s s', I s s' → I (env e s) (env e s')

namespace Corresponds

variable {h : Semantics Res σ} {env : τ → σ → σ} {I : σ → σ → Prop}
  {S : (o : Op) → Res o → Res o → Prop} {P : Op → Prop} {c c' : Pool Res ε α σ τ}

theorem turn (hc : Corresponds h env I S P) (hthreads : c'.threads = c.threads)
    (hstate : I c.state c'.state) (hps : ∀ p ∈ c.threads, Blind S P p) (t : Turn τ) :
    (c'.turn h env t).threads = (c.turn h env t).threads ∧
      I (c.turn h env t).state (c'.turn h env t).state ∧
      ∀ p ∈ (c.turn h env t).threads, Blind S P p := by
  cases t with
  | outside e => exact ⟨hthreads, hc.outside e _ _ hstate, hps⟩
  | thread i =>
    rcases Pool.turn_thread_cases h env c i with ⟨o, next, hi, ht⟩ | ⟨hstop, ht⟩
    · have hi' : c'.threads[i]? = some (.call o next) := hthreads ▸ hi
      have ht' : c'.turn h env (.thread i) = c'.perform h i o next := by simp [Pool.turn, hi']
      obtain ⟨ho, hsame, hnext⟩ : Blind S P (.call o next) := hps _ (List.mem_of_getElem? hi)
      have hr : next (h o c.state).1 = next (h o c'.state).1 :=
        hsame _ _ (hc.answers o _ _ ho hstate)
      rw [ht, ht']
      refine ⟨?_, hc.keeps o _ _ ho hstate, fun p hp => ?_⟩
      · simp only [Pool.perform, hthreads, hr]
      · rcases List.mem_or_eq_of_mem_set hp with hp | rfl
        · exact hps p hp
        · exact hnext _
    · have ht' : c'.turn h env (.thread i) = c' := by
        rcases Pool.turn_thread_cases h env c' i with ⟨o, next, hi, -⟩ | ⟨-, ht'⟩
        · exact absurd (hthreads ▸ hi) (hstop o next)
        · exact ht'
      rw [ht, ht']
      exact ⟨hthreads, hstate, hps⟩

/-- In every interleaving blind programs end alike from corresponding states. -/
theorem exec (hc : Corresponds h env I S P) {ps : List (Prog Res ε α)}
    (hps : ∀ p ∈ ps, Blind S P p) {s s' : σ} (hs : I s s') (sched : List (Turn τ)) :
    ((Pool.start ps s').exec h env sched).threads = ((Pool.start ps s).exec h env sched).threads ∧
      I ((Pool.start ps s).exec h env sched).state ((Pool.start ps s').exec h env sched).state := by
  have hrun : ∀ c c' : Pool Res ε α σ τ, c'.threads = c.threads → I c.state c'.state →
      (∀ p ∈ c.threads, Blind S P p) → (c'.exec h env sched).threads = (c.exec h env sched).threads ∧
        I (c.exec h env sched).state (c'.exec h env sched).state := by
    induction sched with
    | nil => exact fun c c' hthreads hstate _ => ⟨hthreads, hstate⟩
    | cons t ts ih =>
      intro c c' hthreads hstate hblind
      obtain ⟨hthreads, hstate, hblind⟩ := hc.turn hthreads hstate hblind t
      exact ih _ _ hthreads hstate hblind
  exact hrun _ _ rfl hs hps

end Corresponds

end VerdeAuth.BlindPrograms
