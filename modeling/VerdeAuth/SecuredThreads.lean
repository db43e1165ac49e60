import VerdeAuth.ForetoldLogs

/-!
# Threads that get through

A program that only reads until it has seen what it needs, and then ends well whatever
it is told, ends well in every interleaving whose other threads keep what it reads. How
many turns it needs is a bound on the length of the program.
-/

namespace VerdeAuth.SecuredThreads

open ResumptionPrograms InterleavedPools ResponseContracts ForetoldLogs

variable {Op : Type} {Res : Op → Type} {ε α β σ τ : Type}

/-- However it is answered, the program ends with `R`. -/
abbrev Surely (R : Except ε α → Prop) (p : Prog Res ε α) : Prop := Prog.Every (fun _ => True) R p

/-- As long as the responses to operations of `Q` are ones `A` admits, the program
performs such operations until it surely ends with `R`. -/
def Secures (A : (o : Op) → Res o → Prop) (Q : Op → Prop) (R : Except ε α → Prop) :
    Prog Res ε α → Prop
  | .ret a => R (.ok a)
  | .throw e => R (.error e)
  | .call o next => Surely R (.call o next) ∨ Q o ∧ ∀ r, A o r → Secures A Q R (next r)

/-- A response to an allowed operation in a state of the invariant. -/
def Answers (h : Semantics Res σ) (I : σ → Prop) (P : Op → Prop) (o : Op) (r : Res o) : Prop :=
  ∃ s, I s ∧ P o ∧ r = (h o s).1

/-- However it is answered, the program ends within so many operations. -/
def EndsWithin : ℕ → Prog Res ε α → Prop
  | n + 1, .call _ next => ∀ r, EndsWithin n (next r)
  | 0, .call _ _ => False
  | _, _ => True

section Secures

variable {A : (o : Op) → Res o → Prop} {Q : Op → Prop} {R : Except ε α → Prop}

theorem secures_of_surely {p : Prog Res ε α} (hp : Surely R p) : Secures A Q R p := by
  cases p with
  | ret a => exact hp
  | throw e => exact hp
  | call o next => exact .inl hp

theorem secures_read {o : Op} {f : Res o → Prog Res ε α} (ho : Q o)
    (hf : ∀ r, A o r → Secures A Q R (f r)) : Secures A Q R (Prog.perform o >>= f) :=
  .inr ⟨ho, hf⟩

/-- Sequencing behind a first part that returns a value with `S`. -/
theorem surely_bind {P : Op → Prop} {S : β → Prop} {p : Prog Res ε β} {f : β → Prog Res ε α}
    (hp : Prog.Every P (fun res => ∃ b, res = .ok b ∧ S b) p) (hf : ∀ b, S b → Surely R (f b)) :
    Surely R (p >>= f) := by
  refine (Prog.every_bind p f).mpr (Prog.Every.mono hp (fun _ _ => trivial) fun res hres => ?_)
  obtain ⟨b, rfl, hb⟩ := hres
  exact hf b hb

end Secures

section EndsWithin

theorem endsWithin_ret (n : ℕ) (a : α) : EndsWithin n (.ret a : Prog Res ε α) := by
  cases n <;> exact trivial

theorem endsWithin_throw (n : ℕ) (e : ε) : EndsWithin n (.throw e : Prog Res ε α) := by
  cases n <;> exact trivial

theorem endsWithin_call {n : ℕ} {o : Op} {next : Res o → Prog Res ε α} :
    EndsWithin n (.call o next) ↔ ∃ m, n = m + 1 ∧ ∀ r, EndsWithin m (next r) := by
  cases n with
  | zero => exact ⟨False.elim, fun ⟨m, hm, _⟩ => by omega⟩
  | succ n => exact ⟨fun h => ⟨n, rfl, h⟩, fun ⟨m, hm, h⟩ => by cases hm; exact h⟩

theorem EndsWithin.mono {m n : ℕ} {p : Prog Res ε α} (hp : EndsWithin m p) (hmn : m ≤ n) : EndsWithin n p := by
  induction p generalizing m n with
  | ret a => exact endsWithin_ret n a
  | throw e => exact endsWithin_throw n e
  | call o next ih =>
    obtain ⟨m', rfl, hnext⟩ := endsWithin_call.mp hp
    exact endsWithin_call.mpr ⟨n - 1, by omega, fun r => ih r (hnext r) (by omega)⟩

theorem EndsWithin.bind {m n : ℕ} {p : Prog Res ε α} {f : α → Prog Res ε β} (hp : EndsWithin m p)
    (hf : ∀ a, EndsWithin n (f a)) : EndsWithin (n + m) (p >>= f) := by
  induction p generalizing m with
  | ret a => exact (hf a).mono (by omega)
  | throw e => exact endsWithin_throw _ e
  | call o next ih =>
    obtain ⟨m', rfl, hnext⟩ := endsWithin_call.mp hp
    exact endsWithin_call.mpr ⟨n + m', by omega, fun r => ih r (hnext r)⟩

/-- Sequencing behind a first part about whose value something is known. -/
theorem EndsWithin.bind_of {P : Op → Prop} {S : Except ε α → Prop} {m n : ℕ} {p : Prog Res ε α}
    {f : α → Prog Res ε β} (hp : EndsWithin m p) (hS : Prog.Every P S p)
    (hf : ∀ a, S (.ok a) → EndsWithin n (f a)) : EndsWithin (n + m) (p >>= f) := by
  induction p generalizing m with
  | ret a => exact (hf a hS).mono (by omega)
  | throw e => exact endsWithin_throw _ e
  | call o next ih =>
    obtain ⟨m', rfl, hnext⟩ := endsWithin_call.mp hp
    exact endsWithin_call.mpr ⟨n + m', by omega, fun r => ih r (hnext r) (hS.2 r)⟩

theorem endsWithin_perform (o : Op) : EndsWithin 1 (Prog.perform o : Prog Res ε (Res o)) :=
  fun r => endsWithin_ret 0 r

end EndsWithin

section Interference

variable {h : Semantics Res σ} {I : σ → Prop} {rely : σ → σ → Prop} {F : (o : Op) → Res o → Prop}
  {R : Except ε α → Prop}

/-- As long as the others keep the invariant and change the state as `rely` allows, and
the exchanges are foretold, the program keeps the invariant until it surely ends with `R`. -/
def Wins (h : Semantics Res σ) (I : σ → Prop) (rely : σ → σ → Prop) (F : (o : Op) → Res o → Prop)
    (R : Except ε α → Prop) : Prog Res ε α → σ → Prop
  | .ret a, _ => R (.ok a)
  | .throw e, _ => R (.error e)
  | .call o next, s => Surely R (.call o next) ∨ ∀ s', I s' → rely s s' → F o (h o s').1 →
      I (h o s').2 ∧ Wins h I rely F R (next (h o s').1) (h o s').2

theorem wins_perform {o : Op} {f : Res o → Prog Res ε α} {s : σ}
    (hf : ∀ s', I s' → rely s s' → F o (h o s').1 →
      I (h o s').2 ∧ Wins h I rely F R (f (h o s').1) (h o s').2) :
    Wins h I rely F R (Prog.perform o >>= f) s := .inr hf

/-- A program that reads where the others preserve what it relies on. -/
theorem wins_of_secures {K L : σ → Prop} {Q : Op → Prop}
    (hK : ∀ s s', K s → I s' → rely s s' → K s' ∧ L s') (hQ : ∀ o s, Q o → (h o s).2 = s)
    {p : Prog Res ε α} (hp : Secures (Answers h L Q) Q R p) {s : σ} (hs : K s) :
    Wins h I rely F R p s := by
  induction p generalizing s with
  | ret a => exact hp
  | throw e => exact hp
  | call o next ih =>
    rcases hp with hsure | ⟨ho, hnext⟩
    · exact .inl hsure
    · refine .inr fun s' hI hrely _ => ?_
      obtain ⟨hs', hL⟩ := hK s s' hs hI hrely
      rw [hQ o s' ho]
      exact ⟨hI, ih _ (hnext _ ⟨s', hL, ho, rfl⟩) hs'⟩

end Interference

section Pools

variable {h : Semantics Res σ} {env : τ → σ → σ} {k : ℕ} {c : Pool Res ε α σ τ} {I : σ → Prop}
  {rely : σ → σ → Prop} {A : ℕ → (o : Op) → Res o → Prop} {P : ℕ → Op → Prop}
  {log : List (Event Res τ)} {R : Except ε α → Prop}

/-- The exchanges of a thread that a log holds. -/
def Foretold (log : List (Event Res τ)) (k : ℕ) (o : Op) (r : Res o) : Prop := .op k o r ∈ log

/-- The other threads keep the invariant and change the state as `rely` allows. -/
structure Spares (h : Semantics Res σ) (I : σ → Prop) (rely : σ → σ → Prop)
    (A : ℕ → (o : Op) → Res o → Prop) (P : ℕ → Op → Prop) (k : ℕ) (log : List (Event Res τ)) :
    Prop where
  refl : ∀ s, I s → rely s s
  trans : ∀ s s' s'', rely s s' → rely s' s'' → rely s s''
  step : ∀ j o s, j ≠ k → I s → P j o → Foretold log j o (h o s).1 →
    A j o (h o s).1 ∧ I (h o s).2 ∧ rely s (h o s).2

/-- The thread surely ends with `R`, or it wins from a state that the others have changed
as they may. -/
def OnItsWay (h : Semantics Res σ) (I : σ → Prop) (rely : σ → σ → Prop)
    (A : ℕ → (o : Op) → Res o → Prop) (P : ℕ → Op → Prop) (k : ℕ) (log : List (Event Res τ))
    (R : Except ε α → Prop) (c : Pool Res ε α σ τ) : Prop :=
  ∃ q, c.threads[k]? = some q ∧ (Surely R q ∨
    (∃ s, Wins h I rely (Foretold log k) R q s ∧ rely s c.state) ∧ I c.state ∧
    ∀ j p, j ≠ k → c.threads[j]? = some p → Under (A j) (P j) (fun _ => True) p)

theorem onItsWay_perform (hspares : Spares h I rely A P k log) {i : ℕ} {o : Op}
    {next : Res o → Prog Res ε α} (hi : c.threads[i]? = some (.call o next))
    (hlog : Foretold log i o (h o c.state).1) (hc : OnItsWay h I rely A P k log R c) :
    OnItsWay h I rely A P k log R (c.perform h i o next) := by
  obtain ⟨q, hq, hway⟩ := hc
  by_cases hik : i = k
  · subst hik
    cases Option.some.inj (hi.symm.trans hq)
    refine ⟨_, Pool.threads_perform_self hi, ?_⟩
    rcases hway with hsure | ⟨⟨s, hsure | hwins, hrely⟩, hI, hothers⟩
    · exact .inl (hsure.2 _)
    · exact .inl (hsure.2 _)
    · obtain ⟨hI', hnext⟩ := hwins c.state hI hrely hlog
      refine .inr ⟨⟨_, hnext, hspares.refl _ hI'⟩, hI', fun j p hj hp => ?_⟩
      rw [Pool.threads_perform_of_ne hj] at hp
      exact hothers j p hj hp
  · have hki : k ≠ i := fun he => hik he.symm
    refine ⟨q, (Pool.threads_perform_of_ne hki).trans hq, ?_⟩
    rcases hway with hsure | ⟨⟨s, hwins, hrely⟩, hI, hothers⟩
    · exact .inl hsure
    · obtain ⟨ho, hnext⟩ := hothers i _ hik hi
      obtain ⟨hr, hI', hrely'⟩ := hspares.step i o c.state hik hI ho hlog
      refine .inr ⟨⟨s, hwins, hspares.trans _ _ _ hrely hrely'⟩, hI', fun j p hj hp => ?_⟩
      rcases Pool.threads_perform_cases hi hp with ⟨rfl, rfl⟩ | ⟨-, hp⟩
      · exact hnext _ hr
      · exact hothers j p hj hp

theorem onItsWay_exec (hspares : Spares h I rely A P k log) {sched : List (Turn τ)}
    (henv : ∀ e s, .outside e ∈ sched → I s → I (env e s) ∧ rely s (env e s))
    (hlog : ∀ x ∈ (c.exec h env sched).log, x ∈ log) (hc : OnItsWay h I rely A P k log R c) :
    OnItsWay h I rely A P k log R (c.exec h env sched) := by
  induction sched generalizing c with
  | nil => exact hc
  | cons t ts ih =>
    refine ih (fun e s he => henv e s (List.mem_cons_of_mem _ he)) hlog ?_
    cases t with
    | thread i =>
      rcases Pool.turn_thread_cases h env c i with ⟨o, next, hi, ht⟩ | ⟨-, ht⟩
      · have hmem : .op i o (h o c.state).1 ∈ log := by
          refine hlog _ (mem_log_exec (c.turn h env (.thread i)) ts ?_)
          rw [ht]
          exact List.mem_append_right _ List.mem_cons_self
        rw [ht]
        exact onItsWay_perform hspares hi hmem hc
      · rw [ht]
        exact hc
    | outside e =>
      obtain ⟨q, hq, hway⟩ := hc
      refine ⟨q, hq, hway.imp_right ?_⟩
      rintro ⟨⟨s, hwins, hrely⟩, hI, hothers⟩
      obtain ⟨hI', hrely'⟩ := henv e _ List.mem_cons_self hI
      exact ⟨⟨s, hwins, hspares.trans _ _ _ hrely hrely'⟩, hI', hothers⟩

variable [DecidableEq τ]

/-- A thread that is given its turns ends. -/
theorem endsWithin_exec {n : ℕ} {p : Prog Res ε α} (hp : c.threads[k]? = some p) (hn : EndsWithin n p)
    (sched : List (Turn τ)) : ∃ q, (c.exec h env sched).threads[k]? = some q ∧
      EndsWithin (n - sched.count (.thread k)) q := by
  induction sched generalizing c n p with
  | nil => exact ⟨p, hp, hn⟩
  | cons t ts ih =>
    have hsame : (c.turn h env t).threads[k]? = some p → t ≠ .thread k →
        ∃ q, (c.exec h env (t :: ts)).threads[k]? = some q ∧
          EndsWithin (n - (t :: ts).count (.thread k)) q := by
      intro hp' hne
      rw [List.count_cons_of_ne hne]
      exact ih hp' hn
    cases t with
    | outside e => exact hsame hp (by simp)
    | thread i =>
      rcases Pool.turn_thread_cases h env c i with ⟨o, next, hi, ht⟩ | ⟨hstop, ht⟩
      · by_cases hik : i = k
        · subst hik
          cases Option.some.inj (hi.symm.trans hp)
          obtain ⟨m, rfl, hnext⟩ := endsWithin_call.mp hn
          rw [List.count_cons_self, Nat.add_sub_add_right]
          refine ih ?_ (hnext (h o c.state).1)
          rw [ht]
          exact Pool.threads_perform_self hi
        · refine hsame ?_ (by simpa using hik)
          rw [ht, Pool.threads_perform_of_ne fun he => hik he.symm]
          exact hp
      · by_cases hik : i = k
        · subst hik
          have hended : ∀ m, EndsWithin m p := by
            intro m
            cases p with
            | ret a => exact endsWithin_ret m a
            | throw e => exact endsWithin_throw m e
            | call o next => exact absurd hp (hstop o next)
          refine (ih (c := c.turn h env (.thread i)) (n := 0) (p := p) ?_ (hended 0)).imp ?_
          · rw [ht]
            exact hp
          · rintro q ⟨hq, hw⟩
            exact ⟨hq, hw.mono (by omega)⟩
        · refine hsame ?_ (by simpa using hik)
          rw [ht]
          exact hp

/-- A winning thread that is given its turns has ended with `R`. -/
theorem winning_exec (hspares : Spares h I rely A P k log) {sched : List (Turn τ)}
    (henv : ∀ e s, .outside e ∈ sched → I s → I (env e s) ∧ rely s (env e s))
    (hlog : ∀ x ∈ (c.exec h env sched).log, x ∈ log) {n : ℕ} {p : Prog Res ε α}
    (hp : c.threads[k]? = some p) (hn : EndsWithin n p)
    (hwins : Wins h I rely (Foretold log k) R p c.state) (hI : I c.state)
    (hothers : ∀ j p, j ≠ k → c.threads[j]? = some p → Under (A j) (P j) (fun _ => True) p)
    (hturns : n ≤ sched.count (.thread k)) :
    (∃ a, (c.exec h env sched).threads[k]? = some (.ret a) ∧ R (.ok a)) ∨
      ∃ e, (c.exec h env sched).threads[k]? = some (.throw e) ∧ R (.error e) := by
  obtain ⟨q, hq, hw⟩ : ∃ q, (c.exec h env sched).threads[k]? = some q ∧
      EndsWithin (n - sched.count (.thread k)) q := endsWithin_exec hp hn sched
  obtain ⟨q', hq', hway⟩ : OnItsWay h I rely A P k log R (c.exec h env sched) :=
    onItsWay_exec hspares henv hlog
      ⟨p, hp, .inr ⟨⟨c.state, hwins, hspares.refl _ hI⟩, hI, hothers⟩⟩
  cases Option.some.inj (hq.symm.trans hq')
  rw [Nat.sub_eq_zero_of_le hturns] at hw
  cases q with
  | call o next => exact hw.elim
  | ret a => exact .inl ⟨a, hq, hway.elim id fun ⟨⟨_, hR, _⟩, _⟩ => hR⟩
  | throw e => exact .inr ⟨e, hq, hway.elim id fun ⟨⟨_, hR, _⟩, _⟩ => hR⟩

/-- A program that reads among others that keep what it reads. -/
theorem secured_exec {P Q : Op → Prop} (hP : ∀ o s, I s → P o → I (h o s).2)
    (hQ : ∀ o s, Q o → (h o s).2 = s) {sched : List (Turn τ)}
    (henv : ∀ e s, .outside e ∈ sched → I s → I (env e s)) {n : ℕ} {p : Prog Res ε α}
    (hp : c.threads[k]? = some p) (hn : EndsWithin n p)
    (hsec : Secures (Answers h I Q) Q R p) (hI : I c.state)
    (hothers : ∀ j p, j ≠ k → c.threads[j]? = some p → Under (Answers h I P) P (fun _ => True) p)
    (hturns : n ≤ sched.count (.thread k)) :
    (∃ a, (c.exec h env sched).threads[k]? = some (.ret a) ∧ R (.ok a)) ∨
      ∃ e, (c.exec h env sched).threads[k]? = some (.throw e) ∧ R (.error e) := by
  have hspares : Spares h I (fun _ _ => True) (fun _ => Answers h I P) (fun _ => P) k
      (c.exec h env sched).log := by
    refine ⟨fun _ _ => trivial, fun _ _ _ _ _ => trivial, fun j o s _ hI ho _ => ?_⟩
    exact ⟨⟨s, hI, ho, rfl⟩, hP o s hI ho, trivial⟩
  refine winning_exec hspares (fun e s he hI => ⟨henv e s he hI, trivial⟩) (fun _ hx => hx) hp hn
    (wins_of_secures (K := fun _ => True) (fun _ _ _ hI _ => ⟨trivial, hI⟩) hQ hsec trivial) hI hothers hturns

end Pools

end VerdeAuth.SecuredThreads
