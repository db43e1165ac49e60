import VerdeAuth.ResumptionPrograms

/-!
# Interleaved runs of several programs

A pool holds one program for each thread and the shared state. A turn lets one
thread perform its next operation, or lets the surroundings change the state; a
schedule is any list of turns. The log keeps every operation with its response.
-/

namespace VerdeAuth.InterleavedPools

open ResumptionPrograms

variable {Op : Type} {Res : Op → Type} {ε α σ τ : Type}

inductive Event (Res : Op → Type) (τ : Type) where
  | op (thread : ℕ) (o : Op) (response : Res o)
  | outside (e : τ)

structure Pool (Res : Op → Type) (ε α σ τ : Type) where
  threads : List (Prog Res ε α)
  state : σ
  log : List (Event Res τ)

inductive Turn (τ : Type) where
  | thread (i : ℕ)
  | outside (e : τ)
  deriving DecidableEq

/-- An operation of one thread with the response it was given. -/
abbrev Exchange (Res : Op → Type) := (o : Op) × Res o

/-- The operations of one thread, in order. -/
def own (i : ℕ) : List (Event Res τ) → List (Exchange Res)
  | [] => []
  | .op j o r :: l => if j = i then ⟨o, r⟩ :: own i l else own i l
  | .outside _ :: l => own i l

@[simp] theorem own_append (i : ℕ) (l l' : List (Event Res τ)) :
    own i (l ++ l') = own i l ++ own i l' := by
  induction l with
  | nil => rfl
  | cons e l ih =>
    cases e with
    | op j o r =>
      simp only [List.cons_append, own, ih]
      split <;> rfl
    | outside e => simpa [own] using ih

theorem mem_own {i : ℕ} {o : Op} {r : Res o} {l : List (Event Res τ)} :
    ⟨o, r⟩ ∈ own i l ↔ .op i o r ∈ l := by
  induction l with
  | nil => simp [own]
  | cons e l ih =>
    cases e with
    | outside e => simpa [own] using ih
    | op j o' r' =>
      by_cases hj : j = i
      · subst hj
        simp [own, ih]
      · have hne : ¬ i = j := fun he => hj he.symm
        simp [own, hj, hne, ih]

/-- A program that was given these responses to these operations has become another one. -/
inductive Follows : Prog Res ε α → List (Exchange Res) → Prog Res ε α → Prop
  | nil (p : Prog Res ε α) : Follows p [] p
  | cons {o : Op} {next : Res o → Prog Res ε α} {r : Res o} {l : List (Exchange Res)}
      {p : Prog Res ε α} (tail : Follows (next r) l p) : Follows (.call o next) (⟨o, r⟩ :: l) p

theorem Follows.snoc {p : Prog Res ε α} {l : List (Exchange Res)} {o : Op}
    {next : Res o → Prog Res ε α} (hf : Follows p l (.call o next)) (r : Res o) :
    Follows p (l ++ [⟨o, r⟩]) (next r) := by
  generalize hq : Prog.call o next = q at hf
  induction hf with
  | nil p =>
    subst hq
    exact .cons (.nil _)
  | cons tail ih => exact .cons (ih hq)

theorem Follows.split {p q : Prog Res ε α} {l l' : List (Exchange Res)}
    (hf : Follows p (l ++ l') q) : ∃ p', Follows p l p' ∧ Follows p' l' q := by
  induction l generalizing p with
  | nil => exact ⟨p, .nil p, hf⟩
  | cons x l ih =>
    cases hf with
    | cons tail =>
      obtain ⟨p', hp, hq⟩ := ih tail
      exact ⟨p', .cons hp, hq⟩

/-- What holds of every way a program may go on holds of what it has become. -/
theorem Follows.every {P : Op → Prop} {R : Except ε α → Prop} {p q : Prog Res ε α}
    {l : List (Exchange Res)} (hf : Follows p l q) (hp : Prog.Every P R p) : Prog.Every P R q := by
  induction hf with
  | nil p => exact hp
  | cons tail ih => exact ih (hp.2 _)

namespace Pool

variable (h : Semantics Res σ) (env : τ → σ → σ)

def start (ps : List (Prog Res ε α)) (s : σ) : Pool Res ε α σ τ := ⟨ps, s, []⟩

/-- Thread `i` performs the operation it asks for. -/
def perform (c : Pool Res ε α σ τ) (i : ℕ) (o : Op) (next : Res o → Prog Res ε α) :
    Pool Res ε α σ τ where
  threads := c.threads.set i (next (h o c.state).1)
  state := (h o c.state).2
  log := c.log ++ [.op i o (h o c.state).1]

def turn (c : Pool Res ε α σ τ) : Turn τ → Pool Res ε α σ τ
  | .thread i => match c.threads[i]? with
    | some (.call o next) => c.perform h i o next
    | _ => c
  | .outside e => { c with state := env e c.state, log := c.log ++ [.outside e] }

def exec (c : Pool Res ε α σ τ) (sched : List (Turn τ)) : Pool Res ε α σ τ :=
  sched.foldl (turn h env) c

section Perform

variable {h} {c : Pool Res ε α σ τ} {i j : ℕ} {o : Op} {next : Res o → Prog Res ε α}

theorem own_perform_self : own i (c.perform h i o next).log =
    own i c.log ++ [⟨o, (h o c.state).1⟩] := by
  simp [perform, own]

theorem own_perform_of_ne (hj : j ≠ i) : own j (c.perform h i o next).log = own j c.log := by
  simp [perform, own, hj.symm]

theorem threads_perform_self (hi : c.threads[i]? = some (.call o next)) :
    (c.perform h i o next).threads[i]? = some (next (h o c.state).1) := by
  have hlt := (List.getElem?_eq_some_iff.mp hi).1
  simp [perform, hlt]

theorem threads_perform_of_ne (hj : j ≠ i) :
    (c.perform h i o next).threads[j]? = c.threads[j]? := by
  simp [perform, hj.symm]

/-- The thread that performed the operation has gone on, the others are where they were. -/
theorem threads_perform_cases (hi : c.threads[i]? = some (.call o next)) {p : Prog Res ε α}
    (hj : (c.perform h i o next).threads[j]? = some p) :
    (j = i ∧ p = next (h o c.state).1) ∨ (j ≠ i ∧ c.threads[j]? = some p) := by
  by_cases hji : j = i
  · subst hji
    rw [threads_perform_self hi] at hj
    exact .inl ⟨rfl, (Option.some.inj hj).symm⟩
  · rw [threads_perform_of_ne hji] at hj
    exact .inr ⟨hji, hj⟩

end Perform

/-- A turn of a thread performs its next operation, or nothing where it has stopped. -/
theorem turn_thread_cases (c : Pool Res ε α σ τ) (i : ℕ) :
    (∃ o next, c.threads[i]? = some (.call o next) ∧
      c.turn h env (.thread i) = c.perform h i o next) ∨
    ((∀ o next, c.threads[i]? ≠ some (.call o next)) ∧ c.turn h env (.thread i) = c) := by
  cases ht : c.threads[i]? with
  | none => exact .inr ⟨by simp, by simp [turn, ht]⟩
  | some p =>
    cases p with
    | ret a => exact .inr ⟨by simp, by simp [turn, ht]⟩
    | throw e => exact .inr ⟨by simp, by simp [turn, ht]⟩
    | call o next => exact .inl ⟨o, next, rfl, by simp [turn, ht]⟩

variable {h env}

@[simp] theorem exec_nil (c : Pool Res ε α σ τ) : c.exec h env [] = c := rfl

@[simp] theorem exec_cons (c : Pool Res ε α σ τ) (t : Turn τ) (ts : List (Turn τ)) :
    c.exec h env (t :: ts) = (c.turn h env t).exec h env ts := rfl

/-- Every turn of the schedule is allowed in the pool it is taken in. -/
def Admits (h : Semantics Res σ) (env : τ → σ → σ) (K : Pool Res ε α σ τ → Turn τ → Prop) :
    Pool Res ε α σ τ → List (Turn τ) → Prop
  | _, [] => True
  | c, t :: ts => K c t ∧ Admits h env K (c.turn h env t) ts

instance decidableAdmits (h : Semantics Res σ) (env : τ → σ → σ)
    (K : Pool Res ε α σ τ → Turn τ → Prop) [∀ c t, Decidable (K c t)] :
    ∀ (c : Pool Res ε α σ τ) (sched : List (Turn τ)), Decidable (Admits h env K c sched)
  | _, [] => inferInstanceAs (Decidable True)
  | c, t :: ts =>
    have := decidableAdmits h env K (c.turn h env t) ts
    inferInstanceAs (Decidable (K c t ∧ _))

/-- The invariant rule for interleavings. -/
theorem exec_invariant (J : Pool Res ε α σ τ → Prop) (K : Pool Res ε α σ τ → Turn τ → Prop)
    (hstep : ∀ c t, J c → K c t → J (c.turn h env t)) {sched : List (Turn τ)}
    {c : Pool Res ε α σ τ} (hc : J c) (hK : Admits h env K c sched) : J (c.exec h env sched) := by
  induction sched generalizing c with
  | nil => exact hc
  | cons t ts ih => exact ih (hstep c t hc hK.1) hK.2

theorem admits_true (sched : List (Turn τ)) (c : Pool Res ε α σ τ) :
    Admits h env (fun _ _ => True) c sched := by
  induction sched generalizing c with
  | nil => trivial
  | cons t ts ih => exact ⟨trivial, ih _⟩

/-- The state a log leads to. -/
def replay (h : Semantics Res σ) (env : τ → σ → σ) : σ → List (Event Res τ) → σ
  | s, [] => s
  | s, .op _ o _ :: l => replay h env (h o s).2 l
  | s, .outside e :: l => replay h env (env e s) l

theorem replay_append (s : σ) (l l' : List (Event Res τ)) :
    replay h env s (l ++ l') = replay h env (replay h env s l) l' := by
  induction l generalizing s with
  | nil => rfl
  | cons e l ih => cases e <;> simp [replay, ih]

/-- Every response in the log is the one the semantics gives at that point. -/
def Faithful (h : Semantics Res σ) (env : τ → σ → σ) (s : σ) (log : List (Event Res τ)) : Prop :=
  ∀ l i o r l', log = l ++ .op i o r :: l' → r = (h o (replay h env s l)).1

private theorem faithful_snoc {s : σ} {log : List (Event Res τ)} (hl : Faithful h env s log)
    (e : Event Res τ)
    (he : ∀ i o r, e = .op i o r → r = (h o (replay h env s log)).1) :
    Faithful h env s (log ++ [e]) := by
  intro l i o r l' heq
  rcases List.eq_nil_or_concat l' with rfl | ⟨l'', e', rfl⟩
  · obtain ⟨rfl, h1⟩ := List.append_inj' heq rfl
    exact he i o r (List.cons.inj h1).1
  · have heq' : log ++ [e] = (l ++ .op i o r :: l'') ++ [e'] := by simpa using heq
    exact hl l i o r l'' (List.append_inj' heq' rfl).1

/-- In every interleaving the state is the one the log leads to, the responses
are those of the semantics, and each thread has followed its own operations. -/
theorem exec_log (ps : List (Prog Res ε α)) (s : σ) (sched : List (Turn τ)) :
    let c := (start ps s : Pool Res ε α σ τ).exec h env sched
    c.state = replay h env s c.log ∧ Faithful h env s c.log ∧
      ∀ i p, ps[i]? = some p → ∃ p', c.threads[i]? = some p' ∧ Follows p (own i c.log) p' := by
  refine exec_invariant (fun c => c.state = replay h env s c.log ∧ Faithful h env s c.log ∧
      ∀ i p, ps[i]? = some p → ∃ p', c.threads[i]? = some p' ∧ Follows p (own i c.log) p')
    (fun _ _ => True) ?_ ⟨rfl, ?_, fun i p hp => ⟨p, hp, .nil p⟩⟩ (admits_true sched _)
  · rintro c (i | e) ⟨hs, hl, hf⟩ -
    · rcases turn_thread_cases h env c i with ⟨o, next, hi, ht⟩ | ⟨-, ht⟩
      · rw [ht]
        refine ⟨?_, ?_, ?_⟩
        · simp [perform, replay_append, replay, hs]
        · refine faithful_snoc hl _ ?_
          rintro _ _ _ ⟨⟩
          rw [hs]
        · intro j p hp
          obtain ⟨p', hp', hfollow⟩ := hf j p hp
          by_cases hij : i = j
          · subst hij
            have hcall : p' = .call o next := Option.some.inj (hp'.symm.trans hi)
            subst hcall
            refine ⟨_, threads_perform_self hi, ?_⟩
            rw [own_perform_self]
            exact hfollow.snoc _
          · have hji : j ≠ i := fun he => hij he.symm
            refine ⟨p', (threads_perform_of_ne hji).trans hp', ?_⟩
            rw [own_perform_of_ne hji]
            exact hfollow
      · rw [ht]
        exact ⟨hs, hl, hf⟩
    · refine ⟨by simp [turn, replay_append, replay, hs], ?_, ?_⟩
      · exact faithful_snoc hl _ (by simp)
      · intro j p hp
        obtain ⟨p', hp', hfollow⟩ := hf j p hp
        exact ⟨p', hp', by simpa [turn, own] using hfollow⟩
  · intro l i o r l' heq
    simp [start] at heq

/-- Only the threads there are perform operations. -/
theorem thread_lt_of_mem_log (ps : List (Prog Res ε α)) (s : σ) (sched : List (Turn τ)) {i : ℕ}
    {o : Op} {r : Res o}
    (hi : .op i o r ∈ ((start ps s : Pool Res ε α σ τ).exec h env sched).log) :
    i < ps.length := by
  let J : Pool Res ε α σ τ → Prop := fun c => c.threads.length = ps.length ∧
    ∀ i o r, .op i o r ∈ c.log → i < ps.length
  have hJ : J ((start ps s : Pool Res ε α σ τ).exec h env sched) := by
    apply exec_invariant J (fun _ _ => True) ?_ ⟨rfl, by simp [start]⟩ (admits_true sched _)
    rintro c (j | e) ⟨hlen, hlog⟩ -
    · rcases turn_thread_cases h env c j with ⟨o, next, hj, ht⟩ | ⟨-, ht⟩
      · have hlt : j < ps.length := hlen ▸ (List.getElem?_eq_some_iff.mp hj).1
        rw [ht]
        constructor
        · simpa [perform] using hlen
        · intro i o' r hmem
          rcases List.mem_append.mp hmem with hmem | hmem
          · exact hlog i o' r hmem
          · cases List.mem_singleton.mp hmem
            exact hlt
      · rw [ht]
        exact ⟨hlen, hlog⟩
    · constructor
      · exact hlen
      · intro i o' r hmem
        exact hlog i o' r (by simpa [turn] using hmem)
  exact hJ.2 i o r hi

end Pool

end VerdeAuth.InterleavedPools
