import VerdeAuth.InterleavedPools

/-!
# Programs under a contract on responses

A program relies on the responses it is given and guarantees something of the
operations it asks for. `Under` states both for one program. Programs that are
each correct under a contract can be interleaved: what the contract admits may
grow with the state, but is never taken back.
-/

namespace VerdeAuth.ResponseContracts

open ResumptionPrograms InterleavedPools

variable {Op : Type} {Res : Op → Type} {ε α β σ τ : Type}

/-- The property of the end that sequencing leaves to a first part. -/
def Continues (S : α → Prop) (R : Except ε β → Prop) : Except ε α → Prop
  | .ok a => S a
  | .error e => R (.error e)

/-- As long as the responses are ones `A` admits, the operations satisfy `P` and
the end satisfies `R`. -/
def Under (A : (o : Op) → Res o → Prop) (P : Op → Prop) (R : Except ε α → Prop) :
    Prog Res ε α → Prop
  | .ret a => R (.ok a)
  | .throw e => R (.error e)
  | .call o next => P o ∧ ∀ r, A o r → Under A P R (next r)

section Under

variable {A A' : (o : Op) → Res o → Prop} {P P' : Op → Prop} {R R' : Except ε α → Prop}

@[simp] theorem under_ret (a : α) : Under A P R (.ret a : Prog Res ε α) ↔ R (.ok a) := Iff.rfl

@[simp] theorem under_throw (e : ε) : Under A P R (.throw e : Prog Res ε α) ↔ R (.error e) :=
  Iff.rfl

@[simp] theorem under_call (o : Op) (next : Res o → Prog Res ε α) :
    Under A P R (.call o next) ↔ P o ∧ ∀ r, A o r → Under A P R (next r) := Iff.rfl

/-- A contract that admits less, for a program that has to guarantee less. -/
theorem Under.mono {p : Prog Res ε α} (hp : Under A P R p) (hA : ∀ o r, A' o r → A o r)
    (hP : ∀ o, P o → P' o) (hR : ∀ r, R r → R' r) : Under A' P' R' p := by
  induction p with
  | ret a => exact hR _ hp
  | throw e => exact hR _ hp
  | call o next ih => exact ⟨hP o hp.1, fun r hr => ih r (hp.2 r (hA o r hr))⟩

theorem Under.and {P' : Op → Prop} {p : Prog Res ε α} (hp : Under A P R p)
    (hp' : Under A P' R' p) : Under A (fun o => P o ∧ P' o) (fun r => R r ∧ R' r) p := by
  induction p with
  | ret a => exact ⟨hp, hp'⟩
  | throw e => exact ⟨hp, hp'⟩
  | call o next ih => exact ⟨⟨hp.1, hp'.1⟩, fun r hr => ih r (hp.2 r hr) (hp'.2 r hr)⟩

/-- What holds of a program on a condition. -/
theorem under_when {K : Prop} {p : Prog Res ε α} (hp : K → Under A P R p) :
    Under A (fun o => K → P o) (fun r => K → R r) p := by
  by_cases hK : K
  · exact (hp hK).mono (fun _ _ hr => hr) (fun _ ho _ => ho) fun _ hr _ => hr
  · induction p with
    | ret a => exact fun h => absurd h hK
    | throw e => exact fun h => absurd h hK
    | call o next ih => exact ⟨fun h => absurd h hK, fun r _ => ih r fun h => absurd h hK⟩

theorem under_of_every {p : Prog Res ε α} (hp : Prog.Every P R p) : Under A P R p := by
  induction p with
  | ret a => exact hp
  | throw e => exact hp
  | call o next ih => exact ⟨hp.1, fun r _ => ih r (hp.2 r)⟩

theorem under_bind {R : Except ε β → Prop} (p : Prog Res ε α) (f : α → Prog Res ε β) :
    Under A P R (p >>= f) ↔ Under A P (Continues (fun a => Under A P R (f a)) R) p := by
  induction p with
  | ret a => exact Iff.rfl
  | throw e => exact Iff.rfl
  | call o next ih => simp only [Prog.call_bind, under_call, ih]

/-- Sequencing behind a first part whose value satisfies `S`. -/
theorem Under.bind {S : α → Prop} {R : Except ε β → Prop} {p : Prog Res ε α}
    {f : α → Prog Res ε β} (hp : Under A P (Continues S R) p) (hf : ∀ a, S a → Under A P R (f a)) :
    Under A P R (p >>= f) := by
  refine (under_bind p f).mpr (hp.mono (fun _ _ hr => hr) (fun _ ho => ho) fun r hr => ?_)
  cases r with
  | ok a => exact hf a hr
  | error e => exact hr

/-- A program that has been given admitted responses is still under the contract. -/
theorem Under.follows {p q : Prog Res ε α} {l : List (Exchange Res)} (hp : Under A P R p)
    (hf : Follows p l q) (hl : ∀ x ∈ l, A x.1 x.2) : Under A P R q := by
  induction hf with
  | nil p => exact hp
  | cons tail ih =>
    have hhead := hl _ List.mem_cons_self
    exact ih (hp.2 _ hhead) fun x hx => hl x (List.mem_cons_of_mem _ hx)

end Under

section Threads

variable {h : Semantics Res σ} {env : τ → σ → σ}

theorem length_threads_exec (ps : List (Prog Res ε α)) (s : σ) (sched : List (Turn τ)) :
    ((Pool.start ps s : Pool Res ε α σ τ).exec h env sched).threads.length = ps.length := by
  let J : Pool Res ε α σ τ → Prop := fun c => c.threads.length = ps.length
  refine Pool.exec_invariant J (fun _ _ => True) ?_ rfl (Pool.admits_true sched _)
  rintro c (i | e) hlen -
  · rcases Pool.turn_thread_cases h env c i with ⟨o, next, -, ht⟩ | ⟨-, ht⟩
    · simpa [J, ht, Pool.perform] using hlen
    · rw [ht]
      exact hlen
  · exact hlen

/-- A thread of a pool is what its program became through the thread's own exchanges. -/
theorem exec_thread (ps : List (Prog Res ε α)) (s : σ) (sched : List (Turn τ)) {i : ℕ}
    {q : Prog Res ε α} :
    let c := (Pool.start ps s : Pool Res ε α σ τ).exec h env sched
    c.threads[i]? = some q → ∃ p, ps[i]? = some p ∧ Follows p (own i c.log) q := by
  intro c hq
  have hlen : c.threads.length = ps.length := length_threads_exec ps s sched
  have hlt : i < ps.length := hlen ▸ (List.getElem?_eq_some_iff.mp hq).1
  have hp : ps[i]? = some ps[i] := List.getElem?_eq_getElem hlt
  obtain ⟨q', hq', hf⟩ : ∃ q', c.threads[i]? = some q' ∧ Follows ps[i] (own i c.log) q' :=
    (Pool.exec_log ps s sched).2.2 i ps[i] hp
  cases hq'.symm.trans hq
  exact ⟨ps[i], hp, hf⟩

end Threads

/-- Whatever the responses are, a value that the program ends with has `S`. -/
def Returns (S : α → Prop) (p : Prog Res ε α) : Prop :=
  Prog.Every (fun _ => True) (fun res => ∀ a, res = .ok a → S a) p

section Returns

variable {S : α → Prop} {T : β → Prop}

theorem returns_ret {a : α} (ha : S a) : Returns S (.ret a : Prog Res ε α) := by
  rintro _ ⟨⟩
  exact ha

theorem returns_throw (e : ε) : Returns S (.throw e : Prog Res ε α) := nofun

theorem returns_true (p : Prog Res ε α) : Returns (fun _ => True) p := by
  induction p with
  | ret a => exact returns_ret trivial
  | throw e => exact returns_throw e
  | call o next ih => exact ⟨trivial, ih⟩

theorem Returns.bind {p : Prog Res ε α} {f : α → Prog Res ε β} (hp : Returns S p)
    (hf : ∀ a, S a → Returns T (f a)) : Returns T (p >>= f) := by
  induction p with
  | ret a => exact hf a (hp a rfl)
  | throw e => exact returns_throw e
  | call o next ih => exact ⟨trivial, fun r => ih r (hp.2 r)⟩

theorem Returns.map {p : Prog Res ε α} {f : α → β} (hp : Returns S p) (hf : ∀ a, S a → T (f a)) :
    Returns T (f <$> p) := by
  rw [map_eq_pure_bind]
  exact hp.bind fun a ha => returns_ret (hf a ha)

/-- What a thread of a pool ends with. -/
theorem returns_exec {h : Semantics Res σ} {env : τ → σ → σ} {ps : List (Prog Res ε α)} {s : σ}
    {sched : List (Turn τ)} {i : ℕ} {p : Prog Res ε α} (hp : ps[i]? = some p) (hS : Returns S p)
    {a : α} (ha : ((Pool.start ps s : Pool Res ε α σ τ).exec h env sched).threads[i]? =
      some (.ret a)) : S a := by
  obtain ⟨p', hp', hf⟩ := exec_thread ps s sched ha
  cases hp.symm.trans hp'
  exact hf.every hS a rfl

end Returns

/-- Every operation of a log was allowed in the state it was performed in. -/
def Lawful (h : Semantics Res σ) (env : τ → σ → σ) (P : σ → Op → Prop) :
    σ → List (Event Res τ) → Prop
  | _, [] => True
  | s, .op _ o _ :: l => P s o ∧ Lawful h env P (h o s).2 l
  | s, .outside e :: l => Lawful h env P (env e s) l

theorem lawful_append {h : Semantics Res σ} {env : τ → σ → σ} {P : σ → Op → Prop} {s : σ}
    {l l' : List (Event Res τ)} : Lawful h env P s (l ++ l') ↔
      Lawful h env P s l ∧ Lawful h env P (Pool.replay h env s l) l' := by
  induction l generalizing s with
  | nil => simp [Lawful, Pool.replay]
  | cons e l ih => cases e <;> simp [Lawful, Pool.replay, ih, and_assoc]

/-- What makes a state invariant survive any interleaving of programs under the
contract: an operation that satisfies the guarantee keeps the invariant and gives
a response the contract admits afterwards, and nothing admitted is taken back. -/
structure Stable (h : Semantics Res σ) (env : τ → σ → σ) (I : σ → Prop)
    (A : σ → (o : Op) → Res o → Prop) (P : σ → Op → Prop) : Prop where
  keeps : ∀ o s, I s → P s o → I (h o s).2
  answers : ∀ o s, I s → P s o → A (h o s).2 o (h o s).1
  lasts : ∀ o s o' r, I s → P s o → A s o' r → A (h o s).2 o' r
  outside : ∀ e s, I s → I (env e s)
  outside_lasts : ∀ e s o r, I s → A s o r → A (env e s) o r

namespace Stable

variable {h : Semantics Res σ} {env : τ → σ → σ} {I : σ → Prop}
  {A : σ → (o : Op) → Res o → Prop} {P : σ → Op → Prop} {R : Except ε α → Prop}

/-- The responses given so far are admitted in the state there is. -/
def Admitted (A : σ → (o : Op) → Res o → Prop) (c : Pool Res ε α σ τ) : Prop :=
  ∀ i o r, .op i o r ∈ c.log → A c.state o r

theorem exec (hst : Stable h env I A P) {ps : List (Prog Res ε α)}
    (hps : ∀ p ∈ ps, ∀ s, I s → Under (A s) (P s) R p) {s : σ} (hs : I s)
    (sched : List (Turn τ)) :
    let c := (Pool.start ps s : Pool Res ε α σ τ).exec h env sched
    I c.state ∧ Admitted A c ∧ Lawful h env P s c.log := by
  let J : Pool Res ε α σ τ → Prop := fun c =>
    (I c.state ∧ Admitted A c ∧ Lawful h env P s c.log) ∧ c.state = Pool.replay h env s c.log ∧
    ∀ i q, c.threads[i]? = some q → ∃ p ∈ ps, Follows p (own i c.log) q
  have hJ : J ((Pool.start ps s : Pool Res ε α σ τ).exec h env sched) := by
    refine Pool.exec_invariant J (fun _ _ => True) ?_ ⟨⟨hs, ?_, trivial⟩, rfl, ?_⟩
      (Pool.admits_true sched _)
    · rintro c (i | e) ⟨⟨hI, hA, hL⟩, hreplay, hf⟩ -
      · rcases Pool.turn_thread_cases h env c i with ⟨o, next, hi, ht⟩ | ⟨-, ht⟩
        · obtain ⟨p, hp, hfollows⟩ := hf i _ hi
          have hunder : Under (A c.state) (P c.state) R (.call o next) :=
            (hps p hp c.state hI).follows hfollows fun x hx => hA i x.1 x.2 (mem_own.mp hx)
          have ho : P c.state o := hunder.1
          rw [ht]
          refine ⟨⟨hst.keeps o _ hI ho, fun j o' r hmem => ?_, ?_⟩, ?_, fun j q hq => ?_⟩
          · rcases List.mem_append.mp hmem with hmem | hmem
            · exact hst.lasts o _ o' r hI ho (hA j o' r hmem)
            · cases List.mem_singleton.mp hmem
              exact hst.answers o _ hI ho
          · rw [hreplay] at ho
            exact lawful_append.mpr ⟨hL, ho, trivial⟩
          · simp [Pool.perform, Pool.replay_append, Pool.replay, hreplay]
          · rcases Pool.threads_perform_cases hi hq with ⟨rfl, rfl⟩ | ⟨hj, hq⟩
            · refine ⟨p, hp, ?_⟩
              rw [Pool.own_perform_self]
              exact hfollows.snoc _
            · obtain ⟨p', hp', hfollows'⟩ := hf j q hq
              refine ⟨p', hp', ?_⟩
              rw [Pool.own_perform_of_ne hj]
              exact hfollows'
        · rw [ht]
          exact ⟨⟨hI, hA, hL⟩, hreplay, hf⟩
      · refine ⟨⟨hst.outside e _ hI, fun j o r hmem => ?_, ?_⟩, ?_, fun j q hq => ?_⟩
        · have hmem : .op j o r ∈ c.log := by simpa [Pool.turn] using hmem
          exact hst.outside_lasts e _ o r hI (hA j o r hmem)
        · exact lawful_append.mpr ⟨hL, trivial⟩
        · simp [Pool.turn, Pool.replay_append, Pool.replay, hreplay]
        · simpa [Pool.turn, own] using hf j q hq
    · intro i o r hmem
      simp [Pool.start] at hmem
    · intro i q hq
      exact ⟨q, List.mem_of_getElem? hq, .nil q⟩
  exact hJ.1

end Stable

section Seen

variable {h : Semantics Res σ} {env : τ → σ → σ}

/-- The response is the one the operation has in a state on the way of a log. -/
def Seen (h : Semantics Res σ) (env : τ → σ → σ) (s : σ) (log : List (Event Res τ)) (o : Op)
    (r : Res o) : Prop :=
  ∃ before after, log = before ++ after ∧ r = (h o (Pool.replay h env s before)).1

/-- How a thread ends is told by its contract for the responses the run has seen. -/
theorem under_seen {P : Op → Prop} {R : Except ε α → Prop} (ps : List (Prog Res ε α)) (s : σ)
    (sched : List (Turn τ)) {i : ℕ} {p q : Prog Res ε α} (hp : ps[i]? = some p) :
    let c := (Pool.start ps s : Pool Res ε α σ τ).exec h env sched
    Under (Seen h env s c.log) P R p → c.threads[i]? = some q →
      Under (Seen h env s c.log) P R q := by
  intro c hunder hq
  obtain ⟨p', hp', hf⟩ := exec_thread ps s sched hq
  cases hp'.symm.trans hp
  refine hunder.follows hf fun x hx => ?_
  obtain ⟨before, after, hlog⟩ := List.append_of_mem (mem_own.mp hx)
  have hfaithful : Pool.Faithful h env s c.log := (Pool.exec_log ps s sched).2.1
  exact ⟨before, _, hlog, hfaithful before i x.1 x.2 after hlog⟩

end Seen

/-- Unwinding for interleavings: operations under the contract answer alike in
related states and leave related states. -/
structure Unwinds (h : Semantics Res σ) (env : τ → σ → σ) (S : σ → σ → Prop)
    (A : (o : Op) → Res o → Prop) (P : Op → Prop) : Prop where
  agrees : ∀ o s s', P o → S s s' → (h o s).1 = (h o s').1
  answers : ∀ o s s', P o → S s s' → A o (h o s).1
  related : ∀ o s s', P o → S s s' → S (h o s).2 (h o s').2
  outside : ∀ e s s', S s s' → S (env e s) (env e s')

/-- Two pools with the same threads and logs in related states. -/
structure Alike (S : σ → σ → Prop) (c c' : Pool Res ε α σ τ) : Prop where
  threads : c.threads = c'.threads
  log : c.log = c'.log
  state : S c.state c'.state

namespace Unwinds

variable {h : Semantics Res σ} {env : τ → σ → σ} {S : σ → σ → Prop}
  {A : (o : Op) → Res o → Prop} {P : Op → Prop} {R : Except ε α → Prop}

theorem turn (hu : Unwinds h env S A P) {c c' : Pool Res ε α σ τ} (hc : Alike S c c')
    (hps : ∀ p ∈ c.threads, Under A P R p) (t : Turn τ) :
    Alike S (c.turn h env t) (c'.turn h env t) ∧
      ∀ p ∈ (c.turn h env t).threads, Under A P R p := by
  cases t with
  | outside e => exact ⟨⟨hc.threads, by simp [Pool.turn, hc.log], hu.outside e _ _ hc.state⟩, hps⟩
  | thread i =>
    rcases Pool.turn_thread_cases h env c i with ⟨o, next, hi, ht⟩ | ⟨hstop, ht⟩
    · have hi' : c'.threads[i]? = some (.call o next) := hc.threads ▸ hi
      have ht' : c'.turn h env (.thread i) = c'.perform h i o next := by simp [Pool.turn, hi']
      obtain ⟨ho, hnext⟩ := hps _ (List.mem_of_getElem? hi)
      have hr := hu.agrees o _ _ ho hc.state
      rw [ht, ht']
      refine ⟨⟨?_, ?_, hu.related o _ _ ho hc.state⟩, fun p hp => ?_⟩
      · simp [Pool.perform, hc.threads, hr]
      · simp [Pool.perform, hc.log, hr]
      · rcases List.mem_or_eq_of_mem_set hp with hp | rfl
        · exact hps p hp
        · exact hnext _ (hu.answers o _ _ ho hc.state)
    · have ht' : c'.turn h env (.thread i) = c' := by
        rcases Pool.turn_thread_cases h env c' i with ⟨o, next, hi, -⟩ | ⟨-, ht'⟩
        · exact absurd (hc.threads ▸ hi) (hstop o next)
        · exact ht'
      rw [ht, ht']
      exact ⟨hc, hps⟩

/-- In every interleaving the threads give the same answers from related states. -/
theorem exec (hu : Unwinds h env S A P) {ps : List (Prog Res ε α)}
    (hps : ∀ p ∈ ps, Under A P R p) {s s' : σ} (hs : S s s') (sched : List (Turn τ)) :
    Alike S ((Pool.start ps s : Pool Res ε α σ τ).exec h env sched)
      ((Pool.start ps s').exec h env sched) := by
  have hrun : ∀ c c' : Pool Res ε α σ τ, Alike S c c' → (∀ p ∈ c.threads, Under A P R p) →
      Alike S (c.exec h env sched) (c'.exec h env sched) := by
    induction sched with
    | nil => exact fun c c' hc _ => hc
    | cons t ts ih =>
      intro c c' hc hthreads
      obtain ⟨hc, hthreads⟩ := hu.turn hc hthreads t
      exact ih _ _ hc hthreads
  exact hrun _ _ ⟨rfl, rfl, hs⟩ hps

end Unwinds

end VerdeAuth.ResponseContracts
