import VerdeAuth.ResponseContracts
import Mathlib.Algebra.BigOperators.Group.Finset.Piecewise
import Mathlib.Algebra.Order.BigOperators.Group.Finset
import Mathlib.Algebra.Order.Group.Multiset

/-!
# Ledgers of the operations of a pool

Some operations leave a record. What one program records is a list that grows with
its operations, and `Leaves` says how it grows and what it is at the end. The record
of an interleaving is made up of those of its threads.
-/

namespace VerdeAuth.OperationLedgers

open ResumptionPrograms InterleavedPools ResponseContracts

variable {Op : Type} {Res : Op → Type} {ε α β σ τ ρ : Type}

/-- The records of some exchanges. -/
def recorded (f : Op → Option ρ) (l : List (Exchange Res)) : List ρ := l.filterMap fun x => f x.1

/-- The records of a log. -/
def ledger (f : Op → Option ρ) : List (Event Res τ) → List ρ
  | [] => []
  | .op _ o _ :: l => (f o).toList ++ ledger f l
  | .outside _ :: l => ledger f l

/-- Behind the records there are, the records satisfy `J` at every point and `R` with
the way the program stops. -/
def Leaves (f : Op → Option ρ) (J : List ρ → Prop) (R : List ρ → Except ε α → Prop) :
    List ρ → Prog Res ε α → Prop
  | l, .ret a => R l (.ok a)
  | l, .throw e => R l (.error e)
  | l, .call o next =>
    J (l ++ (f o).toList) ∧ ∀ r, Leaves f J R (l ++ (f o).toList) (next r)

section Leaves

variable {f : Op → Option ρ} {J : List ρ → Prop} {R : List ρ → Except ε α → Prop} {l : List ρ}

@[simp] theorem recorded_nil : recorded f ([] : List (Exchange Res)) = [] := rfl

@[simp] theorem recorded_cons (o : Op) (r : Res o) (xs : List (Exchange Res)) :
    recorded f (⟨o, r⟩ :: xs) = (f o).toList ++ recorded f xs := by
  cases ho : f o <;> simp [recorded, ho]

theorem leaves_call {o : Op} {next : Res o → Prog Res ε α} {x : ρ} (ho : f o = some x)
    (hJ : J (l ++ [x])) (hnext : ∀ r, Leaves f J R (l ++ [x]) (next r)) :
    Leaves f J R l (.call o next) := by
  simp only [Leaves, ho, Option.toList_some]
  exact ⟨hJ, hnext⟩

/-- A first part that records nothing. -/
theorem leaves_bind {S : Except ε β → Prop} {p : Prog Res ε β} {k : β → Prog Res ε α}
    (hp : Prog.Every (fun o => f o = none) S p) (hJ : J l)
    (herror : ∀ e, S (.error e) → R l (.error e))
    (hk : ∀ b, S (.ok b) → Leaves f J R l (k b)) : Leaves f J R l (p >>= k) := by
  induction p with
  | ret b => exact hk b hp
  | throw e => exact herror e hp
  | call o next ih =>
    have ho : f o = none := hp.1
    simp only [Prog.call_bind, Leaves, ho, Option.toList_none, List.append_nil]
    exact ⟨hJ, fun r => ih r (hp.2 r)⟩

/-- A program that records nothing. -/
theorem leaves_of_every {P : Op → Prop} {S : Except ε α → Prop} {p : Prog Res ε α}
    (hsilent : Prog.Every (fun o => f o = none) S p) (hend : Prog.Every P (R l) p) (hJ : J l) :
    Leaves f J R l p := by
  induction p with
  | ret a => exact hend
  | throw e => exact hend
  | call o next ih =>
    have ho : f o = none := hsilent.1
    simp only [Leaves, ho, Option.toList_none, List.append_nil]
    exact ⟨hJ, fun r => ih r (hsilent.2 r) (hend.2 r)⟩

theorem Leaves.follows {p q : Prog Res ε α} {xs : List (Exchange Res)} (hp : Leaves f J R l p)
    (hf : Follows p xs q) (hJ : J l) :
    J (l ++ recorded f xs) ∧ Leaves f J R (l ++ recorded f xs) q := by
  induction hf generalizing l with
  | nil p => simpa using ⟨hJ, hp⟩
  | cons tail ih =>
    have htail := ih (hp.2 _) hp.1
    simpa only [recorded_cons, List.append_assoc] using htail

end Leaves

/-- How a program has stopped, if it has. -/
def ended : Prog Res ε α → Option (Except ε α)
  | .ret a => some (.ok a)
  | .throw e => some (.error e)
  | .call _ _ => none

theorem Leaves.of_ended {f : Op → Option ρ} {J : List ρ → Prop} {R : List ρ → Except ε α → Prop}
    {l : List ρ} {p : Prog Res ε α} {res : Except ε α} (hp : Leaves f J R l p)
    (he : ended p = some res) : R l res := by
  cases p with
  | call o next => cases he
  | ret a =>
    cases he
    exact hp
  | throw e =>
    cases he
    exact hp

/-- Counting in two lists side by side, place by place. -/
theorem countP_zip (p : α × β → Bool) (as : List α) (bs : List β) (hlen : bs.length = as.length) :
    (as.zip bs).countP p =
      ∑ i ∈ Finset.range as.length, ((as.zip bs)[i]?.toList.countP p) := by
  have hcount : ∀ l : List (α × β),
      l.countP p = ∑ i ∈ Finset.range l.length, (l[i]?.toList.countP p) := by
    intro l
    induction l with
    | nil => rfl
    | cons a l ih =>
      rw [List.length_cons, Finset.sum_range_succ', List.countP_cons, ih]
      simp
  rw [hcount, List.length_zip, hlen, Nat.min_self]

/-- What is additive in the records is the sum of what it is for the threads. -/
theorem additive_ledger {M : Type} [AddCommMonoid M] (φ : Multiset ρ → M) (hzero : φ 0 = 0)
    (hadd : ∀ l l', φ (l + l') = φ l + φ l') {l : List ρ} {n : ℕ} {g : ℕ → List ρ}
    (hl : (l : Multiset ρ) = ∑ i ∈ Finset.range n, (g i : Multiset ρ)) :
    φ l = ∑ i ∈ Finset.range n, φ (g i) := by
  let φ' : Multiset ρ →+ M := ⟨⟨φ, hzero⟩, hadd⟩
  rw [hl]
  exact map_sum φ' _ _

theorem countP_ledger (p : ρ → Bool) {l : List ρ} {n : ℕ} {g : ℕ → List ρ}
    (hl : (l : Multiset ρ) = ∑ i ∈ Finset.range n, (g i : Multiset ρ)) :
    l.countP p = ∑ i ∈ Finset.range n, (g i).countP p := by
  have hcount := additive_ledger (Multiset.countP fun x => p x = true) rfl
    (fun l l' => Multiset.countP_add _ l l') hl
  simpa [Multiset.coe_countP] using hcount

section Pools

variable {f : Op → Option ρ} {h : Semantics Res σ} {env : τ → σ → σ}

theorem recorded_own_cons (i j : ℕ) (o : Op) (r : Res o) (log : List (Event Res τ)) :
    (recorded f (own i (.op j o r :: log)) : Multiset ρ) =
      (if j = i then ((f o).toList : Multiset ρ) else 0) + recorded f (own i log) := by
  by_cases hj : j = i <;> simp [own, hj]

/-- The ledger of a log is made up of those of its threads. -/
theorem ledger_eq_sum {n : ℕ} {log : List (Event Res τ)}
    (hlt : ∀ i o r, .op i o r ∈ log → i < n) :
    (ledger f log : Multiset ρ) = ∑ i ∈ Finset.range n, (recorded f (own i log) : Multiset ρ) := by
  induction log with
  | nil => simp [ledger, own]
  | cons e log ih =>
    have htail := ih fun i o r hmem => hlt i o r (List.mem_cons_of_mem _ hmem)
    cases e with
    | outside e => simpa [ledger, own] using htail
    | op j o r =>
      have hj : j < n := hlt j o r List.mem_cons_self
      simp only [recorded_own_cons, Finset.sum_add_distrib, Finset.sum_ite_eq, Finset.mem_range,
        if_pos hj, ← htail]
      simp [ledger]

/-- The ledger of an interleaving is made up of those of its threads. -/
theorem exec_ledger (ps : List (Prog Res ε α)) (s : σ) (sched : List (Turn τ)) :
    let c := (Pool.start ps s : Pool Res ε α σ τ).exec h env sched
    (ledger f c.log : Multiset ρ) =
      ∑ i ∈ Finset.range ps.length, (recorded f (own i c.log) : Multiset ρ) :=
  ledger_eq_sum fun _ _ _ hmem => Pool.thread_lt_of_mem_log ps s sched hmem

end Pools

end VerdeAuth.OperationLedgers
