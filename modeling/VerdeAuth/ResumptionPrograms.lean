import Mathlib.Logic.Basic
import Mathlib.Data.List.Basic

/-!
# Programs as trees of atomic operations

A program stops with a value or an exception, or it asks for one operation and
continues with the response. Nothing is said here about what an operation does:
that is a semantics, given separately, so the same program can be run to its
end, cut off after some operations, or interleaved with others.
-/

namespace VerdeAuth.ResumptionPrograms

variable {Op : Type} {Res : Op → Type} {ε α β σ : Type}

inductive Prog (Res : Op → Type) (ε α : Type) where
  | ret (a : α)
  | throw (e : ε)
  | call (o : Op) (next : Res o → Prog Res ε α)

/-- What one operation answers and what it does to the state. -/
abbrev Semantics (Res : Op → Type) (σ : Type) := (o : Op) → σ → Res o × σ

namespace Prog

def bind (p : Prog Res ε α) (f : α → Prog Res ε β) : Prog Res ε β :=
  match p with
  | .ret a => f a
  | .throw e => .throw e
  | .call o next => .call o fun r => (next r).bind f

instance : Monad (Prog Res ε) where
  pure := .ret
  bind := bind

@[simp] theorem pure_eq (a : α) : (pure a : Prog Res ε α) = .ret a := rfl

@[simp] theorem ret_bind (a : α) (f : α → Prog Res ε β) : (Prog.ret a >>= f) = f a := rfl

@[simp] theorem throw_bind (e : ε) (f : α → Prog Res ε β) :
    ((Prog.throw e : Prog Res ε α) >>= f) = .throw e := rfl

@[simp] theorem call_bind (o : Op) (next : Res o → Prog Res ε α) (f : α → Prog Res ε β) :
    (Prog.call o next >>= f) = .call o fun r => next r >>= f := rfl

theorem bind_ret (p : Prog Res ε α) : (p >>= .ret) = p := by
  induction p with
  | ret a => rfl
  | throw e => rfl
  | call o next ih => simp only [call_bind, ih]

theorem bind_assoc {γ : Type} (p : Prog Res ε α) (f : α → Prog Res ε β) (g : β → Prog Res ε γ) :
    (p >>= f >>= g) = p >>= fun a => f a >>= g := by
  induction p with
  | ret a => rfl
  | throw e => rfl
  | call o next ih => simp only [call_bind, ih]

instance : LawfulMonad (Prog Res ε) :=
  LawfulMonad.mk' (Prog Res ε) (fun p => bind_ret p) (fun _ _ => rfl) bind_assoc

/-- Perform one operation and return its response. -/
def perform (o : Op) : Prog Res ε (Res o) := .call o .ret

/-- Run to the end, one operation after the other. -/
def run (h : Semantics Res σ) : Prog Res ε α → σ → Except ε α × σ
  | .ret a, s => (.ok a, s)
  | .throw e, s => (.error e, s)
  | .call o next, s => run h (next (h o s).1) (h o s).2

/-- The state left behind when the program is abandoned after `n` operations. -/
def stateAfter (h : Semantics Res σ) : ℕ → Prog Res ε α → σ → σ
  | n + 1, .call o next, s => stateAfter h n (next (h o s).1) (h o s).2
  | _, _, s => s

/-- The operations that a run to the end performs, in order. -/
def performed (h : Semantics Res σ) : Prog Res ε α → σ → List Op
  | .call o next, s => o :: performed h (next (h o s).1) (h o s).2
  | _, _ => []

/-- The program whose operation number `n` fails, with those before it done. -/
def failAt (e : ε) : ℕ → Prog Res ε α → Prog Res ε α
  | n + 1, .call o next => .call o fun r => failAt e n (next r)
  | 0, .call _ _ => .throw e
  | _, p => p

variable {h : Semantics Res σ}

@[simp] theorem performed_ret (a : α) (s : σ) : performed h (.ret a : Prog Res ε α) s = [] := rfl

@[simp] theorem performed_throw (e : ε) (s : σ) :
    performed h (.throw e : Prog Res ε α) s = [] := rfl

@[simp] theorem performed_call (o : Op) (next : Res o → Prog Res ε α) (s : σ) :
    performed h (.call o next) s = o :: performed h (next (h o s).1) (h o s).2 := rfl

@[simp] theorem run_ret (a : α) (s : σ) : run h (.ret a : Prog Res ε α) s = (.ok a, s) := rfl

@[simp] theorem run_throw (e : ε) (s : σ) :
    run h (.throw e : Prog Res ε α) s = (.error e, s) := rfl

@[simp] theorem run_call (o : Op) (next : Res o → Prog Res ε α) (s : σ) :
    run h (.call o next) s = run h (next (h o s).1) (h o s).2 := rfl

@[simp] theorem run_perform (o : Op) (s : σ) :
    run h (perform o : Prog Res ε (Res o)) s = (.ok (h o s).1, (h o s).2) := rfl

theorem run_failAt (e : ε) (n : ℕ) (p : Prog Res ε α) (s : σ) :
    run h (p.failAt e n) s =
      (if n < (performed h p s).length then .error e else (run h p s).1, stateAfter h n p s) := by
  induction p generalizing n s with
  | ret a => cases n <;> rfl
  | throw e' => cases n <;> simp [failAt, stateAfter]
  | call o next ih =>
    cases n with
    | zero => simp [failAt, stateAfter]
    | succ n => simp [failAt, stateAfter, ih]

/-- Continue with the value of a first part, or stop with its exception. -/
def andThen (f : α → Prog Res ε β) (h : Semantics Res σ) : Except ε α × σ → Except ε β × σ
  | (.ok a, s) => run h (f a) s
  | (.error e, s) => (.error e, s)

@[simp] theorem andThen_ok (f : α → Prog Res ε β) (a : α) (s : σ) :
    andThen f h (.ok a, s) = run h (f a) s := rfl

@[simp] theorem andThen_error (f : α → Prog Res ε β) (e : ε) (s : σ) :
    andThen f h (.error e, s) = (.error e, s) := rfl

@[simp] theorem run_bind (p : Prog Res ε α) (f : α → Prog Res ε β) (s : σ) :
    run h (p >>= f) s = andThen f h (run h p s) := by
  induction p generalizing s with
  | ret a => rfl
  | throw e => rfl
  | call o next ih => simp only [call_bind, run_call, ih]

/-- `I` holds of every state the run passes through and `Q` of its end. -/
def Holds (h : Semantics Res σ) (I : σ → Prop) (Q : Except ε α → σ → Prop) :
    Prog Res ε α → σ → Prop
  | .ret a, s => I s ∧ Q (.ok a) s
  | .throw e, s => I s ∧ Q (.error e) s
  | .call o next, s => I s ∧ Holds h I Q (next (h o s).1) (h o s).2

section Holds

variable {I : σ → Prop} {Q Q' : Except ε α → σ → Prop} {s : σ}

@[simp] theorem holds_ret (a : α) : Holds h I Q (.ret a : Prog Res ε α) s ↔ I s ∧ Q (.ok a) s :=
  Iff.rfl

@[simp] theorem holds_throw (e : ε) :
    Holds h I Q (.throw e : Prog Res ε α) s ↔ I s ∧ Q (.error e) s := Iff.rfl

@[simp] theorem holds_call (o : Op) (next : Res o → Prog Res ε α) :
    Holds h I Q (.call o next) s ↔ I s ∧ Holds h I Q (next (h o s).1) (h o s).2 := Iff.rfl

theorem Holds.start {p : Prog Res ε α} (hp : Holds h I Q p s) : I s := by
  cases p with
  | ret a => exact hp.1
  | throw e => exact hp.1
  | call o next => exact hp.1

theorem Holds.final {p : Prog Res ε α} (hp : Holds h I Q p s) :
    Q (run h p s).1 (run h p s).2 := by
  induction p generalizing s with
  | ret a => exact hp.2
  | throw e => exact hp.2
  | call o next ih => exact ih _ hp.2

theorem Holds.run_state {p : Prog Res ε α} (hp : Holds h I Q p s) : I (run h p s).2 := by
  induction p generalizing s with
  | ret a => exact hp.1
  | throw e => exact hp.1
  | call o next ih => exact ih _ hp.2

theorem Holds.stateAfter {p : Prog Res ε α} (hp : Holds h I Q p s) (n : ℕ) :
    I (stateAfter h n p s) := by
  induction p generalizing s n with
  | ret a => cases n <;> exact hp.1
  | throw e => cases n <;> exact hp.1
  | call o next ih =>
    cases n with
    | zero => exact hp.1
    | succ n => exact ih _ hp.2 n

theorem Holds.mono {p : Prog Res ε α} (hp : Holds h I Q p s)
    (hQ : ∀ r s', Q r s' → Q' r s') : Holds h I Q' p s := by
  induction p generalizing s with
  | ret a => exact ⟨hp.1, hQ _ _ hp.2⟩
  | throw e => exact ⟨hp.1, hQ _ _ hp.2⟩
  | call o next ih => exact ⟨hp.1, ih _ hp.2⟩

/-- The rule for sequencing: the first part has to establish what the second
part needs, and the postcondition itself where it throws. -/
theorem holds_bind {Q : Except ε β → σ → Prop} (p : Prog Res ε α) (f : α → Prog Res ε β) :
    Holds h I Q (p >>= f) s ↔
      Holds h I (fun r s' => match r with
        | .ok a => Holds h I Q (f a) s'
        | .error e => Q (.error e) s') p s := by
  induction p generalizing s with
  | ret a => exact ⟨fun hf => ⟨hf.start, hf⟩, fun hf => hf.2⟩
  | throw e => exact Iff.rfl
  | call o next ih => simp only [call_bind, holds_call, ih]

end Holds

/-- Every operation the program may ask for satisfies `P` and every way it may
stop satisfies `R`, whatever the responses are. -/
def Every (P : Op → Prop) (R : Except ε α → Prop) : Prog Res ε α → Prop
  | .ret a => R (.ok a)
  | .throw e => R (.error e)
  | .call o next => P o ∧ ∀ r, Every P R (next r)

section Every

variable {P : Op → Prop} {R R' : Except ε α → Prop}

@[simp] theorem every_ret (a : α) : Every P R (.ret a : Prog Res ε α) ↔ R (.ok a) := Iff.rfl

@[simp] theorem every_throw (e : ε) : Every P R (.throw e : Prog Res ε α) ↔ R (.error e) := Iff.rfl

@[simp] theorem every_call (o : Op) (next : Res o → Prog Res ε α) :
    Every P R (.call o next) ↔ P o ∧ ∀ r, Every P R (next r) := Iff.rfl

theorem every_bind {R : Except ε β → Prop} (p : Prog Res ε α) (f : α → Prog Res ε β) :
    Every P R (p >>= f) ↔
      Every P (fun r => match r with
        | .ok a => Every P R (f a)
        | .error e => R (.error e)) p := by
  induction p with
  | ret a => exact Iff.rfl
  | throw e => exact Iff.rfl
  | call o next ih => simp only [call_bind, every_call, ih]

theorem Every.mono {P' : Op → Prop} {p : Prog Res ε α} (hp : Every P R p)
    (hP : ∀ o, P o → P' o) (hR : ∀ r, R r → R' r) : Every P' R' p := by
  induction p with
  | ret a => exact hR _ hp
  | throw e => exact hR _ hp
  | call o next ih => exact ⟨hP o hp.1, fun r => ih r (hp.2 r)⟩

/-- Sequencing of programs about whose ends nothing is said. -/
theorem Every.seq {p : Prog Res ε α} {f : α → Prog Res ε β} (hp : Every P (fun _ => True) p)
    (hf : ∀ a, Every P (fun _ => True) (f a)) : Every P (fun _ => True) (p >>= f) := by
  refine (every_bind p f).mpr (Every.mono hp (fun _ ho => ho) fun r _ => ?_)
  cases r with
  | ok a => exact hf a
  | error e => trivial

/-- Unwinding: operations that answer alike in related states, and leave related
states, make a program end alike. -/
theorem Every.agree {S : σ → σ → Prop} {p : Prog Res ε α} (hp : Every P R p)
    (hstep : ∀ o s s', P o → S s s' → (h o s).1 = (h o s').1 ∧ S (h o s).2 (h o s').2)
    {s s' : σ} (hs : S s s') :
    (run h p s).1 = (run h p s').1 ∧ S (run h p s).2 (run h p s').2 := by
  induction p generalizing s s' with
  | ret a => exact ⟨rfl, hs⟩
  | throw e => exact ⟨rfl, hs⟩
  | call o next ih =>
    obtain ⟨hr, hs'⟩ := hstep o s s' hp.1 hs
    rw [run_call, run_call, ← hr]
    exact ih _ (hp.2 _) hs'

/-- A state property no performed operation can break holds throughout a run. -/
theorem Every.holds {I : σ → Prop} {p : Prog Res ε α} (hp : Every P R p)
    (hstep : ∀ o s, P o → I s → I (h o s).2) {s : σ} (hs : I s) :
    Holds h I (fun r _ => R r) p s := by
  induction p generalizing s with
  | ret a => exact ⟨hs, hp⟩
  | throw e => exact ⟨hs, hp⟩
  | call o next ih => exact ⟨hs, ih _ (hp.2 _) (hstep o s hp.1 hs)⟩

/-- Sequencing behind a first part that keeps `J`, for a property of the end only. -/
theorem Every.holds_bind {J : σ → Prop} {Q : Except ε β → σ → Prop} {p : Prog Res ε α}
    {f : α → Prog Res ε β} {s : σ} (hp : Every P R p)
    (hstep : ∀ o s, P o → J s → J (h o s).2) (hs : J s)
    (hthrow : ∀ e s', R (.error e) → J s' → Q (.error e) s')
    (hf : ∀ a s', R (.ok a) → J s' → Holds h (fun _ => True) Q (f a) s') :
    Holds h (fun _ => True) Q (p >>= f) s := by
  induction p generalizing s with
  | ret a => exact hf a s hp hs
  | throw e => exact ⟨trivial, hthrow e s hp hs⟩
  | call o next ih => exact ⟨trivial, ih _ (hp.2 _) (hstep o s hp.1 hs)⟩

end Every

/-- What holds of each operation a run performs, in the state it is performed in. -/
def Along (h : Semantics Res σ) (P : Op → σ → Prop) : Prog Res ε α → σ → Prop
  | .call o next, s => P o s ∧ Along h P (next (h o s).1) (h o s).2
  | _, _ => True

section Along

variable {P : Op → σ → Prop} {Q : Op → Prop} {R : Except ε α → Prop}

theorem Along.mono {P' : Op → σ → Prop} {p : Prog Res ε α} {s : σ} (hp : Along h P p s)
    (hP : ∀ o s, P o s → P' o s) : Along h P' p s := by
  induction p generalizing s with
  | ret a => trivial
  | throw e => trivial
  | call o next ih => exact ⟨hP o s hp.1, ih _ hp.2⟩

/-- Sequencing behind a first part that keeps `J`. -/
theorem Every.along_bind {J : σ → Prop} {p : Prog Res ε α} {f : α → Prog Res ε β} {s : σ}
    (hp : Every Q R p) (hstep : ∀ o s, Q o → J s → P o s ∧ J (h o s).2) (hs : J s)
    (hf : ∀ a s', R (.ok a) → J s' → Along h P (f a) s') : Along h P (p >>= f) s := by
  induction p generalizing s with
  | ret a => exact hf a s hp hs
  | throw e => trivial
  | call o next ih =>
    obtain ⟨ho, hJ⟩ := hstep o s hp.1 hs
    exact ⟨ho, ih _ (hp.2 _) hJ⟩

/-- What an operation takes away for good when `C` holds of it, and leaves otherwise. -/
theorem Along.kept_iff {I : σ → Prop} {C : Op → Prop} {p : Prog Res ε α} {s : σ}
    (hp : Along h (fun o s => I (h o s).2 ↔ I s ∧ ¬ C o) p s) (n : ℕ) :
    I (stateAfter h n p s) ↔ I s ∧ ∀ o ∈ (performed h p s).take n, ¬ C o := by
  induction p generalizing s n with
  | ret a => cases n <;> simp [stateAfter]
  | throw e => cases n <;> simp [stateAfter]
  | call o next ih =>
    cases n with
    | zero => simp [stateAfter]
    | succ n =>
      have hfirst : I (h o s).2 ↔ I s ∧ ¬ C o := hp.1
      rw [stateAfter, ih _ hp.2 n, hfirst]
      simp [and_assoc]

end Along

end Prog

end VerdeAuth.ResumptionPrograms
