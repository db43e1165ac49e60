import VerdeAuth.ResumptionPrograms

/-!
# Calls inside a program

A program that calls a procedure at one place is cut in two there: what comes
before the call, which gives its argument or ends the program, and what comes
behind. Whether a run gets to the call, with what argument and with what outcome,
is read off the cut.
-/

namespace VerdeAuth.CallSites

open ResumptionPrograms Prog

variable {Op : Type} {Res : Op → Type} {ε α β γ σ : Type}

/-- The place where a program calls a procedure. -/
structure CallSite (p : Prog Res ε β) (call : α → Prog Res ε γ) where
  before : Prog Res ε (Except β α)
  behind : α → γ → Prog Res ε β
  eq : p = before >>= fun
    | .error b => .ret b
    | .ok a => call a >>= behind a

section Bind

variable {h : Semantics Res σ} {P : Op → Bool}

/-- Programs that do not ask for an operation of a kind, whatever is answered. -/
abbrev Without (P : Op → Bool) (p : Prog Res ε α) : Prop :=
  Every (fun o => P o = false) (fun _ => True) p

theorem filter_performed_bind_left {p : Prog Res ε α} (hp : Without P p) (f : α → Prog Res ε β)
    (s : σ) : (performed h (p >>= f) s).filter P =
      match run h p s with
      | (.ok a, s') => (performed h (f a) s').filter P
      | (.error _, _) => [] := by
  induction p generalizing s with
  | ret a => rfl
  | throw e => rfl
  | call o next ih =>
    rw [call_bind, performed_call, List.filter_cons_of_neg (by simp [hp.1]), run_call]
    exact ih _ (hp.2 _) _

theorem filter_performed_bind_right {f : α → Prog Res ε β} (hf : ∀ a, Without P (f a))
    (p : Prog Res ε α) (s : σ) :
    (performed h (p >>= f) s).filter P = (performed h p s).filter P := by
  induction p generalizing s with
  | ret a =>
    have hnone : ∀ {q : Prog Res ε β} (s : σ), Without P q → (performed h q s).filter P = [] := by
      intro q s hq
      have hend := filter_performed_bind_left (h := h) hq .ret s
      rw [bind_ret] at hend
      rw [hend]
      generalize run h q s = result
      obtain ⟨c, s'⟩ := result
      cases c <;> rfl
    exact hnone s (hf a)
  | throw e => rfl
  | call o next ih =>
    rw [call_bind, performed_call, performed_call, List.filter_cons, List.filter_cons, ih]

end Bind

namespace CallSite

/-- A program without the call. -/
def never (p : Prog Res ε β) (call : α → Prog Res ε γ) : CallSite p call where
  before := p >>= fun b => .ret (.error b)
  behind _ _ := p
  eq := by
    rw [bind_assoc]
    exact (bind_ret p).symm

variable {p : Prog Res ε β} {call : α → Prog Res ε γ} (site : CallSite p call)
  (h : Semantics Res σ) (s : σ)

/-- The argument a run calls with, and the state it calls in. -/
def entered : Option (α × σ) :=
  match run h site.before s with
  | (.ok (.ok a), s') => some (a, s')
  | _ => none

def called : Option α := (site.entered h s).map Prod.fst

/-- The argument and the result of the call, where there is one and it does not throw. -/
def returned : Option (α × γ) :=
  (site.entered h s).bind fun (a, s') => (run h (call a) s').1.toOption.map fun c => (a, c)

variable {site h s}

theorem returned_eq_some {a : α} {c : γ} : site.returned h s = some (a, c) ↔
    ∃ s', site.entered h s = some (a, s') ∧ (run h (call a) s').1 = .ok c := by
  constructor
  · intro hc
    obtain ⟨⟨a', s'⟩, hentered, hc⟩ := Option.bind_eq_some_iff.mp hc
    obtain ⟨c', hresult, heq⟩ := Option.map_eq_some_iff.mp hc
    obtain ⟨rfl, rfl⟩ := Prod.mk.inj heq
    refine ⟨s', hentered, ?_⟩
    generalize (run h (call a') s').1 = result at hresult
    cases result with
    | error e => cases hresult
    | ok c => exact congrArg Except.ok (Option.some.inj hresult)
  · rintro ⟨s', hentered, hc⟩
    simp [returned, hentered, hc, Except.toOption]

theorem entered_eq_some {a : α} {s' : σ} :
    site.entered h s = some (a, s') ↔ run h site.before s = (.ok (.ok a), s') := by
  rw [entered]
  generalize run h site.before s = result
  obtain ⟨c, s''⟩ := result
  rcases c with e | b | a' <;> simp

/-- Where nothing but a call can follow what comes before it. -/
theorem entered_of_gate {gate : Prog Res ε α}
    (hbefore : site.before = gate >>= fun a => .ret (.ok a)) {a : α} {s' : σ} :
    site.entered h s = some (a, s') ↔ run h gate s = (.ok a, s') := by
  rw [entered_eq_some, hbefore, run_bind]
  generalize run h gate s = result
  obtain ⟨c, s''⟩ := result
  cases c <;> simp

theorem entered_never : (never p call).entered h s = none := by
  have hrun : run h (never p call).before s = andThen (fun b => .ret (.error b)) h (run h p s) :=
    run_bind ..
  rw [entered, hrun]
  generalize run h p s = result
  obtain ⟨c, s'⟩ := result
  cases c <;> rfl

/-- Operations that are asked for in the call only. -/
theorem filter_performed {P : Op → Bool} (hbefore : Without P site.before)
    (hbehind : ∀ a c, Without P (site.behind a c)) : (performed h p s).filter P =
      (site.entered h s).elim [] fun (a, s') => (performed h (call a) s').filter P := by
  conv_lhs => rw [site.eq]
  rw [filter_performed_bind_left hbefore, entered]
  generalize run h site.before s = result
  obtain ⟨c, s'⟩ := result
  cases c with
  | error e => rfl
  | ok c =>
    cases c with
    | error b => rfl
    | ok a => exact filter_performed_bind_right (hbehind a) (call a) s'

end CallSite

end VerdeAuth.CallSites
