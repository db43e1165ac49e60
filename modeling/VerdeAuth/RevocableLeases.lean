import Mathlib.Data.Set.Insert
import VerdeAuth.RunHistories

/-!
# Leases that expire or are revoked

A holder is granted an item until a time. The lease ends then, or when it is
revoked, or when all leases of its holder are. The acts may come from the steps of
any machine.
-/

namespace VerdeAuth.RevocableLeases

open RunHistories

variable {κ τ σ α : Type}

inductive Act (κ τ : Type) where
  | grant (holder : κ) (item : τ) (expires : ℕ)
  | revoke (holder : κ) (item : τ)
  | revokeAll (holder : κ)
  | skip

def Act.Ends (k : κ) (t : τ) : Act κ τ → Prop
  | .revoke k' t' => k' = k ∧ t' = t
  | .revokeAll k' => k' = k
  | _ => False

structure Lease (κ τ : Type) where
  holder : κ
  item : τ
  expires : ℕ

/-- The leases granted and not revoked, expired ones included. -/
abbrev Leases (κ τ : Type) := Set (Lease κ τ)

def Leases.step (L : Leases κ τ) : Act κ τ → Leases κ τ
  | .grant k t e => insert ⟨k, t, e⟩ L
  | a => {l ∈ L | ¬ a.Ends l.holder l.item}

theorem Leases.mem_step {L : Leases κ τ} {a : Act κ τ} {l : Lease κ τ} : l ∈ L.step a ↔
    a = .grant l.holder l.item l.expires ∨ (l ∈ L ∧ ¬ a.Ends l.holder l.item) := by
  cases a with
  | grant k t e =>
    cases l
    simp [step, Act.Ends, Set.mem_insert_iff, eq_comm]
  | revoke k t => simp [step]
  | revokeAll k => simp [step]
  | skip => simp [step]

theorem Leases.step_skip (L : Leases κ τ) : L.step .skip = L := by
  apply Set.ext
  intro l
  simp [step, Act.Ends]

/-- The holder has the item at a time. -/
def Leases.LiveAt (L : Leases κ τ) (now : ℕ) (k : κ) (t : τ) : Prop :=
  ∃ e, now < e ∧ (⟨k, t, e⟩ : Lease κ τ) ∈ L

/-- The leases after the steps of a machine. -/
def leasesAfter (next : σ → α → σ) (act : σ → α → Act κ τ) : σ → Leases κ τ → List α → Leases κ τ
  | _, L, [] => L
  | s, L, x :: xs => leasesAfter next act (next s x) (L.step (act s x)) xs

variable {next : σ → α → σ} {act : σ → α → Act κ τ}

/-- A lease was granted, or there from the start, and nothing since has ended it. -/
theorem mem_leasesAfter {l : Lease κ τ} {xs : List α} {s : σ} {L : Leases κ τ} :
    l ∈ leasesAfter next act s L xs ↔
      Since next (fun s x => ¬ (act s x).Ends l.holder l.item)
        (fun s x => act s x = .grant l.holder l.item l.expires) s xs ∨
      (l ∈ L ∧ Always next (fun s x => ¬ (act s x).Ends l.holder l.item) s xs) := by
  induction xs generalizing s L with
  | nil => simp [leasesAfter, since_nil, always_nil]
  | cons x xs ih =>
    rw [leasesAfter, ih, Leases.mem_step, since_cons, always_cons]
    constructor
    · rintro (hsince | ⟨hgrant | ⟨hmem, hends⟩, halways⟩)
      · exact Or.inl (Or.inr hsince)
      · exact Or.inl (Or.inl ⟨hgrant, halways⟩)
      · exact Or.inr ⟨hmem, hends, halways⟩
    · rintro ((⟨hgrant, halways⟩ | hsince) | ⟨hmem, hends, halways⟩)
      · exact Or.inr ⟨Or.inl hgrant, halways⟩
      · exact Or.inl hsince
      · exact Or.inr ⟨Or.inr ⟨hmem, hends⟩, halways⟩

/-- Steps that neither move the machine nor act on leases can be left out. -/
theorem leasesAfter_filter {keep : α → Bool}
    (hidle : ∀ s x, keep x = false → next s x = s ∧ act s x = .skip) (s : σ) (L : Leases κ τ)
    (xs : List α) : leasesAfter next act s L (xs.filter keep) = leasesAfter next act s L xs := by
  induction xs generalizing s L with
  | nil => rfl
  | cons x xs ih =>
    cases hx : keep x with
    | true => rw [List.filter_cons_of_pos hx, leasesAfter, leasesAfter, ih]
    | false =>
      obtain ⟨hnext, hact⟩ := hidle s x hx
      have hdrop : (x :: xs).filter keep = xs.filter keep := by simp [hx]
      rw [hdrop, ih, leasesAfter, hnext, hact, Leases.step_skip]

end VerdeAuth.RevocableLeases
