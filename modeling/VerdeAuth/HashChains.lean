import Mathlib.Data.List.Induction
import Mathlib.Data.List.Nodup

/-!
# Chains of records

Every record carries a number, the link of the record before it and its own
link, which its contents determine together with the link before. A digest that
never repeats and never gives the first link makes all links of a chain differ.
-/

namespace VerdeAuth.HashChains

structure Scheme (ρ δ : Type) where
  previous : ρ → δ
  link : ρ → δ
  number : ρ → ℕ
  digest : δ → ρ → δ

namespace Scheme

variable {ρ δ : Type} (S : Scheme ρ δ)

/-- Records numbered from `n + 1` that continue a chain ending in the link `p`. -/
def Linked : δ → ℕ → List ρ → Prop
  | _, _, [] => True
  | p, n, r :: rs =>
      S.previous r = p ∧ S.number r = n + 1 ∧ S.link r = S.digest p r ∧ Linked (S.link r) (n + 1) rs

/-- Link and number of the last record, or those a chain starts from. -/
def chainEnd (p : δ) (n : ℕ) : List ρ → δ × ℕ
  | [] => (p, n)
  | r :: rs => chainEnd (S.link r) (S.number r) rs

variable {S} {p : δ} {n : ℕ} {rs rs' : List ρ}

@[simp] theorem chainEnd_append_singleton (r : ρ) :
    S.chainEnd p n (rs ++ [r]) = (S.link r, S.number r) := by
  induction rs generalizing p n with
  | nil => rfl
  | cons r' rs ih => exact ih

theorem chainEnd_append :
    S.chainEnd p n (rs ++ rs') = S.chainEnd (S.chainEnd p n rs).1 (S.chainEnd p n rs).2 rs' := by
  induction rs generalizing p n with
  | nil => rfl
  | cons r rs ih => exact ih

theorem linked_append : S.Linked p n (rs ++ rs') ↔
    S.Linked p n rs ∧ S.Linked (S.chainEnd p n rs).1 (S.chainEnd p n rs).2 rs' := by
  induction rs generalizing p n with
  | nil => simp [Linked, chainEnd]
  | cons r rs ih =>
    simp only [List.cons_append, Linked, ih, chainEnd]
    constructor
    · intro h
      obtain ⟨hp, hn, hh, hrs, hrs'⟩ := h
      exact ⟨⟨hp, hn, hh, hrs⟩, hn ▸ hrs'⟩
    · intro h
      obtain ⟨⟨hp, hn, hh, hrs⟩, hrs'⟩ := h
      exact ⟨hp, hn, hh, hrs, hn ▸ hrs'⟩

theorem chainEnd_number (h : S.Linked p n rs) : (S.chainEnd p n rs).2 = n + rs.length := by
  induction rs generalizing p n with
  | nil => rfl
  | cons r rs ih =>
    obtain ⟨-, hn, -, hrs⟩ := h
    have htail := ih hrs
    rw [chainEnd, hn, htail, List.length_cons]
    omega

theorem number_le (h : S.Linked p n rs) {r : ρ} (hr : r ∈ rs) :
    n + 1 ≤ S.number r ∧ S.number r ≤ n + rs.length := by
  induction rs generalizing p n with
  | nil => contradiction
  | cons r' rs ih =>
    obtain ⟨-, hn, -, hrs⟩ := h
    rw [List.length_cons]
    rcases List.mem_cons.mp hr with rfl | hr
    · omega
    · have htail := ih hrs hr
      omega

/-- Records can only be linked to the records before them. -/
theorem previous_mem (h : S.Linked p n rs) {r : ρ} (hr : r ∈ rs) :
    S.previous r = p ∨ ∃ r' ∈ rs, S.previous r = S.link r' := by
  induction rs generalizing p n with
  | nil => contradiction
  | cons r' rs ih =>
    obtain ⟨hp, -, -, hrs⟩ := h
    rcases List.mem_cons.mp hr with rfl | hr
    · exact Or.inl hp
    · rcases ih hrs hr with he | ⟨r'', hr'', he⟩
      · exact Or.inr ⟨r', by simp, he⟩
      · exact Or.inr ⟨r'', by simp [hr''], he⟩

theorem link_eq_digest (h : S.Linked p n rs) {r : ρ} (hr : r ∈ rs) :
    S.link r = S.digest (S.previous r) r := by
  induction rs generalizing p n with
  | nil => contradiction
  | cons r' rs ih =>
    obtain ⟨hp, -, hh, hrs⟩ := h
    rcases List.mem_cons.mp hr with rfl | hr
    · rw [hp]
      exact hh
    · exact ih hrs hr

/-- Among valid links the digest determines the link before, and it is valid and
never the link `g` that chains start from. -/
structure Separating (S : Scheme ρ δ) (g : δ) (valid : δ → Prop) : Prop where
  injective : ∀ p p' r r', valid p → valid p' → S.digest p r = S.digest p' r' → p = p'
  ne_start : ∀ p r, S.digest p r ≠ g
  valid_digest : ∀ p r, valid (S.digest p r)

theorem valid_links {g : δ} {valid : δ → Prop} (hs : S.Separating g valid)
    (h : S.Linked p n rs) : ∀ r ∈ rs, valid (S.link r) := by
  intro r hr
  rw [link_eq_digest h hr]
  exact hs.valid_digest _ _

theorem chainEnd_mem (h : rs ≠ []) : (S.chainEnd p n rs).1 ∈ rs.map S.link := by
  obtain ⟨init, r, rfl⟩ := (List.eq_nil_or_concat' rs).resolve_left h
  rw [chainEnd_append_singleton]
  simp

theorem chainEnd_mem_cons : (S.chainEnd p n rs).1 ∈ p :: rs.map S.link := by
  by_cases h : rs = []
  · rw [h]
    exact List.mem_cons_self
  · exact List.mem_cons_of_mem p (chainEnd_mem h)

/-- A chain never comes back to a link. -/
theorem links_nodup {g : δ} {valid : δ → Prop} (hs : S.Separating g valid)
    (hg : valid g) (h : S.Linked g 0 rs) : (g :: rs.map S.link).Nodup := by
  induction rs using List.reverseRecOn with
  | nil => simp
  | append_singleton rs r ih =>
    obtain ⟨hrs, -, -, hh, -⟩ := linked_append.mp h
    have hnodup := ih hrs
    have hvalid : ∀ q ∈ g :: rs.map S.link, valid q := by
      intro q hq
      rcases List.mem_cons.mp hq with rfl | hq
      · exact hg
      · obtain ⟨r', hr', rfl⟩ := List.mem_map.mp hq
        exact valid_links hs hrs r' hr'
    have hnew : S.link r ∉ g :: rs.map S.link := by
      intro hmem
      rcases List.mem_cons.mp hmem with he | hmem
      · exact hs.ne_start _ _ (hh.symm.trans he)
      · obtain ⟨r', hr', he⟩ := List.mem_map.mp hmem
        obtain ⟨init, tail, rfl⟩ := List.append_of_mem hr'
        obtain ⟨-, -, -, hh', -⟩ := linked_append.mp hrs
        have hsplit : g :: (init ++ r' :: tail).map S.link =
            (g :: init.map S.link) ++ (r' :: tail).map S.link := by simp
        have hends : (S.chainEnd g 0 init).1 = (S.chainEnd g 0 (init ++ r' :: tail)).1 := by
          refine hs.injective _ _ _ _ (hvalid _ ?_) (hvalid _ chainEnd_mem_cons)
            (hh'.symm.trans (he.trans hh))
          rw [hsplit]
          exact List.mem_append_left _ chainEnd_mem_cons
        rw [hsplit] at hnodup
        rw [chainEnd_append] at hends
        exact (List.nodup_append.mp hnodup).2.2 _ chainEnd_mem_cons _
          (chainEnd_mem (List.cons_ne_nil r' tail)) hends
    rw [List.map_append, ← List.cons_append]
    refine List.nodup_append.mpr ⟨hnodup, by simp, ?_⟩
    intro a ha b hb hab
    rw [List.map_cons, List.map_nil, List.mem_singleton] at hb
    exact hnew (hb ▸ hab ▸ ha)

/-- Every record names the link of the one before it. -/
def Follows (S : Scheme ρ δ) : δ → List ρ → Prop
  | _, [] => True
  | p, r :: rs => S.previous r = p ∧ Follows S (S.link r) rs

/-- The end of a chain whose links differ is none of those before. -/
theorem chainEnd_notMem_dropLast (hn : (p :: rs.map S.link).Nodup) :
    (S.chainEnd p n rs).1 ∉ (p :: rs.map S.link).dropLast := by
  rcases List.eq_nil_or_concat' rs with rfl | ⟨init, r, rfl⟩
  · simp
  · have hsplit : p :: (init ++ [r]).map S.link = (p :: init.map S.link) ++ [S.link r] := by simp
    rw [hsplit] at hn ⊢
    rw [chainEnd_append_singleton, List.dropLast_concat]
    intro hmem
    exact (List.nodup_append.mp hn).2.2 _ hmem _ List.mem_cons_self rfl

theorem follows_append_singleton {r : ρ} :
    S.Follows p (rs ++ [r]) ↔ S.Follows p rs ∧ S.previous r = (S.chainEnd p n rs).1 := by
  induction rs generalizing p n with
  | nil => simp [Follows, chainEnd]
  | cons r' rs ih =>
    have htail := ih (p := S.link r') (n := S.number r')
    simp only [List.cons_append, Follows, chainEnd, htail, and_assoc]

theorem follows_of_linked (h : S.Linked p n rs) : S.Follows p rs := by
  induction rs generalizing p n with
  | nil => trivial
  | cons r rs ih =>
    obtain ⟨hp, -, -, hrs⟩ := h
    exact ⟨hp, ih hrs⟩

theorem previous_mem_of_follows (h : S.Follows p rs) {r : ρ} (hr : r ∈ rs) :
    S.previous r = p ∨ ∃ r' ∈ rs, S.previous r = S.link r' := by
  induction rs generalizing p with
  | nil => contradiction
  | cons r' rs ih =>
    obtain ⟨hp, hrs⟩ := h
    rcases List.mem_cons.mp hr with rfl | hr
    · exact Or.inl hp
    · rcases ih hrs hr with he | ⟨r'', hr'', he⟩
      · exact Or.inr ⟨r', by simp, he⟩
      · exact Or.inr ⟨r'', by simp [hr''], he⟩

/-- Only the first record of a chain names the link it starts from. -/
theorem previous_ne_start {r' : ρ} (hn : (p :: (r :: rs).map S.link).Nodup)
    (h : S.Linked p n (r :: rs)) (hr' : r' ∈ rs) : S.previous r' ≠ p := by
  obtain ⟨-, -, -, hrs⟩ := h
  intro hprev
  apply (List.nodup_cons.mp hn).1
  rw [← hprev]
  rcases previous_mem hrs hr' with he | ⟨r'', hr'', he⟩
  · rw [he]
    exact List.mem_cons_self
  · rw [he]
    exact List.mem_cons_of_mem _ (List.mem_map_of_mem hr'')

/-- Records of a chain follow on only where they are a beginning of it. -/
theorem follows_iff_prefix (hn : (p :: rs.map S.link).Nodup) (h : S.Linked p n rs)
    (hsub : rs' ⊆ rs) : S.Follows p rs' ↔ rs' <+: rs := by
  induction rs generalizing p n rs' with
  | nil =>
    rw [List.subset_nil.mp hsub]
    exact iff_of_true trivial (List.prefix_refl [])
  | cons r rs ih =>
    have hgap : ∀ r' ∈ rs, S.previous r' ≠ p := fun r' hr' => previous_ne_start hn h hr'
    obtain ⟨hp, -, -, hrs⟩ := h
    obtain ⟨hstart, hn'⟩ := List.nodup_cons.mp hn
    cases rs' with
    | nil => exact iff_of_true trivial List.nil_prefix
    | cons r' rs' =>
      rw [Follows, List.cons_prefix_cons]
      constructor
      · intro hfollows
        obtain ⟨hprev, hrest⟩ := hfollows
        have hfirst : r' = r :=
          (List.mem_cons.mp (hsub List.mem_cons_self)).resolve_right fun hr' => hgap r' hr' hprev
        subst hfirst
        refine ⟨rfl, (ih hn' hrs ?_).mp hrest⟩
        intro q hq
        have hnot : S.previous q ≠ p := by
          intro he
          apply hstart
          rw [← he]
          rcases previous_mem_of_follows hrest hq with he | ⟨q', hq', he⟩
          · rw [he]
            exact List.mem_cons_self
          · rw [he]
            exact List.mem_map_of_mem (hsub (List.mem_cons_of_mem r' hq'))
        refine (List.mem_cons.mp (hsub (List.mem_cons_of_mem r' hq))).resolve_left fun he => ?_
        exact hnot (he ▸ hp)
      · intro hpre
        obtain ⟨rfl, hpre⟩ := hpre
        exact ⟨hp, (ih hn' hrs hpre.subset).mpr hpre⟩

/-- A record of a chain has the place its number says. -/
theorem link_at (h : S.Linked p n rs) {r : ρ} (hr : r ∈ rs) :
    ∃ i, S.number r = n + i + 1 ∧ (p :: rs.map S.link)[i]? = some (S.previous r) ∧
      (p :: rs.map S.link)[i + 1]? = some (S.link r) := by
  induction rs generalizing p n with
  | nil => contradiction
  | cons r' rs ih =>
    obtain ⟨hp, hnum, -, hrs⟩ := h
    rcases List.mem_cons.mp hr with rfl | hr
    · exact ⟨0, hnum, by simp [hp], by simp⟩
    · obtain ⟨i, hi, hprev, hlink⟩ := ih hrs hr
      exact ⟨i + 1, by omega, hprev, hlink⟩

/-- Where links do not repeat, a record names the link of the one numbered before it. -/
theorem previous_eq_link_iff (hn : (p :: rs.map S.link).Nodup) (h : S.Linked p n rs) {r r' : ρ}
    (hr : r ∈ rs) (hr' : r' ∈ rs) : S.previous r = S.link r' ↔ S.number r = S.number r' + 1 := by
  obtain ⟨i, hi, hprev, -⟩ := link_at h hr
  obtain ⟨j, hj, -, hlink⟩ := link_at h hr'
  constructor
  · intro he
    have hplace : i = j + 1 := by
      refine (List.getElem?_inj (List.getElem?_eq_some_iff.mp hprev).1 hn).mp ?_
      rw [hprev, hlink, he]
    omega
  · intro he
    have hplace : i = j + 1 := by omega
    rw [hplace, hlink] at hprev
    exact (Option.some.inj hprev).symm

theorem previous_eq_start_iff (hn : (p :: rs.map S.link).Nodup) (h : S.Linked p n rs) {r : ρ}
    (hr : r ∈ rs) : S.previous r = p ↔ S.number r = n + 1 := by
  obtain ⟨i, hi, hprev, -⟩ := link_at h hr
  constructor
  · intro he
    have hplace : i = 0 := by
      refine (List.getElem?_inj (List.getElem?_eq_some_iff.mp hprev).1 hn).mp ?_
      rw [hprev, he]
      rfl
    omega
  · intro he
    have hplace : i = 0 := by omega
    rw [hplace] at hprev
    exact (Option.some.inj hprev).symm

end Scheme

end VerdeAuth.HashChains
