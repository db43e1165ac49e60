import Mathlib.Data.List.Basic
import Mathlib.Data.List.Nodup

/-!
# Tables with a primary key

A table is a list of rows no two of which share their key. The operations are
the ones a relational store offers on whole rows: look a row up, change the rows
with a key, put a row in place of the one with its key, remove rows.
-/

namespace VerdeAuth.KeyedTables

structure Table {ρ κ : Type} (key : ρ → κ) where
  rows : List ρ
  nodup : (rows.map key).Nodup

namespace Table

variable {ρ κ : Type} {key : ρ → κ}

instance [DecidableEq ρ] : DecidableEq (Table key) := fun t t' =>
  decidable_of_iff (t.rows = t'.rows) (by cases t; cases t'; simp)

theorem ext {t t' : Table key} (h : t.rows = t'.rows) : t = t' := by
  cases t
  cases t'
  simpa using h

def empty : Table key := ⟨[], List.nodup_nil⟩

theorem eq_of_key_eq {t : Table key} {r r' : ρ} (h : r ∈ t.rows) (h' : r' ∈ t.rows)
    (hk : key r = key r') : r = r' := List.inj_on_of_nodup_map t.nodup h h' hk

/-- The first row with a property, as a query with a limit of one answers. -/
def findOne (t : Table key) (p : ρ → Bool) : Option ρ := t.rows.find? p

theorem mem_of_findOne {t : Table key} {p : ρ → Bool} {r : ρ} (h : t.findOne p = some r) :
    r ∈ t.rows := List.mem_of_find?_eq_some h

theorem prop_of_findOne {t : Table key} {p : ρ → Bool} {r : ρ} (h : t.findOne p = some r) :
    p r = true := List.find?_some h

theorem findOne_true (t : Table key) : t.findOne (fun _ => true) = t.rows.head? := by
  cases h : t.rows <;> simp [findOne, h]

variable [DecidableEq κ]

/-- The row with a given key. -/
def get? (t : Table key) (k : κ) : Option ρ := t.findOne fun r => key r = k

theorem mem_rows_of_get? {t : Table key} {k : κ} {r : ρ} (h : t.get? k = some r) :
    r ∈ t.rows := List.mem_of_find?_eq_some h

theorem key_of_get? {t : Table key} {k : κ} {r : ρ} (h : t.get? k = some r) : key r = k := by
  simpa using List.find?_some h

theorem get?_of_mem {t : Table key} {r : ρ} (h : r ∈ t.rows) : t.get? (key r) = some r := by
  cases hg : t.get? (key r) with
  | none => simpa using List.find?_eq_none.mp hg r h
  | some r' => rw [eq_of_key_eq (mem_rows_of_get? hg) h (key_of_get? hg)]

theorem get?_of_findOne {t : Table key} {p : ρ → Bool} {r : ρ} (h : t.findOne p = some r) :
    t.get? (key r) = some r := get?_of_mem (mem_of_findOne h)

/-- Rewrite every row by a function that leaves keys alone. -/
def mapRows (t : Table key) (f : ρ → ρ) (hf : ∀ r, key (f r) = key r) : Table key :=
  ⟨t.rows.map f, by simpa [List.map_map, Function.comp_def, hf] using t.nodup⟩

theorem find?_map_of_key (l : List ρ) (f : ρ → ρ) (hf : ∀ r, key (f r) = key r) (k : κ) :
    (l.map f).find? (fun r => decide (key r = k)) =
      (l.find? fun r => decide (key r = k)).map f := by
  rw [List.find?_map]
  simp only [Function.comp_def, hf]

@[simp] theorem get?_mapRows (t : Table key) (f : ρ → ρ) (hf : ∀ r, key (f r) = key r) (k : κ) :
    (t.mapRows f hf).get? k = (t.get? k).map f := find?_map_of_key t.rows f hf k

private theorem key_ite (f : ρ → ρ) (hf : ∀ r, key (f r) = key r) (k : κ) (r : ρ) :
    key (if key r = k then f r else r) = key r := by
  split
  · exact hf r
  · rfl

/-- Change the row with a given key. -/
def modify (t : Table key) (k : κ) (f : ρ → ρ) (hf : ∀ r, key (f r) = key r) : Table key :=
  t.mapRows (fun r => if key r = k then f r else r) (key_ite f hf k)

theorem get?_modify_self (t : Table key) (k : κ) (f : ρ → ρ) (hf : ∀ r, key (f r) = key r) :
    (t.modify k f hf).get? k = (t.get? k).map f := by
  rw [modify, get?_mapRows]
  cases h : t.get? k with
  | none => rfl
  | some r => simp [key_of_get? h]

theorem get?_modify_of_ne (t : Table key) {k k' : κ} (hne : k' ≠ k) (f : ρ → ρ)
    (hf : ∀ r, key (f r) = key r) : (t.modify k f hf).get? k' = t.get? k' := by
  rw [modify, get?_mapRows]
  cases h : t.get? k' with
  | none => rfl
  | some r => simp [key_of_get? h, hne]

theorem keys_modify (t : Table key) (k : κ) (f : ρ → ρ) (hf : ∀ r, key (f r) = key r) :
    (t.modify k f hf).rows.map key = t.rows.map key := by
  simp only [modify, mapRows, List.map_map]
  exact List.map_congr_left fun r _ => key_ite f hf k r

theorem mem_modify {t : Table key} {k : κ} {f : ρ → ρ} {hf : ∀ r, key (f r) = key r} {r : ρ}
    (h : r ∈ (t.modify k f hf).rows) :
    (r ∈ t.rows ∧ key r ≠ k) ∨ ∃ r₀ ∈ t.rows, key r₀ = k ∧ r = f r₀ := by
  obtain ⟨r₀, hr₀, rfl⟩ := List.mem_map.mp h
  by_cases hk : key r₀ = k
  · exact .inr ⟨r₀, hr₀, hk, by simp [hk]⟩
  · exact .inl (by simp [hk, hr₀])

private theorem find?_append_new (l : List ρ) (r : ρ) (hr : key r ∉ l.map key) :
    (l ++ [r]).find? (fun r' => decide (key r' = key r)) = some r := by
  have hl : l.find? (fun r' => decide (key r' = key r)) = none := by
    simp only [List.find?_eq_none, decide_eq_true_eq]
    exact fun r' hr' he => hr (he ▸ List.mem_map_of_mem hr')
  simp [List.find?_append, hl]

/-- Store a row: in place of the row with its key, else as a new one. -/
def put (t : Table key) (r : ρ) : Table key :=
  if hr : key r ∈ t.rows.map key then
    t.mapRows (fun r' => if key r' = key r then r else r')
      (fun r' => by split <;> simp_all)
  else ⟨t.rows ++ [r], by
    rw [List.map_append, List.nodup_append]
    exact ⟨t.nodup, by simp, by
      simp only [List.map_cons, List.map_nil, List.mem_singleton]
      rintro a ha b rfl rfl
      exact hr ha⟩⟩

@[simp] theorem get?_put_self (t : Table key) (r : ρ) : (t.put r).get? (key r) = some r := by
  unfold put
  split
  · next hr =>
    obtain ⟨r', hr', hk⟩ := List.mem_map.mp hr
    rw [get?_mapRows, ← hk, get?_of_mem hr', Option.map_some]
    simp
  · next hr => exact find?_append_new t.rows r hr

theorem get?_put_of_ne (t : Table key) {k : κ} (r : ρ) (hne : k ≠ key r) :
    (t.put r).get? k = t.get? k := by
  unfold put
  split
  · rw [get?_mapRows]
    cases h : t.get? k with
    | none => rfl
    | some r' => simp [key_of_get? h, hne]
  · simp [get?, findOne, List.find?_append, hne.symm]

theorem mem_put {t : Table key} {r r' : ρ} (h : r' ∈ (t.put r).rows) :
    r' = r ∨ (r' ∈ t.rows ∧ key r' ≠ key r) := by
  by_cases hk : key r' = key r
  · left
    have h' := get?_of_mem h
    rw [hk, get?_put_self] at h'
    exact (Option.some.inj h').symm
  · right
    have h' := get?_of_mem h
    rw [get?_put_of_ne t r hk] at h'
    exact ⟨mem_rows_of_get? h', hk⟩

theorem keys_put (t : Table key) (r : ρ) : (t.put r).rows.map key =
    if key r ∈ t.rows.map key then t.rows.map key else t.rows.map key ++ [key r] := by
  unfold put
  split
  · have hkey : ∀ r', key (if key r' = key r then r else r') = key r' := by
      intro r'
      split
      · next h => exact h.symm
      · rfl
    simp [mapRows, hkey]
  · simp

theorem length_put_le (t : Table key) (r : ρ) : (t.put r).rows.length ≤ t.rows.length + 1 := by
  have hkeys := congrArg List.length (keys_put t r)
  split at hkeys <;> simp at hkeys <;> omega

theorem length_put_of_mem {t : Table key} {r r' : ρ} (h : r' ∈ t.rows) (hk : key r' = key r) :
    (t.put r).rows.length = t.rows.length := by
  have hmem : key r ∈ t.rows.map key := hk ▸ List.mem_map_of_mem h
  simpa [hmem] using congrArg List.length (keys_put t r)

theorem put_rows {t : Table key} {r r' : ρ} (h : t.get? (key r) = some r') :
    (t.put r).rows = t.rows.map fun r' => if key r' = key r then r else r' := by
  have hmem : key r ∈ t.rows.map key :=
    key_of_get? h ▸ List.mem_map_of_mem (mem_rows_of_get? h)
  rw [put, dif_pos hmem]
  rfl

/-- What a stored row has in common with the one it replaces. -/
theorem map_put {γ : Type} {t : Table key} {r r' : ρ} {f : ρ → γ} (h : r' ∈ t.rows)
    (hk : key r = key r') (hf : f r = f r') : (t.put r).rows.map f = t.rows.map f := by
  have hget : t.get? (key r) = some r' := by rw [hk, get?_of_mem h]
  rw [put_rows hget, List.map_map]
  refine List.map_congr_left fun x hx => ?_
  by_cases hx' : key x = key r
  · rw [Function.comp_apply, if_pos hx', hf, eq_of_key_eq hx h (hx'.trans hk)]
  · rw [Function.comp_apply, if_neg hx']

/-- A query that cannot tell a stored row from the one it replaces. -/
theorem findOne_put {t : Table key} {p : ρ → Bool} {r r' : ρ} (h : t.findOne p = some r)
    (hk : key r' = key r) (hp : p r' = p r) : (t.put r').findOne p = some r' := by
  have hget : t.get? (key r') = some r := by rw [hk, get?_of_findOne h]
  have hsame : ∀ x ∈ t.rows, p (if key x = key r' then r' else x) = p x := by
    intro x hx
    split
    · next he => rw [hp, eq_of_key_eq hx (mem_of_findOne h) (he.trans hk)]
    · rfl
  have hfind : t.rows.find? (fun x => p (if key x = key r' then r' else x)) = some r := by
    rw [← List.head?_filter, List.filter_congr hsame, List.head?_filter]
    exact h
  rw [findOne, put_rows hget, List.find?_map, Function.comp_def, hfind, Option.map_some,
    if_pos hk.symm]

theorem modify_eq_put {t : Table key} {k : κ} {r : ρ} {f : ρ → ρ} (hf : ∀ r, key (f r) = key r)
    (h : t.get? k = some r) : t.modify k f hf = t.put (f r) := by
  have hk := key_of_get? h
  have hget : t.get? (key (f r)) = some r := by rw [hf, hk, h]
  refine ext ?_
  rw [put_rows hget]
  refine List.map_congr_left fun r' hr' => ?_
  by_cases he : key r' = k
  · have hr : r' = r := eq_of_key_eq hr' (mem_rows_of_get? h) (he.trans hk.symm)
    rw [if_pos he, if_pos (by rw [hf, hk, he]), hr]
  · rw [if_neg he, if_neg (by rwa [hf, hk])]

theorem modify_of_none {t : Table key} {k : κ} {f : ρ → ρ} (hf : ∀ r, key (f r) = key r)
    (h : t.get? k = none) : t.modify k f hf = t := by
  refine ext ((List.map_congr_left fun r hr => ?_).trans (List.map_id _))
  refine if_neg fun he => ?_
  rw [← he, get?_of_mem hr] at h
  cases h

theorem put_new {t : Table key} {r : ρ} (h : t.get? (key r) = none) :
    (t.put r).rows = t.rows ++ [r] ∧ ∀ r' ∈ t.rows, key r' ≠ key r := by
  have hne : ∀ r' ∈ t.rows, key r' ≠ key r := by
    intro r' hr' hk
    rw [← hk, get?_of_mem hr'] at h
    cases h
  have hmem : key r ∉ t.rows.map key := by
    intro hmem
    obtain ⟨r', hr', hk⟩ := List.mem_map.mp hmem
    exact hne r' hr' hk
  exact ⟨by rw [put, dif_neg hmem], hne⟩

theorem put_put (t : Table key) {r r' : ρ} (hk : key r' = key r) :
    (t.put r).put r' = t.put r' := by
  apply ext
  have hget : (t.put r).get? (key r') = some r := by rw [hk, get?_put_self]
  rw [put_rows hget]
  cases h : t.get? (key r) with
  | some r₀ =>
    rw [put_rows h, put_rows (hk ▸ h), List.map_map]
    refine List.map_congr_left fun r'' _ => ?_
    by_cases he : key r'' = key r
    · simp [he, hk]
    · simp [he, hk]
  | none =>
    obtain ⟨hrows, hne⟩ := put_new h
    have hkept : t.rows.map (fun x => if key x = key r' then r' else x) = t.rows := by
      refine (List.map_congr_left fun x hx => ?_).trans (List.map_id _)
      exact if_neg (hk ▸ hne x hx)
    rw [hrows, (put_new (hk ▸ h)).1, List.map_append, hkept, List.map_singleton, if_pos hk.symm]

/-- Storing a row that is there changes nothing. -/
theorem put_self {t : Table key} {r : ρ} (h : t.get? (key r) = some r) : t.put r = t := by
  refine ext ((put_rows h).trans ?_)
  refine (List.map_congr_left fun r' hr' => ?_).trans (List.map_id _)
  split
  · next he => exact eq_of_key_eq (mem_rows_of_get? h) hr' he.symm
  · rfl

/-- A query that answers with neither of the two rows. -/
theorem findOne_put_of_false {t : Table key} {p : ρ → Bool} {r r' : ρ}
    (h : t.get? (key r') = some r) (hr : p r = false) (hr' : p r' = false) :
    (t.put r').findOne p = t.findOne p := by
  have hfind : ∀ l : List ρ, (∀ x ∈ l, x ∈ t.rows) →
      (l.map fun x => if key x = key r' then r' else x).find? p = l.find? p := by
    intro l hl
    induction l with
    | nil => rfl
    | cons x l ih =>
      have htail := ih fun y hy => hl y (List.mem_cons_of_mem _ hy)
      by_cases hx : key x = key r'
      · have hxr : x = r := eq_of_key_eq (hl x List.mem_cons_self) (mem_rows_of_get? h)
          (hx.trans (key_of_get? h).symm)
        subst hxr
        simp [hx, hr, hr', htail]
      · simp [hx, List.find?_cons, htail]
  rw [findOne, put_rows h]
  exact hfind t.rows fun _ hx => hx

/-- Rows with different keys can be stored in any order, where the second is in
place of another. -/
theorem put_comm {t : Table key} {r r' r₀ : ρ} (hne : key r ≠ key r')
    (h : t.get? (key r') = some r₀) : (t.put r).put r' = (t.put r').put r := by
  apply ext
  have hkeep : (t.put r).get? (key r') = some r₀ := by rw [get?_put_of_ne t r hne.symm, h]
  rw [put_rows hkeep]
  cases hr : t.get? (key r) with
  | some r₁ =>
    have hkeep' : (t.put r').get? (key r) = some r₁ := by rw [get?_put_of_ne t r' hne, hr]
    rw [put_rows hkeep', put_rows hr, put_rows h, List.map_map, List.map_map]
    refine List.map_congr_left fun x _ => ?_
    by_cases hx : key x = key r
    · simp [hx, hne]
    · by_cases hx' : key x = key r'
      · simp [hx', hne.symm]
      · simp [hx, hx']
  | none =>
    have hkeep' : (t.put r').get? (key r) = none := by rw [get?_put_of_ne t r' hne, hr]
    rw [(put_new hkeep').1, (put_new hr).1, put_rows h, List.map_append, List.map_singleton,
      if_neg hne]

theorem modify_put {t : Table key} {r : ρ} {k : κ} (hk : k ≠ key r) (f : ρ → ρ)
    (hf : ∀ r, key (f r) = key r) {r₀ : ρ} (h : t.get? (key r) = some r₀) :
    (t.put r).modify k f hf = (t.modify k f hf).put r := by
  have hother : (t.put r).get? k = t.get? k := get?_put_of_ne t r hk
  cases hg : t.get? k with
  | none => rw [modify_of_none hf hg, modify_of_none hf (hother.trans hg)]
  | some x =>
    have hx : key (f x) ≠ key r := by rwa [hf, key_of_get? hg]
    rw [modify_eq_put hf hg, modify_eq_put hf (hother.trans hg), put_comm hx h]

/-- Remove the rows with a property. -/
def remove (t : Table key) (p : ρ → Bool) : Table key :=
  ⟨t.rows.filter fun r => !p r, t.nodup.sublist (List.filter_sublist.map key)⟩

theorem get?_remove {t : Table key} {p : ρ → Bool} {k : κ} (h : ∀ r, key r = k → p r = false) :
    (t.remove p).get? k = t.get? k := by
  change (t.rows.filter fun r => !p r).find? _ = t.rows.find? _
  rw [List.find?_filter]
  congr 1
  funext r
  by_cases hk : key r = k
  · simp [hk, h r hk]
  · simp [hk]

end Table

/-- A number no row uses as its key. -/
def freshId {ρ : Type} {key : ρ → ℕ} (t : Table key) : ℕ :=
  (t.rows.map key).foldr max 0 + 1

theorem le_foldr_max {l : List ℕ} {n : ℕ} (h : n ∈ l) : n ≤ l.foldr max 0 := by
  induction l with
  | nil => simp at h
  | cons a l ih =>
    rcases List.mem_cons.mp h with rfl | h
    · exact Nat.le_max_left _ _
    · exact Nat.le_trans (ih h) (Nat.le_max_right _ _)

theorem freshId_notMem {ρ : Type} {key : ρ → ℕ} (t : Table key) :
    freshId t ∉ t.rows.map key := fun h => by
  have hle := le_foldr_max h
  simp only [freshId] at hle
  omega

/-- A row whose key no other one uses is stored behind the others. -/
theorem put_fresh {ρ : Type} {key : ρ → ℕ} {t : Table key} {r : ρ} (h : key r = freshId t) :
    (t.put r).rows = t.rows ++ [r] := by
  have hnone : t.get? (key r) = none := by
    cases hr : t.get? (key r) with
    | none => rfl
    | some r' =>
      have hmem : key r ∈ t.rows.map key :=
        Table.key_of_get? hr ▸ List.mem_map_of_mem (Table.mem_rows_of_get? hr)
      rw [h] at hmem
      exact absurd hmem (freshId_notMem t)
  exact (Table.put_new hnone).1

end VerdeAuth.KeyedTables
