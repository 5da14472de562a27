/-
# What a table keeps of its rows

A table *keeps* `f` if no row is removed and `f` of a row never changes
(`Table.Keeps`).  Inserts keep everything, an update keeps what it leaves alone; so what
was once found under a key is still found there, as far as `f` tells.
-/

import LedgerEngine.Store.Indexed

namespace LedgerEngine

open Keyed Indexed

variable {ρ κ ι α : Type}

namespace Table

variable [Keyed ρ κ] [DecidableEq κ] {f : ρ → α} {t t' t'' : Table ρ}

/-- Every row of the first table is in the second, with the same `f`. -/
def Keeps (f : ρ → α) (t t' : Table ρ) : Prop :=
  ∀ k r, t.find? k = some r → ∃ r', t'.find? k = some r' ∧ f r' = f r

theorem Keeps.refl (f : ρ → α) (t : Table ρ) : Keeps f t t := fun _ r h => ⟨r, h, rfl⟩

theorem Keeps.trans (h : Keeps f t t') (h' : Keeps f t' t'') : Keeps f t t'' := by
  intro k r hr
  obtain ⟨r', hr', hf⟩ := h k r hr
  obtain ⟨r'', hr'', hf'⟩ := h' k r' hr'
  exact ⟨r'', hr'', hf'.trans hf⟩

/-- A key that is taken stays taken. -/
theorem Keeps.isSome (h : Keeps f t t') {k : κ} (hk : (t.find? k).isSome) :
    (t'.find? k).isSome := by
  obtain ⟨r, hr⟩ := Option.isSome_iff_exists.1 hk
  obtain ⟨r', hr', -⟩ := h k r hr
  rw [hr']
  rfl

/-- Where all of a row is kept, it is found again. -/
theorem Keeps.find? (h : Keeps id t t') {k : κ} {r : ρ} (hr : t.find? k = some r) :
    t'.find? k = some r := by
  obtain ⟨r', hr', rfl⟩ := h k r hr
  exact hr'

theorem keeps_insert (f : ρ → α) (t : Table ρ) (r : ρ) : Keeps f t (t.insert r) := by
  intro k r' hr'
  refine ⟨r', ?_, rfl⟩
  rw [find?_insert, hr']
  split_ifs <;> rfl

/-- What is found after an insert was there before, or is the row inserted. -/
theorem find?_of_isSome_insert {r : ρ} (hr : t.find? (key r) = none) {k : κ}
    (h : ((t.insert r).find? k).isSome) :
    (t.find? k).isSome ∨ k = key r ∧ (t.insert r).find? k = some r := by
  rw [find?_insert] at h ⊢
  split_ifs at h ⊢ with hk
  · rw [← hk, hr]
    exact Or.inr ⟨rfl, rfl⟩
  · exact Or.inl h

theorem keeps_insertAll (f : ρ → α) (t : Table ρ) (rs : List ρ) : Keeps f t (t.insertAll rs) := by
  induction rs generalizing t with
  | nil => exact .refl f t
  | cons r rs ih => exact (keeps_insert f t r).trans (ih (t.insert r))

/-- The rows once one of them has been changed in its place. -/
theorem rows_put {c : ρ → ρ} (hc : ∀ r, key (c r) = key r) {k : κ} {r : ρ}
    (hr : t.find? k = some r) :
    (t.put (c r)).rows = t.rows.map fun x => if key x = k then c x else x := by
  obtain ⟨hmem, rfl⟩ := find?_eq_some hr
  refine List.map_congr_left fun x hx => ?_
  rw [hc]
  split_ifs with hk
  · rw [eq_of_key_eq hx hmem hk]
  · rfl

/-- A table whose rows are those of the first, each changed so that `f` stays. -/
theorem keeps_of_map {g : ρ → ρ} (hg : ∀ r, f (g r) = f r)
    (h : ∀ k, t'.find? k = (t.find? k).map g) : Keeps f t t' := by
  intro k r hr
  exact ⟨g r, by rw [h, hr, Option.map_some], hg r⟩

end Table

namespace IndexedTable

variable [Keyed ρ κ] [Indexed ρ ι] [DecidableEq κ] [DecidableEq ι] {f : ρ → α}
  {t t' : IndexedTable ρ}

omit [DecidableEq ι] in
theorem keeps_update (t : IndexedTable ρ) (k : κ) {c : Change ρ} (h : ∀ r, f (c.apply r) = f r) :
    Table.Keeps f t.toTable (t.update k c).toTable := by
  refine Table.keeps_of_map (g := changed k c) (fun r => ?_) fun k' => find?_update t k k' c
  unfold changed
  split_ifs
  · exact h r
  · rfl

theorem keeps_insert {r : ρ} (h : t.insert? r = some t') :
    Table.Keeps f t.toTable t'.toTable := by
  intro k r' hr'
  have hne : key r ≠ k := by
    rintro rfl
    exact absurd ((insert?_eq_some h).1.symm.trans hr') (by simp)
  exact ⟨r', by rw [find?_insert h, if_neg hne, hr'], rfl⟩

theorem keeps_insertAll {rs : List ρ} (h : t.insertAll? rs = some t') :
    Table.Keeps f t.toTable t'.toTable := by
  induction rs generalizing t with
  | nil =>
      obtain rfl := Option.some.inj h
      exact .refl f _
  | cons r rs ih =>
      obtain ⟨t₁, h₁, h₂⟩ := Option.bind_eq_some_iff.1 h
      exact (keeps_insert h₁).trans (ih h₂)

end IndexedTable
end LedgerEngine
