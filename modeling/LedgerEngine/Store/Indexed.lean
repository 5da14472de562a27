/-
# Tables with a second unique key

Some tables have, besides the primary key, one more unique constraint (the
*index* of a row).  Both are fields of `IndexedTable`, so no state violates
them; an insert that would is refused (`insert?`).  A row is changed in place by
a `Change`, which keeps its key and its index.
-/

import LedgerEngine.Store.Table

namespace LedgerEngine

/-- Rows of type `ρ` have one more unique key, of type `ι`. -/
class Indexed (ρ : Type) (ι : outParam Type) where
  /-- The unique key of a row. -/
  index : ρ → ι

/-- A table whose rows also have distinct indices. -/
structure IndexedTable (ρ : Type) {κ ι : Type} [Keyed ρ κ] [Indexed ρ ι] extends Table ρ where
  unique : (rows.map Indexed.index).Nodup

/-- A change of a row that keeps its key and its index. -/
structure Change (ρ : Type) {κ ι : Type} [Keyed ρ κ] [Indexed ρ ι] where
  apply : ρ → ρ
  key_apply : ∀ r, Keyed.key (apply r) = Keyed.key r
  index_apply : ∀ r, Indexed.index (apply r) = Indexed.index r

namespace IndexedTable

variable {ρ κ ι : Type} [Keyed ρ κ] [Indexed ρ ι]

open Keyed Indexed

/-- The table without rows. -/
def empty : IndexedTable ρ := ⟨.empty, List.nodup_nil⟩

/-- Rows with the same index are the same row. -/
theorem eq_of_index_eq {t : IndexedTable ρ} {r r' : ρ} (h : r ∈ t.rows) (h' : r' ∈ t.rows)
    (hi : index r = index r') : r = r' :=
  List.inj_on_of_nodup_map t.unique h h' hi

variable [DecidableEq κ] [DecidableEq ι]

/-- The row with index `i`. -/
def lookup (t : IndexedTable ρ) (i : ι) : Option ρ := t.rows.find? fun r => index r = i

/-- The change at the row with key `k`, if there is one. -/
def changed (k : κ) (f : Change ρ) (r : ρ) : ρ := if key r = k then f.apply r else r

omit [DecidableEq ι] in
@[simp] theorem key_changed (k : κ) (f : Change ρ) (r : ρ) : key (changed k f r) = key r := by
  unfold changed
  split_ifs
  · exact f.key_apply r
  · rfl

omit [DecidableEq ι] in
@[simp] theorem index_changed (k : κ) (f : Change ρ) (r : ρ) :
    index (changed k f r) = index r := by
  unfold changed
  split_ifs
  · exact f.index_apply r
  · rfl

omit [DecidableEq ι] in
theorem changed_of_ne {k : κ} {r : ρ} (h : key r ≠ k) (f : Change ρ) : changed k f r = r :=
  if_neg h

omit [DecidableEq ι] in
theorem changed_of_eq {k : κ} {r : ρ} (h : key r = k) (f : Change ρ) :
    changed k f r = f.apply r :=
  if_pos h

/-- Change the row with key `k`; nothing where there is none. -/
def update (t : IndexedTable ρ) (k : κ) (f : Change ρ) : IndexedTable ρ where
  rows := t.rows.map (changed k f)
  nodup := by
    have : (key ∘ changed k f : ρ → κ) = key := funext fun r => key_changed k f r
    rw [List.map_map, this]
    exact t.nodup
  unique := by
    have : (index ∘ changed k f : ρ → ι) = index := funext fun r => index_changed k f r
    rw [List.map_map, this]
    exact t.unique

/-- Add `r` after the other rows, unless its key or its index is taken. -/
def insert? (t : IndexedTable ρ) (r : ρ) : Option (IndexedTable ρ) :=
  if h : key r ∉ t.rows.map key ∧ index r ∉ t.rows.map index then
    some {
      rows := t.rows ++ [r]
      nodup := by
        rw [List.map_append]
        exact List.nodup_append'.2 ⟨t.nodup, List.nodup_singleton _, by simpa using h.1⟩
      unique := by
        rw [List.map_append]
        exact List.nodup_append'.2 ⟨t.unique, List.nodup_singleton _, by simpa using h.2⟩ }
  else none

/-- Several rows added in order, all of them or none. -/
def insertAll? (t : IndexedTable ρ) : List ρ → Option (IndexedTable ρ)
  | [] => some t
  | r :: rs => (t.insert? r).bind fun t' => t'.insertAll? rs

omit [DecidableEq κ] in
theorem lookup_eq_some {t : IndexedTable ρ} {i : ι} {r : ρ} (h : t.lookup i = some r) :
    r ∈ t.rows ∧ index r = i :=
  ⟨List.mem_of_find?_eq_some h, by simpa using List.find?_some h⟩

omit [DecidableEq κ] in
theorem lookup_eq_none {t : IndexedTable ρ} {i : ι} :
    t.lookup i = none ↔ i ∉ t.rows.map index := by
  simp [lookup, List.find?_eq_none]

omit [DecidableEq ι] in
theorem rows_update (t : IndexedTable ρ) (k : κ) (f : Change ρ) :
    (t.update k f).rows = t.rows.map (changed k f) := rfl

/-- **An update seen through the index.** -/
theorem lookup_update (t : IndexedTable ρ) (k : κ) (f : Change ρ) (i : ι) :
    (t.update k f).lookup i = (t.lookup i).map (changed k f) := by
  unfold lookup
  rw [rows_update, List.find?_map]
  have : (fun r => decide (index r = i)) ∘ changed k f = fun r => decide (index r = i) :=
    funext fun r => by simp only [Function.comp_apply, index_changed]
  rw [this]

/-- An update of the row with index `i` gives the changed row there. -/
theorem lookup_update_self {t : IndexedTable ρ} {i : ι} {r : ρ} (h : t.lookup i = some r)
    (f : Change ρ) : (t.update (key r) f).lookup i = some (f.apply r) := by
  rw [lookup_update, h, Option.map_some, changed_of_eq rfl]

/-- An update of the row with index `i` leaves the other indices alone. -/
theorem lookup_update_of_ne {t : IndexedTable ρ} {i i' : ι} {r : ρ} (h : t.lookup i = some r)
    (hi : i' ≠ i) (f : Change ρ) : (t.update (key r) f).lookup i' = t.lookup i' := by
  rw [lookup_update]
  refine (Option.map_congr fun r' hr' => ?_).trans Option.map_id_apply
  refine changed_of_ne (fun hk => hi ?_) f
  obtain ⟨hm, rfl⟩ := lookup_eq_some h
  obtain ⟨hm', rfl⟩ := lookup_eq_some hr'
  rw [Table.eq_of_key_eq hm' hm hk]

omit [DecidableEq ι] in
/-- **An update seen through the primary key.** -/
theorem find?_update (t : IndexedTable ρ) (k k' : κ) (f : Change ρ) :
    (t.update k f).find? k' = (t.find? k').map (changed k f) := by
  unfold Table.find?
  rw [rows_update, List.find?_map]
  have : (fun r => decide (key r = k')) ∘ changed k f = fun r => decide (key r = k') :=
    funext fun r => by simp only [Function.comp_apply, key_changed]
  rw [this]

omit [DecidableEq ι] in
/-- An update gives the changed row. -/
theorem find?_update_self {t : IndexedTable ρ} {k : κ} {r : ρ} (h : t.find? k = some r)
    (f : Change ρ) : (t.update k f).find? k = some (f.apply r) := by
  rw [find?_update, h, Option.map_some, changed_of_eq (Table.find?_eq_some h).2]

omit [DecidableEq ι] in
/-- An update leaves the rows with another key alone. -/
theorem find?_update_of_ne (t : IndexedTable ρ) {k k' : κ} (h : k' ≠ k) (f : Change ρ) :
    (t.update k f).find? k' = t.find? k' := by
  rw [find?_update]
  refine (Option.map_congr fun r hr => ?_).trans Option.map_id_apply
  have hk : key r = k' := (Table.find?_eq_some hr).2
  exact changed_of_ne (hk ▸ h) f

theorem insert?_eq_some {t t' : IndexedTable ρ} {r : ρ} (h : t.insert? r = some t') :
    t.find? (key r) = none ∧ t.lookup (index r) = none ∧ t'.rows = t.rows ++ [r] := by
  unfold insert? at h
  split_ifs at h with hr
  obtain rfl := Option.some.inj h
  exact ⟨Table.find?_eq_none.2 hr.1, lookup_eq_none.2 hr.2, rfl⟩

theorem insert?_isSome {t : IndexedTable ρ} {r : ρ} (hk : t.find? (key r) = none)
    (hi : t.lookup (index r) = none) : ∃ t', t.insert? r = some t' := by
  unfold insert?
  rw [dif_pos ⟨Table.find?_eq_none.1 hk, lookup_eq_none.1 hi⟩]
  exact ⟨_, rfl⟩

/-- An index that is taken refuses the insert. -/
theorem insert?_of_lookup {t : IndexedTable ρ} {r r' : ρ} (h : t.lookup (index r) = some r') :
    t.insert? r = none := by
  unfold insert?
  refine dif_neg fun hfree => ?_
  have := lookup_eq_none.2 hfree.2
  rw [h] at this
  cases this

/-- **An insert seen through the index.** -/
theorem lookup_insert {t t' : IndexedTable ρ} {r : ρ} (h : t.insert? r = some t') (i : ι) :
    t'.lookup i = if index r = i then some r else t.lookup i := by
  obtain ⟨-, hi, hrows⟩ := insert?_eq_some h
  unfold lookup at hi ⊢
  rw [hrows, List.find?_append]
  split_ifs with hr
  · subst hr
    simp [hi]
  · simp [hr]

/-- **An insert seen through the primary key.** -/
theorem find?_insert {t t' : IndexedTable ρ} {r : ρ} (h : t.insert? r = some t') (k : κ) :
    t'.find? k = if key r = k then some r else t.find? k := by
  obtain ⟨hk, -, hrows⟩ := insert?_eq_some h
  unfold Table.find? at hk ⊢
  rw [hrows, List.find?_append]
  split_ifs with hr
  · subst hr
    simp [hk]
  · simp [hr]

theorem rows_insertAll {t t' : IndexedTable ρ} {rs : List ρ} (h : t.insertAll? rs = some t') :
    t'.rows = t.rows ++ rs := by
  induction rs generalizing t with
  | nil =>
      obtain rfl := Option.some.inj h
      simp
  | cons r rs ih =>
      obtain ⟨t₁, h₁, h₂⟩ := Option.bind_eq_some_iff.1 h
      rw [ih h₂, (insert?_eq_some h₁).2.2, List.append_assoc, List.singleton_append]

/-- The rows that are inserted have new keys. -/
theorem find?_of_insertAll {t t' : IndexedTable ρ} {rs : List ρ} (h : t.insertAll? rs = some t')
    {r : ρ} (hr : r ∈ rs) : t.find? (key r) = none := by
  have hnodup := t'.nodup
  rw [rows_insertAll h, List.map_append, List.nodup_append'] at hnodup
  exact Table.find?_eq_none.2 fun hold => hnodup.2.2 hold (List.mem_map_of_mem hr)

/-- **Several inserts seen through the primary key**: old rows stay, and what is
found else is one of the new. -/
theorem find?_insertAll {t t' : IndexedTable ρ} {rs : List ρ} (h : t.insertAll? rs = some t')
    (k : κ) :
    t'.find? k = t.find? k ∨ t.find? k = none ∧ ∃ r ∈ rs, key r = k ∧ t'.find? k = some r := by
  induction rs generalizing t with
  | nil =>
      obtain rfl := Option.some.inj h
      exact Or.inl rfl
  | cons r rs ih =>
      obtain ⟨t₁, h₁, h₂⟩ := Option.bind_eq_some_iff.1 h
      have hfind := find?_insert h₁ k
      by_cases hk : key r = k
      · rw [if_pos hk] at hfind
        have hnone : t.find? k = none := hk ▸ (insert?_eq_some h₁).1
        rcases ih h₂ with h' | ⟨h', -⟩
        · exact Or.inr ⟨hnone, r, List.mem_cons_self .., hk, h'.trans hfind⟩
        · rw [hfind] at h'
          exact absurd h' (by simp)
      · rw [if_neg hk] at hfind
        rcases ih h₂ with h' | ⟨h', r', hr', hk', hf⟩
        · exact Or.inl (h'.trans hfind)
        · exact Or.inr ⟨hfind.symm.trans h', r', List.mem_cons_of_mem _ hr', hk', hf⟩

end IndexedTable
end LedgerEngine
