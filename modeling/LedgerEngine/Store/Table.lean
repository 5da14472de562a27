/-
# Tables with a primary key

A table is a list of rows no two of which share a key, so a primary key is a
field of the value and not a fact to carry along.  `Table.find?` is the lookup
by primary key, `Table.insert` adds a row whose key is new, `Table.put` writes
over the row with the same key.

What later proofs use is stated once here: where a lookup changes
(`find?_put`, `find?_insert`), which rows there are after an insert (`mem_insert`)
and how a sum over the rows changes (`sum_put`, `sum_insert`).
-/

import Mathlib.Algebra.BigOperators.Group.List.Basic
import Mathlib.Algebra.Order.Ring.Int
import Mathlib.Data.List.Nodup
import Mathlib.Tactic.Ring

namespace LedgerEngine

/-- Rows of type `ρ` have a primary key of type `κ`. -/
class Keyed (ρ : Type) (κ : outParam Type) where
  /-- The primary key of a row. -/
  key : ρ → κ

/-- A table: rows with distinct primary keys, in the order they were added. -/
structure Table (ρ : Type) {κ : Type} [Keyed ρ κ] where
  rows : List ρ
  nodup : (rows.map Keyed.key).Nodup

namespace Table

variable {ρ κ : Type} [Keyed ρ κ]

open Keyed

/-- The table without rows. -/
def empty : Table ρ := ⟨[], List.nodup_nil⟩

@[simp] theorem rows_empty : (empty : Table ρ).rows = [] := rfl

@[ext] theorem ext {t u : Table ρ} (h : t.rows = u.rows) : t = u := by
  cases t; cases u; cases h; rfl

/-- Rows with the same key are the same row. -/
theorem eq_of_key_eq {t : Table ρ} {r r' : ρ} (h : r ∈ t.rows) (h' : r' ∈ t.rows)
    (hk : key r = key r') : r = r' :=
  List.inj_on_of_nodup_map t.nodup h h' hk

variable [DecidableEq κ]

/-- The row with primary key `k`. -/
def find? (t : Table ρ) (k : κ) : Option ρ := t.rows.find? fun r => key r = k

/-- `put r` with the key of `r` in the table keeps the list of keys. -/
theorem map_key_put (rows : List ρ) (r : ρ) :
    (rows.map fun x => if key x = key r then r else x).map key = rows.map key := by
  rw [List.map_map]
  refine List.map_congr_left fun x _ => ?_
  simp only [Function.comp_apply]
  split_ifs with h
  · exact h.symm
  · rfl

/-- Write `r` over the row with the same key; nothing where there is none. -/
def put (t : Table ρ) (r : ρ) : Table ρ where
  rows := t.rows.map fun x => if key x = key r then r else x
  nodup := by rw [map_key_put]; exact t.nodup

/-- Add `r` after the other rows; nothing where its key is taken. -/
def insert (t : Table ρ) (r : ρ) : Table ρ :=
  if h : key r ∈ t.rows.map key then t
  else ⟨t.rows ++ [r], by
    rw [List.map_append, List.map_singleton]
    exact List.nodup_append'.2 ⟨t.nodup, List.nodup_singleton _, by simpa using h⟩⟩

theorem find?_eq_some {t : Table ρ} {k : κ} {r : ρ} (h : t.find? k = some r) :
    r ∈ t.rows ∧ key r = k :=
  ⟨List.mem_of_find?_eq_some h, by simpa using List.find?_some h⟩

theorem find?_eq_none {t : Table ρ} {k : κ} : t.find? k = none ↔ k ∉ t.rows.map key := by
  simp [find?, List.find?_eq_none]

/-- A row is found under its key. -/
theorem find?_key {t : Table ρ} {r : ρ} (h : r ∈ t.rows) : t.find? (key r) = some r := by
  cases hf : t.find? (key r) with
  | none => exact absurd (List.mem_map_of_mem h) (find?_eq_none.1 hf)
  | some r' =>
      obtain ⟨hm, hk⟩ := find?_eq_some hf
      rw [eq_of_key_eq hm h hk]

@[simp] theorem find?_empty (k : κ) : (empty : Table ρ).find? k = none := rfl

theorem map_key_rows_put (t : Table ρ) (r : ρ) : (t.put r).rows.map key = t.rows.map key :=
  map_key_put t.rows r

/-- **A `put` changes the lookup of its own key only.** -/
theorem find?_put (t : Table ρ) (r : ρ) (k : κ) :
    (t.put r).find? k = if key r = k then (t.find? k).map fun _ => r else t.find? k := by
  unfold find? put
  dsimp only
  induction t.rows with
  | nil => simp
  | cons x xs ih =>
      rw [List.map_cons, List.find?_cons, List.find?_cons, ih]
      by_cases hx : key x = key r
      · by_cases hr : key r = k <;> simp [hx, hr]
      · by_cases hk : key x = k
        · have hr : key r ≠ k := fun h => hx (hk.trans h.symm)
          simp [hk, hr, Ne.symm hr]
        · simp [hx, hk]

theorem rows_insert {t : Table ρ} {r : ρ} (h : t.find? (key r) = none) :
    (t.insert r).rows = t.rows ++ [r] := by
  rw [find?_eq_none] at h
  rw [insert, dif_neg h]

/-- **An `insert` of a new key is found under that key only.** -/
theorem find?_insert (t : Table ρ) (r : ρ) (k : κ) :
    (t.insert r).find? k = if key r = k then some ((t.find? k).getD r) else t.find? k := by
  cases h : t.find? (key r) with
  | none =>
      unfold find?
      rw [rows_insert h, List.find?_append]
      unfold find? at h
      by_cases hk : key r = k
      · subst hk
        simp [h]
      · simp [hk]
  | some r' =>
      have hm : key r ∈ t.rows.map key := by
        obtain ⟨hm, hk⟩ := find?_eq_some h
        exact hk ▸ List.mem_map_of_mem hm
      rw [insert, dif_pos hm]
      by_cases hk : key r = k
      · subst hk
        simp [h]
      · simp [hk]

theorem mem_insert {t : Table ρ} {r : ρ} (h : t.find? (key r) = none) {x : ρ} :
    x ∈ (t.insert r).rows ↔ x ∈ t.rows ∨ x = r := by
  rw [rows_insert h]
  simp

/-- **A sum over the rows after an `insert`** gains the new row. -/
theorem sum_insert {t : Table ρ} {r : ρ} (h : t.find? (key r) = none) (f : ρ → ℤ) :
    ((t.insert r).rows.map f).sum = (t.rows.map f).sum + f r := by
  rw [rows_insert h]
  simp

/-- **A sum over the rows after a `put`** exchanges the old row for the new. -/
theorem sum_put {t : Table ρ} {r₀ r : ρ} (h₀ : r₀ ∈ t.rows) (hk : key r₀ = key r) (f : ρ → ℤ) :
    ((t.put r).rows.map f).sum = (t.rows.map f).sum - f r₀ + f r := by
  obtain ⟨rows, nodup⟩ := t
  simp only [put] at h₀ ⊢
  induction rows with
  | nil => simp at h₀
  | cons x xs ih =>
      rw [List.map_cons, List.nodup_cons] at nodup
      rcases List.mem_cons.1 h₀ with rfl | hx
      · have hxs : (xs.map fun x => if key x = key r then r else x) = xs := by
          refine (List.map_congr_left fun y hy => ?_).trans (List.map_id xs)
          have : key y ≠ key r := fun h => nodup.1 (hk ▸ h ▸ List.mem_map_of_mem hy)
          simp [this]
        simp only [List.map_cons, hk, if_true, List.sum_cons, hxs]
        ring
      · have hne : key x ≠ key r := fun h => nodup.1 (h ▸ hk ▸ List.mem_map_of_mem hx)
        simp only [List.map_cons, hne, if_false, List.sum_cons, ih nodup.2 hx]
        ring

/-- Writing over the row just added is adding the other row instead. -/
theorem put_insert {t : Table ρ} {r r' : ρ} (h : t.find? (key r) = none) (hk : key r' = key r) :
    (t.insert r).put r' = t.insert r' := by
  have h' : t.find? (key r') = none := hk ▸ h
  have hold : (t.rows.map fun x => if key x = key r' then r' else x) = t.rows := by
    refine (List.map_congr_left fun x hx => ?_).trans (List.map_id t.rows)
    have : key x ≠ key r' := fun e => find?_eq_none.1 h' (e ▸ List.mem_map_of_mem hx)
    simp [this]
  apply ext
  rw [rows_insert h']
  simp only [put, rows_insert h, List.map_append, hold, List.map_singleton, ← hk, if_true]

/-- Several rows added in order. -/
def insertAll (t : Table ρ) (rs : List ρ) : Table ρ := rs.foldl insert t

/-- **Rows with new and distinct keys are all added**, after the others. -/
theorem rows_insertAll {t : Table ρ} {rs : List ρ} (hn : (rs.map key).Nodup)
    (h : ∀ r ∈ rs, t.find? (key r) = none) : (t.insertAll rs).rows = t.rows ++ rs := by
  induction rs generalizing t with
  | nil => simp [insertAll]
  | cons r rs ih =>
      rw [List.map_cons, List.nodup_cons] at hn
      have hr : t.find? (key r) = none := h r (List.mem_cons_self ..)
      have hrs : ∀ x ∈ rs, (t.insert r).find? (key x) = none := fun x hx => by
        have hne : key r ≠ key x := fun e => hn.1 (e ▸ List.mem_map_of_mem hx)
        rw [find?_insert, if_neg hne]
        exact h x (List.mem_cons_of_mem _ hx)
      rw [insertAll, List.foldl_cons]
      show ((t.insert r).insertAll rs).rows = _
      rw [ih hn.2 hrs, rows_insert hr, List.append_assoc, List.singleton_append]

end Table

end LedgerEngine
