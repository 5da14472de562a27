/-
# Joins, groups and sums

What a `SELECT` with a `LEFT JOIN`, a `GROUP BY` and a `SUM` computes, over lists
of rows.  `NULL` is `none`: a row of the left table without a match is joined
with it, and `SUM` skips it.

A grouping by a key of the left table has one group for each of its rows, with
that row's matches (`groupBy_leftJoin`), and the sum over such a group is the sum
over the matches (`sum_map_matches`).
-/

import Mathlib.Algebra.BigOperators.Group.List.Basic
import Mathlib.Algebra.Order.Ring.Int
import Mathlib.Data.List.Dedup
import Mathlib.Data.List.ReduceOption

namespace LedgerEngine
namespace Query

variable {α β ρ κ : Type}

/-! ### Joins -/

/-- The rows of the right table that a row of the left one is joined with: its
matches, or one row of NULLs. -/
def matches? (ys : List β) (on : β → Bool) : List (Option β) :=
  if ys.any on then (ys.filter on).map some else [none]

/-- `xs LEFT JOIN ys ON on`. -/
def leftJoin (xs : List α) (ys : List β) (on : α → β → Bool) : List (α × Option β) :=
  xs.flatMap fun x => (matches? ys (on x)).map fun y => (x, y)

theorem matches?_ne_nil (ys : List β) (on : β → Bool) : matches? ys on ≠ [] := by
  unfold matches?
  split_ifs with h
  · obtain ⟨y, hy, hon⟩ := List.any_eq_true.1 h
    have hmem : y ∈ ys.filter on := List.mem_filter.2 ⟨hy, hon⟩
    simp only [ne_eq, List.map_eq_nil_iff]
    exact List.ne_nil_of_mem hmem
  · exact List.cons_ne_nil _ _

/-- A sum over the rows a row is joined with, where NULL counts for nothing. -/
theorem sum_map_matches (ys : List β) (on : β → Bool) {f : Option β → ℤ} (hf : f none = 0) :
    ((matches? ys on).map f).sum = ((ys.filter on).map fun y => f (some y)).sum := by
  unfold matches?
  split_ifs with h
  · rw [List.map_map]
    rfl
  · have hnil : ys.filter on = [] := by
      rw [List.filter_eq_nil_iff]
      intro y hy hon
      exact h (List.any_eq_true.2 ⟨y, hy, hon⟩)
    rw [hnil]
    simp [hf]

/-! ### Groups -/

variable [DecidableEq κ]

/-- `GROUP BY key`: each key once, with its rows. -/
def groupBy (key : ρ → κ) (rows : List ρ) : List (κ × List ρ) :=
  (rows.map key).dedup.map fun k => (k, rows.filter fun r => key r = k)

/-- The joined rows of one row of the left table. -/
theorem filter_leftJoin {key : α → κ} {xs : List α} (hn : (xs.map key).Nodup) (ys : List β)
    (on : α → β → Bool) {x : α} (hx : x ∈ xs) :
    ((leftJoin xs ys on).filter fun r => key r.1 = key x) =
      (matches? ys (on x)).map fun y => (x, y) := by
  have hblock : ∀ x' : α, (((matches? ys (on x')).map fun y => (x', y)).filter
      fun r => key r.1 = key x) =
        if key x' = key x then (matches? ys (on x')).map fun y => (x', y) else [] := by
    intro x'
    split_ifs with h
    · exact List.filter_eq_self.2 (by simp [h])
    · exact List.filter_eq_nil_iff.2 (by simp [h])
  induction xs with
  | nil => exact absurd hx List.not_mem_nil
  | cons x' xs ih =>
      rw [List.map_cons, List.nodup_cons] at hn
      rw [leftJoin, List.flatMap_cons, List.filter_append, hblock]
      rcases List.mem_cons.1 hx with rfl | hx
      · have hrest : ((leftJoin xs ys on).filter fun r => key r.1 = key x) = [] := by
          rw [List.filter_eq_nil_iff]
          intro r hr
          obtain ⟨x', hx', hr⟩ := List.mem_flatMap.1 hr
          obtain ⟨y, -, rfl⟩ := List.mem_map.1 hr
          have hne : key x' ≠ key x := fun h => hn.1 (h ▸ List.mem_map_of_mem hx')
          simpa using hne
        rw [if_pos rfl]
        show _ ++ ((leftJoin xs ys on).filter fun r => key r.1 = key x) = _
        rw [hrest, List.append_nil]
      · have hne : key x' ≠ key x := fun h => hn.1 (h ▸ List.mem_map_of_mem hx)
        rw [if_neg hne, List.nil_append]
        exact ih hn.2 hx

/-- **A join grouped by a key of the left table** has one group for each row of
that table: the row with its matches. -/
theorem groupBy_leftJoin {key : α → κ} {xs : List α} (hn : (xs.map key).Nodup) (ys : List β)
    (on : α → β → Bool) :
    (groupBy (fun r => key r.1) (leftJoin xs ys on)).Perm
      (xs.map fun x => (key x, (matches? ys (on x)).map fun y => (x, y))) := by
  have hmem : ∀ k, k ∈ ((leftJoin xs ys on).map fun r => key r.1).dedup ↔ k ∈ xs.map key := by
    intro k
    rw [List.mem_dedup, List.mem_map, List.mem_map]
    constructor
    · rintro ⟨r, hr, rfl⟩
      obtain ⟨x, hx, hr⟩ := List.mem_flatMap.1 hr
      obtain ⟨y, -, rfl⟩ := List.mem_map.1 hr
      exact ⟨x, hx, rfl⟩
    · rintro ⟨x, hx, rfl⟩
      obtain ⟨y, hy⟩ := List.exists_mem_of_ne_nil _ (matches?_ne_nil ys (on x))
      exact ⟨(x, y), List.mem_flatMap.2 ⟨x, hx, List.mem_map_of_mem hy⟩, rfl⟩
  have hkeys : ((leftJoin xs ys on).map fun r => key r.1).dedup.Perm (xs.map key) :=
    (List.perm_ext_iff_of_nodup (List.nodup_dedup _) hn).2 hmem
  refine (hkeys.map _).trans ?_
  rw [List.map_map]
  refine List.Perm.of_eq (List.map_congr_left fun x hx => ?_)
  simp only [Function.comp_apply]
  rw [filter_leftJoin hn ys on hx]

/-! ### Sums -/

/-- `SUM`: NULLs are skipped, and where nothing else is left the sum is NULL. -/
def sum (values : List (Option ℤ)) : Option ℤ :=
  if values.reduceOption = [] then none else some values.reduceOption.sum

/-- `COALESCE(SUM(value), 0)` where no value is NULL. -/
theorem sum_map_some (values : List ℤ) : (sum (values.map some)).getD 0 = values.sum := by
  have hreduce : (values.map some).reduceOption = values := by
    rw [List.reduceOption, List.filterMap_map]
    exact List.filterMap_some
  unfold sum
  rw [hreduce]
  split_ifs with h
  · rw [h]
    rfl
  · rfl

/-- The sum of some of the rows, as a sum in which the others count for nothing. -/
theorem sum_map_ite (rows : List ρ) (P : ρ → Prop) [DecidablePred P] (f : ρ → ℤ) :
    (rows.map fun r => if P r then f r else 0).sum = ((rows.filter P).map f).sum := by
  induction rows with
  | nil => rfl
  | cons r rows ih =>
      rw [List.map_cons, List.sum_cons, ih, List.filter_cons]
      by_cases h : P r
      · simp [h]
      · simp [h]

/-- A `HAVING` and the columns selected, as one pass over the groups. -/
theorem filterMap_ite (rows : List ρ) (P : ρ → Prop) [DecidablePred P] (f : ρ → α) :
    (rows.filterMap fun r => if P r then some (f r) else none) = (rows.filter P).map f := by
  induction rows with
  | nil => rfl
  | cons r rows ih =>
      rw [List.filterMap_cons, List.filter_cons]
      by_cases h : P r
      · simp [h, ih]
      · simp [h, ih]

end Query
end LedgerEngine
