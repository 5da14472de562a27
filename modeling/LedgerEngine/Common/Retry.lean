/-
# Tasks that are attempted until they succeed

A task is attempted again until an attempt succeeds or `limit` attempts have been
made.  The outcomes of its attempts, newest first, form a `Course`: each attempt but
the last has failed, and there are at most `limit` (`Course.length_le`).  All of
`limit` attempts have failed exactly when that many have (`Course.count_false_iff`).

Of several tasks that are attempted in any order, `n` of them together take at most
`n * limit` attempts, and fewer while one of them is open (`length_le`, `length_lt`).
-/

import Mathlib.Algebra.BigOperators.Ring.Finset
import Mathlib.Algebra.Order.BigOperators.Group.Finset
import Mathlib.Data.Bool.Count

namespace LedgerEngine
namespace Retry

variable {limit : ℕ} {outcomes : List Bool}

/-- Another attempt is made: none has succeeded, and one is left. -/
def Open (limit : ℕ) (outcomes : List Bool) : Prop := true ∉ outcomes ∧ outcomes.length < limit

instance (limit : ℕ) (outcomes : List Bool) : Decidable (Open limit outcomes) :=
  inferInstanceAs (Decidable (_ ∧ _))

/-- The outcomes a task can have had, newest first. -/
def Course (limit : ℕ) : List Bool → Prop
  | [] => True
  | _ :: outcomes => Open limit outcomes ∧ Course limit outcomes

theorem Course.length_le (h : Course limit outcomes) : outcomes.length ≤ limit := by
  cases outcomes with
  | nil => exact Nat.zero_le limit
  | cons b outcomes => exact h.1.2

/-- **The limit is used up by failures** when no attempt has succeeded and none is
left. -/
theorem Course.count_false_iff (h : Course limit outcomes) :
    outcomes.count false = limit ↔ true ∉ outcomes ∧ ¬ outcomes.length < limit := by
  have hlength := h.length_le
  have hcount := List.count_true_add_count_false outcomes
  rw [← List.count_eq_zero]
  omega

/-! ### Several tasks -/

variable {κ : Type} [DecidableEq κ] {attempts : List (κ × Bool)} {tasks : Finset κ}

/-- The outcomes of the attempts at one task. -/
def outcomesOf (attempts : List (κ × Bool)) (task : κ) : List Bool :=
  (attempts.filter fun a => a.1 = task).map Prod.snd

theorem outcomesOf_cons_self (task : κ) (b : Bool) (attempts : List (κ × Bool)) :
    outcomesOf ((task, b) :: attempts) task = b :: outcomesOf attempts task := by
  simp [outcomesOf]

theorem outcomesOf_cons_of_ne {task task' : κ} (h : task' ≠ task) (b : Bool)
    (attempts : List (κ × Bool)) :
    outcomesOf ((task', b) :: attempts) task = outcomesOf attempts task := by
  simp [outcomesOf, h]

/-- Each attempt is at one task. -/
theorem length_eq_sum (h : ∀ a ∈ attempts, a.1 ∈ tasks) :
    attempts.length = ∑ task ∈ tasks, (outcomesOf attempts task).length := by
  induction attempts with
  | nil => simp [outcomesOf]
  | cons a attempts ih =>
      have hstep (task : κ) : (outcomesOf (a :: attempts) task).length =
          (outcomesOf attempts task).length + if a.1 = task then 1 else 0 := by
        by_cases ha : a.1 = task <;> simp [outcomesOf, ha]
      have ha : a.1 ∈ tasks := h a (List.mem_cons_self ..)
      have hrest := ih fun a' ha' => h a' (List.mem_cons_of_mem _ ha')
      simp only [hstep, Finset.sum_add_distrib, Finset.sum_ite_eq, ha, if_true, ← hrest,
        List.length_cons]

/-- **Tasks of at most `limit` attempts each** take at most that many times their
number. -/
theorem length_le (h : ∀ a ∈ attempts, a.1 ∈ tasks)
    (hcourse : ∀ task ∈ tasks, Course limit (outcomesOf attempts task)) :
    attempts.length ≤ tasks.card * limit := by
  rw [length_eq_sum h, ← Nat.nsmul_eq_mul]
  exact Finset.sum_le_card_nsmul _ _ _ fun task htask => (hcourse task htask).length_le

/-- While a task is open, an attempt is left. -/
theorem length_lt (h : ∀ a ∈ attempts, a.1 ∈ tasks)
    (hcourse : ∀ task ∈ tasks, Course limit (outcomesOf attempts task)) {task : κ}
    (htask : task ∈ tasks) (hopen : Open limit (outcomesOf attempts task)) :
    attempts.length < tasks.card * limit := by
  rw [length_eq_sum h, ← Nat.nsmul_eq_mul, ← Finset.sum_const]
  exact Finset.sum_lt_sum (fun task htask => (hcourse task htask).length_le)
    ⟨task, htask, hopen.2⟩

end Retry
end LedgerEngine
