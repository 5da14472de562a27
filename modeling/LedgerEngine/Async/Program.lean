/-
# Programs that await external calls

An `async` method is a tree: it returns, it throws, or it awaits one external
call and goes on with whatever the call settles to.  `Prog C R ε α` is that
tree for calls `C` whose resolved values have the types `R`, rejections of type
`ε` and a result in `α`.  The bodies of the services are written in its `do`
notation; what an `await` does to the world is left to a *handler*.

`Prog.eval` runs a program alone, one call after the other; several programs
that run at the same time are the subject of `LedgerEngine.Async.Pool`.  Nothing
here knows what the calls are.
-/

import Mathlib.Data.List.Basic
import Mathlib.Tactic.SplitIfs
import Mathlib.Tactic.Basic

namespace LedgerEngine

/-- Entry `i` of a list replaced by `a`: what any entry is afterwards. -/
theorem getElem?_set_some {δ : Type} {l : List δ} {i j : ℕ} {a b : δ}
    (h : (l.set i a)[j]? = some b) : j = i ∧ b = a ∨ j ≠ i ∧ l[j]? = some b := by
  rw [List.getElem?_set] at h
  split_ifs at h with hij hlt
  · exact Or.inl ⟨hij.symm, (Option.some.inj h).symm⟩
  · exact Or.inr ⟨fun e => hij e.symm, h⟩

/-- A list with `a` added at the end: what any entry is. -/
theorem getElem?_append_some {δ : Type} {l : List δ} {j : ℕ} {a b : δ}
    (h : (l ++ [a])[j]? = some b) : l[j]? = some b ∨ j = l.length ∧ b = a := by
  rw [List.getElem?_append] at h
  split_ifs at h with hlt
  · exact Or.inl h
  · rw [List.getElem?_singleton] at h
    split_ifs at h with hj
    exact Or.inr ⟨by omega, (Option.some.inj h).symm⟩

/-- A program that awaits calls `c : C`, each settling to an `R c` or to an
error.  `ret` and `raise` are a `return` and a `throw` that nothing catches. -/
inductive Prog (C : Type) (R : C → Type) (ε α : Type) : Type
  | ret (a : α)
  | raise (e : ε)
  | call (c : C) (k : Except ε (R c) → Prog C R ε α)

/-- How a call goes wrong: it is refused and has no effect, or it has its effect
and its answer is lost. -/
inductive Fault (ε : Type) : Type
  | refused (e : ε)
  | lost (e : ε)

namespace Prog

variable {C : Type} {R : C → Type} {ε α β σ : Type}

/-- Sequencing: `f` runs on the value `p` returns, an error of `p` is passed on. -/
def bind : Prog C R ε α → (α → Prog C R ε β) → Prog C R ε β
  | .ret a, f => f a
  | .raise e, _ => .raise e
  | .call c k, f => .call c fun r => (k r).bind f

/-- `try p catch (e) { h e }`. -/
def tryCatch : Prog C R ε α → (ε → Prog C R ε α) → Prog C R ε α
  | .ret a, _ => .ret a
  | .raise e, h => h e
  | .call c k, h => .call c fun r => (k r).tryCatch h

instance : Monad (Prog C R ε) where
  pure := .ret
  bind := bind

instance : MonadExceptOf ε (Prog C R ε) where
  throw := .raise
  tryCatch := tryCatch

/-- `await c`: the value the call resolves with, or its rejection thrown. -/
def await (c : C) : Prog C R ε (R c) :=
  .call c fun
    | .ok r => .ret r
    | .error e => .raise e

@[simp] theorem pure_eq (a : α) : (Pure.pure a : Prog C R ε α) = .ret a := rfl

@[simp] theorem throw_eq (e : ε) : (throw e : Prog C R ε α) = .raise e := rfl

@[simp] theorem bind_eq (p : Prog C R ε α) (f : α → Prog C R ε β) : p >>= f = p.bind f := rfl

@[simp] theorem tryCatch_eq (p : Prog C R ε α) (h : ε → Prog C R ε α) :
    MonadExcept.tryCatch p h = p.tryCatch h := rfl

@[simp] theorem bind_ret (a : α) (f : α → Prog C R ε β) : (Prog.ret a).bind f = f a := rfl

@[simp] theorem bind_raise (e : ε) (f : α → Prog C R ε β) :
    (Prog.raise e : Prog C R ε α).bind f = .raise e := rfl

@[simp] theorem bind_call (c : C) (k : Except ε (R c) → Prog C R ε α) (f : α → Prog C R ε β) :
    (Prog.call c k).bind f = .call c fun r => (k r).bind f := rfl

theorem bind_assoc {γ : Type} (p : Prog C R ε α) (f : α → Prog C R ε β) (g : β → Prog C R ε γ) :
    (p.bind f).bind g = p.bind fun a => (f a).bind g := by
  induction p with
  | ret a => rfl
  | raise e => rfl
  | call c k ih => exact congrArg (Prog.call c) (funext ih)

/-- A handler: what a call does to the world `σ` and how it settles. -/
abbrev Handler (C : Type) (R : C → Type) (ε σ : Type) := (c : C) → σ → Except ε (R c) × σ

/-- Run a program alone: every call is answered by the handler in turn. -/
def eval (exec : Handler C R ε σ) : Prog C R ε α → σ → Except ε α × σ
  | .ret a, s => (.ok a, s)
  | .raise e, s => (.error e, s)
  | .call c k, s => (k (exec c s).1).eval exec (exec c s).2

@[simp] theorem eval_ret (exec : Handler C R ε σ) (a : α) (s : σ) :
    (Prog.ret a : Prog C R ε α).eval exec s = (.ok a, s) := rfl

@[simp] theorem eval_raise (exec : Handler C R ε σ) (e : ε) (s : σ) :
    (Prog.raise e : Prog C R ε α).eval exec s = (.error e, s) := rfl

theorem eval_call (exec : Handler C R ε σ) (c : C) (k : Except ε (R c) → Prog C R ε α) (s : σ) :
    (Prog.call c k).eval exec s = (k (exec c s).1).eval exec (exec c s).2 := rfl

theorem eval_await (exec : Handler C R ε σ) (c : C) (s : σ) :
    (await c : Prog C R ε (R c)).eval exec s = exec c s := by
  unfold await
  rw [eval_call]
  cases h : exec c s with
  | mk r s' => cases r <;> rfl

theorem eval_bind (exec : Handler C R ε σ) (p : Prog C R ε α) (f : α → Prog C R ε β) (s : σ) :
    (p.bind f).eval exec s =
      match p.eval exec s with
      | (.ok a, s') => (f a).eval exec s'
      | (.error e, s') => (.error e, s') := by
  induction p generalizing s with
  | ret a => rfl
  | raise e => rfl
  | call c k ih => exact ih _ _

/-- **A sequence that returns ran both its halves.** -/
theorem eval_bind_ok {exec : Handler C R ε σ} {p : Prog C R ε α} {f : α → Prog C R ε β} {s s' : σ}
    {b : β} (h : (p.bind f).eval exec s = (.ok b, s')) :
    ∃ a s₁, p.eval exec s = (.ok a, s₁) ∧ (f a).eval exec s₁ = (.ok b, s') := by
  rw [eval_bind] at h
  split at h
  · rename_i a s₁ hp
    exact ⟨a, s₁, hp, h⟩
  · simp at h

/-- Run `p` when others come in after its first call: that call is answered in
`s₀`, the rest of the program runs from `s`. -/
def overtaken (exec : Handler C R ε σ) (s₀ : σ) : Prog C R ε α → σ → Except ε α × σ
  | .ret a, s => (.ok a, s)
  | .raise e, s => (.error e, s)
  | .call c k, s => (k (exec c s₀).1).eval exec s

/-! ### Several programs at once, and calls that are programs -/

/-- Run `p`, then what its result leads to, be it a value or an error. -/
def andThen : Prog C R ε α → (Except ε α → Prog C R ε β) → Prog C R ε β
  | .ret a, f => f (.ok a)
  | .raise e, f => f (.error e)
  | .call c k, f => .call c fun r => (k r).andThen f

/-- Every program of a list runs, whatever the others settle to; the first error. -/
def settleAll : List (Prog C R ε Unit) → Prog C R ε (Option ε)
  | [] => .ret none
  | p :: ps => p.andThen fun r => (settleAll ps).bind fun failed =>
      match r with
      | .ok _ => .ret failed
      | .error e => .ret (some e)

/-- `await Promise.all(ps)`, with the first error thrown once all have settled. -/
def promiseAll (ps : List (Prog C R ε Unit)) : Prog C R ε Unit :=
  (settleAll ps).bind fun
    | none => .ret ()
    | some e => .raise e

/-- The program with every call carried out by a program of its own. -/
def expand {C' : Type} {R' : C' → Type} (f : (c : C) → Prog C' R' ε (R c)) :
    Prog C R ε α → Prog C' R' ε α
  | .ret a => .ret a
  | .raise e => .raise e
  | .call c k => (f c).andThen fun r => (k r).expand f

theorem eval_andThen (exec : Handler C R ε σ) (p : Prog C R ε α) (f : Except ε α → Prog C R ε β)
    (s : σ) : (p.andThen f).eval exec s = (f (p.eval exec s).1).eval exec (p.eval exec s).2 := by
  induction p generalizing s with
  | ret a => rfl
  | raise e => rfl
  | call c k ih => exact ih _ _

/-- **Running the expanded program is running the program with every call run as
one step.** -/
theorem eval_expand {C' : Type} {R' : C' → Type} (f : (c : C) → Prog C' R' ε (R c))
    (exec : Handler C' R' ε σ) (p : Prog C R ε α) (s : σ) :
    (p.expand f).eval exec s = p.eval (fun c s => (f c).eval exec s) s := by
  induction p generalizing s with
  | ret a => rfl
  | raise e => rfl
  | call c k ih => rw [expand, eval_andThen, ih, eval_call]

/-! ### Calls that fail -/

/-- A handler whose next call meets a fault, or none. -/
def Handler.meet (exec : Handler C R ε σ) : Option (Fault ε) → Handler C R ε σ
  | none => exec
  | some (.refused e) => fun _ s => (.error e, s)
  | some (.lost e) => fun c s => (.error e, (exec c s).2)

/-- A call that answers has met no fault. -/
theorem Handler.meet_of_ok {exec : Handler C R ε σ} {fault : Option (Fault ε)} {c : C} {s : σ}
    {r : R c} (h : (exec.meet fault c s).1 = .ok r) : exec.meet fault c s = exec c s := by
  cases fault with
  | none => rfl
  | some fault => cases fault <;> exact absurd h (by simp [Handler.meet])

/-- A call has its effect or none. -/
theorem Handler.meet_state (exec : Handler C R ε σ) (fault : Option (Fault ε)) (c : C) (s : σ) :
    (exec.meet fault c s).2 = s ∨ (exec.meet fault c s).2 = (exec c s).2 := by
  cases fault with
  | none => exact Or.inr rfl
  | some fault =>
      cases fault with
      | refused e => exact Or.inl rfl
      | lost e => exact Or.inr rfl

/-- A handler under which the `n`-th call from now on is refused with the
`n`-th entry of a list, where that entry is an error; a refused call does
nothing.  Past the end of the list no call is refused. -/
def faulty (exec : Handler C R ε σ) : Handler C R ε (σ × List (Option ε)) :=
  fun c s =>
    match s.2 with
    | some e :: faults => (.error e, (s.1, faults))
    | none :: faults => ((exec c s.1).1, ((exec c s.1).2, faults))
    | [] => ((exec c s.1).1, ((exec c s.1).2, []))

/-- Without faults to come a program runs as it does alone. -/
theorem eval_faulty_nil (exec : Handler C R ε σ) (p : Prog C R ε α) (s : σ) :
    p.eval (faulty exec) (s, []) = ((p.eval exec s).1, ((p.eval exec s).2, [])) := by
  induction p generalizing s with
  | ret a => rfl
  | raise e => rfl
  | call c k ih => exact ih _ _

/-- A handler whose `n`-th call is answered with what `script n` draws for it; the
world comes with the number of calls made. -/
def Handler.scripted {Ω : Type} (exec : Ω → Handler C R ε σ) (script : ℕ → Ω) :
    Handler C R ε (σ × ℕ) :=
  fun c s => ((exec (script s.2) c s.1).1, ((exec (script s.2) c s.1).2, s.2 + 1))

/-- Nothing in the program catches: a call that fails ends it with that error. -/
def Rethrows : Prog C R ε α → Prop
  | .ret _ => True
  | .raise _ => True
  | .call _ k => (∀ e, k (.error e) = .raise e) ∧ ∀ r, (k (.ok r)).Rethrows

theorem rethrows_await (c : C) : (await c : Prog C R ε (R c)).Rethrows :=
  ⟨fun _ => rfl, fun _ => trivial⟩

theorem Rethrows.bind {p : Prog C R ε α} {f : α → Prog C R ε β} (hp : p.Rethrows)
    (hf : ∀ a, (f a).Rethrows) : (p.bind f).Rethrows := by
  induction p with
  | ret a => exact hf a
  | raise e => trivial
  | call c k ih =>
      refine ⟨fun e => ?_, fun r => ih _ (hp.2 r)⟩
      simp only [hp.1 e, bind_raise]

/-- **A program that returns in spite of faults met none**, if it catches
nothing: it does what it does without them. -/
theorem Rethrows.eval_faulty {exec : Handler C R ε σ} {p : Prog C R ε α} (hp : p.Rethrows)
    {s s' : σ} {faults faults' : List (Option ε)} {a : α}
    (h : p.eval (faulty exec) (s, faults) = (.ok a, (s', faults'))) :
    p.eval exec s = (.ok a, s') := by
  induction p generalizing s faults with
  | ret b =>
      rw [eval_ret, Prod.mk.injEq, Prod.mk.injEq] at h
      rw [eval_ret, h.1, h.2.1]
  | raise e => simp at h
  | call c k ih =>
      rw [eval_call]
      rw [eval_call] at h
      cases faults with
      | nil =>
          simp only [faulty] at h
          cases hr : (exec c s).1 with
          | error e => rw [hr, hp.1 e] at h; simp at h
          | ok r => rw [hr] at h; exact ih _ (hp.2 r) h
      | cons fault faults =>
          cases fault with
          | some e => simp only [faulty] at h; rw [hp.1 e] at h; simp at h
          | none =>
              simp only [faulty] at h
              cases hr : (exec c s).1 with
              | error e => rw [hr, hp.1 e] at h; simp at h
              | ok r => rw [hr] at h; exact ih _ (hp.2 r) h

end Prog

end LedgerEngine
