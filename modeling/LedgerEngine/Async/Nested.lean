/-
# Calls that are transactions

In a pool every call is one step (`LedgerEngine.Async.Pool`).  Some calls of a server are
transactions of a store (`Nested.body`), and then they are not: their statements run one by
one under the locks of `LedgerEngine.Async.TwoPhase`, between the statements of other
transactions and the calls of other threads, which change the same store.  `Server` is the
pool with the transactions under way, and `step` a move of it.

`Standing.refines` is the result: after any moves the pool is one that the threads reach when
each transaction is a single call, made at the moment it commits (`labels`).  So what holds
after every run of the system holds after every run of its finer version.  The invariant behind
it is that of `LedgerEngine.Async.Arrivals`: a transaction under way could have made all its
steps at this moment, or never returns (`Stands.trace`).  Conversely a transaction that nobody
disturbs gets to its end, so no run of the system is lost (`exists_run`).
-/

import LedgerEngine.Async.Arrivals
import LedgerEngine.Async.Pool
import Mathlib.Logic.Function.Basic

namespace LedgerEngine

open TwoPhase (Arrival Statements Trace)

variable {T C : Type} {R : C → Type} {ε α σ Ω Q : Type} {D : Type} {V : D → Type}
  {δ E K W : Type}

/-- Which calls of a system are transactions of a store, and where in the world it is. -/
structure Nested (S : System T C R ε α σ Ω Q) (M : Statements D V ε δ E K W) where
  view : σ → δ
  put : δ → σ → σ
  /-- What a call runs between its begin and its commit, if it is a transaction. -/
  body : (c : C) → Option (Prog D V ε (R c))
  /-- What a transaction uses of what is drawn for its call. -/
  env : Ω → E
  /-- What is drawn for a call that meets this fault, and no other. -/
  draw : Ω → Option (Fault ε) → Ω

namespace Nested

/-- A transaction under way: the call it is, how its thread goes on, what is left of its body,
the writes it has made and the rows it holds. -/
structure Open (C : Type) (R : C → Type) (ε α Ω : Type) (D : Type) (V : D → Type)
    (K W : Type) where
  call : C
  resume : Except ε (R call) → Prog C R ε α
  drawn : Ω
  rest : Prog D V ε (R call)
  writes : List W
  held : List K

/-- The pool, with the world as it is committed, and the transaction each thread is in. -/
structure Server (T C : Type) (R : C → Type) (ε α σ Ω Q : Type) (D : Type) (V : D → Type)
    (K W : Type) where
  pool : Pool T C R ε α σ Q
  opened : ℕ → Option (Open C R ε α Ω D V K W)

/-- A move: a thread starts, or makes a call that is no transaction, or begins one; a
transaction runs its next statement, or ends.  It ends by itself, or it is broken off, or it
commits and the answer is lost. -/
inductive Move (T Ω ε : Type) : Type
  | spawn (t : T)
  | call (i : ℕ) (ω : Ω)
  | begin (i : ℕ) (ω : Ω)
  | statement (i : ℕ)
  | finish (i : ℕ) (fault : Option (Fault ε))

variable {S : System T C R ε α σ Ω Q} {M : Statements D V ε δ E K W}

/-- A pool in which no transaction is under way. -/
def start (P : Pool T C R ε α σ Q) : Server T C R ε α σ Ω Q D V K W := ⟨P, fun _ => none⟩

/-- The rows a thread holds. -/
def Server.held (v : Server T C R ε α σ Ω Q D V K W) (i : ℕ) : List K :=
  match v.opened i with
  | some o => o.held
  | none => []

/-- Some thread other than number `i` holds one of the rows. -/
def Server.blocked [DecidableEq K] (v : Server T C R ε α σ Ω Q D V K W) (i : ℕ) (ks : List K) :
    Bool :=
  (List.range v.pool.threads.length).any fun j =>
    j != i && ks.any fun k => decide (k ∈ v.held j)

/-- How a transaction ends, if it can: its answer and the world afterwards. -/
def ends (N : Nested S M) (o : Open C R ε α Ω D V K W) (s : σ) :
    Option (Fault ε) → Option (Except ε (R o.call) × σ)
  | some (.refused e) => some (.error e, s)
  | some (.lost e) =>
      match o.rest with
      | .ret _ => some (.error e, N.put (M.applyAll o.writes (N.view s)) s)
      | _ => none
  | none =>
      match o.rest with
      | .ret a => some (.ok a, N.put (M.applyAll o.writes (N.view s)) s)
      | .raise e => some (.error e, s)
      | .call _ _ => none

/-- The thread goes on with the answer. -/
def Server.settle (S : System T C R ε α σ Ω Q) (v : Server T C R ε α σ Ω Q D V K W) (i : ℕ)
    (o : Open C R ε α Ω D V K W) (answer : Except ε (R o.call)) (s : σ) :
    Server T C R ε α σ Ω Q D V K W :=
  match v.pool.threads[i]? with
  | none => v
  | some th =>
      ⟨⟨s, v.pool.threads.set i
          ⟨th.tag, (S.protocol th.tag).next th.stage o.call answer, o.resume answer⟩⟩,
        Function.update v.opened i none⟩

/-- The transaction after its next statement, or as it is where a row is held. -/
def Server.advance [DecidableEq K] (N : Nested S M) (v : Server T C R ε α σ Ω Q D V K W) (i : ℕ)
    (o : Open C R ε α Ω D V K W) : Open C R ε α Ω D V K W :=
  match o.rest with
  | .call d k =>
      let store := M.applyAll o.writes (N.view v.pool.world)
      if v.blocked i (M.locks (N.env o.drawn) d store) then o
      else { o with
        rest := k (M.exec (N.env o.drawn) d store).1
        writes := o.writes ++ (M.exec (N.env o.drawn) d store).2
        held := M.locks (N.env o.drawn) d store ++ o.held }
  | _ => o

/-- One move. -/
def step [DecidableEq K] (N : Nested S M) (v : Server T C R ε α σ Ω Q D V K W) :
    Move T Ω ε → Server T C R ε α σ Ω Q D V K W
  | .spawn t => { v with pool := v.pool.step S (.spawn t) }
  | .call i ω =>
      match v.pool.threads[i]?.bind Thread.head with
      | some c => if (N.body c).isSome then v else { v with pool := v.pool.step S (.step i ω) }
      | none => v
  | .begin i ω =>
      match v.opened i, v.pool.threads[i]? with
      | none, some ⟨_, _, .call c k⟩ =>
          match N.body c with
          | some p => { v with opened := Function.update v.opened i (some ⟨c, k, ω, p, [], []⟩) }
          | none => v
      | _, _ => v
  | .statement i =>
      match v.opened i with
      | some o => { v with opened := Function.update v.opened i (some (v.advance N i o)) }
      | none => v
  | .finish i fault =>
      match v.opened i with
      | some o =>
          match N.ends o v.pool.world fault with
          | some (answer, s) => v.settle S i o answer s
          | none => v
      | none => v

/-- Moves one after the other. -/
def run [DecidableEq K] (N : Nested S M) (v : Server T C R ε α σ Ω Q D V K W)
    (moves : List (Move T Ω ε)) : Server T C R ε α σ Ω Q D V K W :=
  moves.foldl N.step v

/-! ### What the moves are seen as -/

/-- The fault of the single call that a transaction ending so is seen as: a body that has
thrown is a call that was refused. -/
def Open.seenAs (o : Open C R ε α Ω D V K W) : Option (Fault ε) → Option (Fault ε)
  | none =>
      match o.rest with
      | .raise e => some (.refused e)
      | _ => none
  | some fault => some fault

/-- The steps of the pool that a move is seen as: a transaction is seen when it ends. -/
def seen (N : Nested S M) (v : Server T C R ε α σ Ω Q D V K W) :
    Move T Ω ε → List (Label T Ω)
  | .spawn t => [.spawn t]
  | .call i ω =>
      match v.pool.threads[i]?.bind Thread.head with
      | some c => if (N.body c).isSome then [] else [.step i ω]
      | none => []
  | .begin _ _ | .statement _ => []
  | .finish i fault =>
      match v.opened i with
      | some o =>
          match N.ends o v.pool.world fault with
          | some _ => [.step i (N.draw o.drawn (o.seenAs fault))]
          | none => []
      | none => []

/-- The steps of the pool that a run is seen as. -/
def labels [DecidableEq K] (N : Nested S M) :
    Server T C R ε α σ Ω Q D V K W → List (Move T Ω ε) → List (Label T Ω)
  | _, [] => []
  | v, move :: moves => N.seen v move ++ N.labels (N.step v move) moves

/-! ### What is asked of the transactions -/

/-- A transaction that is a single call, and meets the fault or none. -/
def alone {β : Type} (N : Nested S M) (env : E) (p : Prog D V ε β) (s : σ) :
    Option (Fault ε) → Except ε β × σ
  | none => ((M.transaction env p (N.view s)).1, N.put (M.transaction env p (N.view s)).2 s)
  | some (.refused e) => (.error e, s)
  | some (.lost e) => (.error e, N.put (M.transaction env p (N.view s)).2 s)

/-- What the two granularities need of the system: a single call does what the transaction
does alone, and whatever else happens changes the store as rows that arrive do. -/
structure Lawful (N : Nested S M) (grows : δ → δ → Prop) (misses : (d : D) → V d → Prop) :
    Prop where
  view_put : ∀ d s, N.view (N.put d s) = d
  put_view : ∀ s, N.put (N.view s) s = s
  statements : M.Lawful
  arrival : Arrival M grows misses
  givesUp : ∀ c p, N.body c = some p → p.GivesUp misses fun _ => False
  exec : ∀ ω fault c p s, N.body c = some p →
    S.exec (N.draw ω fault) c s = N.alone (N.env ω) p s fault
  /-- Whatever is drawn for a transaction, it meets some fault or none. -/
  meets : ∀ ω c p s, N.body c = some p → ∃ fault, S.exec ω c s = N.alone (N.env ω) p s fault
  other : ∀ ω c s, N.body c = none → grows (N.view s) (N.view (S.exec ω c s).2)
  spawn : ∀ t s s', S.spawn t s = some s' → grows (N.view s) (N.view s')

/-! ### The invariant -/

/-- What holds of a transaction under way: it is the call its thread is about to make, it
could have made its steps on the store committed now or never returns, and nobody else holds
a row that it holds. -/
structure Stands (N : Nested S M) (v : Server T C R ε α σ Ω Q D V K W) (i : ℕ)
    (o : Open C R ε α Ω D V K W) : Prop where
  thread : ∃ t q, v.pool.threads[i]? = some ⟨t, q, .call o.call o.resume⟩
  trace : ∃ p, N.body o.call = some p ∧
    (Trace M (N.env o.drawn) (N.view v.pool.world) o.held p o.rest o.writes ∨
      o.rest.Only fun _ => False)
  apart : ∀ j o', v.opened j = some o' → j ≠ i → ∀ x ∈ o.held, x ∉ o'.held

/-- It holds of every transaction under way. -/
def Standing (N : Nested S M) (v : Server T C R ε α σ Ω Q D V K W) : Prop :=
  ∀ i o, v.opened i = some o → N.Stands v i o

theorem standing_start (N : Nested S M) (P : Pool T C R ε α σ Q) :
    N.Standing (start P : Server T C R ε α σ Ω Q D V K W) := fun _ _ h => by cases h

variable {N : Nested S M} {grows : δ → δ → Prop} {misses : (d : D) → V d → Prop}
  {v : Server T C R ε α σ Ω Q D V K W} {i : ℕ} {o : Open C R ε α Ω D V K W}

/-- What is under way once thread `i` is in another transaction, or in none. -/
theorem opened_update {f : ℕ → Option (Open C R ε α Ω D V K W)}
    {x : Option (Open C R ε α Ω D V K W)} {j : ℕ} (h : Function.update f i x j = some o) :
    j = i ∧ x = some o ∨ j ≠ i ∧ f j = some o := by
  by_cases hj : j = i
  · subst hj
    rw [Function.update_self] at h
    exact Or.inl ⟨rfl, h⟩
  · rw [Function.update_of_ne hj] at h
    exact Or.inr ⟨hj, h⟩

/-- Thread `i` goes on in its transaction, or begins one. -/
theorem Standing.update (h : N.Standing v) (ho : N.Stands v i o) :
    N.Standing { v with opened := Function.update v.opened i (some o) } := by
  intro j o₁ hj
  rcases opened_update hj with ⟨rfl, hnew⟩ | ⟨hne, hold⟩
  · obtain rfl := Option.some.inj hnew
    refine ⟨ho.thread, ho.trace, fun l o₂ hl hlj => ?_⟩
    rcases opened_update hl with ⟨rfl, -⟩ | ⟨-, hold⟩
    · exact absurd rfl hlj
    · exact ho.apart l o₂ hold hlj
  · have hstands := h j o₁ hold
    refine ⟨hstands.thread, hstands.trace, fun l o₂ hl hlj x hx => ?_⟩
    rcases opened_update hl with ⟨rfl, hnew⟩ | ⟨-, hold'⟩
    · obtain rfl := Option.some.inj hnew
      exact fun hx' => ho.apart j o₁ hold hne x hx' hx
    · exact hstands.apart l o₂ hold' hlj x hx

/-- **The pool makes a step beside the transactions.** -/
theorem Standing.beside (hN : N.Lawful grows misses) (h : N.Standing v)
    {P : Pool T C R ε α σ Q} (hgrows : grows (N.view v.pool.world) (N.view P.world))
    (hthreads : ∀ i o, v.opened i = some o → P.threads[i]? = v.pool.threads[i]?) :
    N.Standing ⟨P, v.opened⟩ := by
  intro i o ho
  have hstands := h i o ho
  refine ⟨?_, ?_, hstands.apart⟩
  · rw [hthreads i o ho]
    exact hstands.thread
  · obtain ⟨p, hp, htrace | hgone⟩ := hstands.trace
    · exact ⟨p, hp, htrace.arrive hN.arrival (hN.givesUp _ p hp) hgrows⟩
    · exact ⟨p, hp, Or.inr hgone⟩

/-- Nobody else holds the rows a statement locks, if it does not wait. -/
theorem Standing.not_blocked [DecidableEq K] (h : N.Standing v) {ks : List K}
    (hb : v.blocked i ks = false) {j : ℕ} (ho : v.opened j = some o) (hji : j ≠ i) :
    ∀ x ∈ ks, x ∉ o.held := by
  intro x hx hxo
  obtain ⟨t, q, hj⟩ := (h j o ho).thread
  have hlt : j < v.pool.threads.length := (List.getElem?_eq_some_iff.1 hj).1
  have := List.any_eq_false.1 hb j (List.mem_range.2 hlt)
  simp only [Bool.and_eq_true, bne_iff_ne, List.any_eq_true, decide_eq_true_eq, not_and,
    not_exists] at this
  refine this hji x hx ?_
  simpa only [Server.held, ho] using hxo

/-- **A transaction runs a statement**, which takes rows that nobody else holds, or waits. -/
theorem Standing.advance [DecidableEq K] (h : N.Standing v) (ho : v.opened i = some o) :
    N.Stands v i (v.advance N i o) := by
  have hstands := h i o ho
  unfold Server.advance
  obtain ⟨call, resume, drawn, rest, writes, held⟩ := o
  cases rest with
  | ret a => exact hstands
  | raise e => exact hstands
  | call d k =>
      dsimp only
      split_ifs with hb
      · exact hstands
      · obtain ⟨p, hp, htrace⟩ := hstands.trace
        refine ⟨hstands.thread, ⟨p, hp, ?_⟩, fun j o' hj hji x hx => ?_⟩
        · rcases htrace with htrace | hgone
          · exact Or.inl (.next (htrace.mono fun x hx => List.mem_append_right _ hx)
              fun x hx => List.mem_append_left _ hx)
          · exact Or.inr (hgone _)
        · rcases List.mem_append.1 hx with hx | hx
          · exact h.not_blocked (by simpa using hb) hj hji x hx
          · exact hstands.apart j o' hj hji x hx

/-- **A body that has returned** has done what the transaction does alone, and has changed
only rows it holds. -/
theorem Stands.returned (hN : N.Lawful grows misses) (h : N.Stands v i o) {a : R o.call}
    (hr : o.rest = .ret a) :
    ∃ p, N.body o.call = some p ∧
      M.transaction (N.env o.drawn) p (N.view v.pool.world) =
        (.ok a, M.applyAll o.writes (N.view v.pool.world)) ∧
      ∀ x, x ∉ o.held → M.same x (N.view v.pool.world)
        (M.applyAll o.writes (N.view v.pool.world)) := by
  obtain ⟨p, hp, htrace⟩ := h.trace
  rw [hr] at htrace
  have htrace := htrace.resolve_right fun hgone => hgone
  refine ⟨p, hp, htrace.transaction_ret, fun x hx => ?_⟩
  exact hN.statements.same_applyAll_of_notMem
    (fun w hw (e : x = M.keyOf w) => hx (e ▸ htrace.keyOf_mem hN.statements w hw)) _

/-- A transaction that is rolled back is a call that was refused. -/
theorem Stands.refused (hN : N.Lawful grows misses) (h : N.Stands v i o) (e : ε) :
    S.exec (N.draw o.drawn (some (.refused e))) o.call v.pool.world = (.error e, v.pool.world) := by
  obtain ⟨p, hp, -⟩ := h.trace
  rw [hN.exec _ _ _ p _ hp]
  rfl

/-- **A transaction ends as it ends when it is a single call**, and has changed only rows it
holds. -/
theorem Stands.ends (hN : N.Lawful grows misses) (h : N.Stands v i o)
    {fault : Option (Fault ε)} {answer : Except ε (R o.call)} {s : σ}
    (hends : N.ends o v.pool.world fault = some (answer, s)) :
    S.exec (N.draw o.drawn (o.seenAs fault)) o.call v.pool.world = (answer, s) ∧
      M.frozen (N.view v.pool.world) (N.view s) ∧
      ∀ x, x ∉ o.held → M.same x (N.view v.pool.world) (N.view s) := by
  have hM := hN.statements
  have hrolled : M.frozen (N.view v.pool.world) (N.view v.pool.world) ∧
      ∀ x, x ∉ o.held → M.same x (N.view v.pool.world) (N.view v.pool.world) :=
    ⟨hM.frozen_refl _, fun x _ => hM.same_refl x _⟩
  cases hr : o.rest with
  | ret a =>
      obtain ⟨p, hp, halone, hsame⟩ := h.returned hN hr
      have hwritten := And.intro (hM.frozen_applyAll o.writes (N.view v.pool.world)) hsame
      rcases fault with _ | e | e <;>
        simp only [Nested.ends, hr, Option.some.injEq, Prod.mk.injEq] at hends <;>
        obtain ⟨rfl, rfl⟩ := hends
      · simp only [Open.seenAs, hr, hN.exec _ _ _ p _ hp, alone, halone, hN.view_put]
        exact ⟨trivial, hwritten⟩
      · exact ⟨h.refused hN e, hrolled⟩
      · simp only [Open.seenAs, hN.exec _ _ _ p _ hp, alone, halone, hN.view_put]
        exact ⟨trivial, hwritten⟩
  | raise e =>
      rcases fault with _ | e' | e' <;>
        simp only [Nested.ends, hr, Option.some.injEq, Prod.mk.injEq, reduceCtorEq] at hends <;>
        obtain ⟨rfl, rfl⟩ := hends
      · simp only [Open.seenAs, hr]
        exact ⟨h.refused hN e, hrolled⟩
      · exact ⟨h.refused hN e', hrolled⟩
  | call d k =>
      rcases fault with _ | e | e <;>
        simp only [Nested.ends, hr, Option.some.injEq, Prod.mk.injEq, reduceCtorEq] at hends
      obtain ⟨rfl, rfl⟩ := hends
      exact ⟨h.refused hN e, hrolled⟩

/-- **A transaction is over.** -/
theorem Standing.settle (hN : N.Lawful grows misses) (h : N.Standing v)
    (ho : v.opened i = some o) {answer : Except ε (R o.call)} {s : σ}
    (hf : M.frozen (N.view v.pool.world) (N.view s))
    (hk : ∀ x, x ∉ o.held → M.same x (N.view v.pool.world) (N.view s)) :
    N.Standing (v.settle S i o answer s) := by
  obtain ⟨t, q, hi⟩ := (h i o ho).thread
  simp only [Server.settle, hi]
  intro j o' hj
  rcases opened_update hj with ⟨-, hnone⟩ | ⟨hji, hj⟩
  · cases hnone
  have hstands := h j o' hj
  refine ⟨?_, ?_, fun l o₂ hl hlj => ?_⟩
  · rw [List.getElem?_set_ne (Ne.symm hji)]
    exact hstands.thread
  · obtain ⟨p, hp, htrace | hgone⟩ := hstands.trace
    · exact ⟨p, hp, Or.inl (htrace.rebase hN.statements hf fun x hx =>
        hk x (hstands.apart i o ho (Ne.symm hji) x hx))⟩
    · exact ⟨p, hp, Or.inr hgone⟩
  · rcases opened_update hl with ⟨-, hnone⟩ | ⟨-, hl⟩
    · cases hnone
    · exact hstands.apart l o₂ hl hlj

/-- The end of a transaction is a step of the pool. -/
theorem Stands.pool_settle (h : N.Stands v i o) {answer : Except ε (R o.call)} {s : σ} {ω : Ω}
    (hexec : S.exec ω o.call v.pool.world = (answer, s)) :
    (v.settle S i o answer s).pool = v.pool.step S (.step i ω) := by
  obtain ⟨t, q, hi⟩ := h.thread
  simp only [Server.settle, Pool.step, hi, hexec]

/-- A thread makes a call that is no transaction. -/
theorem Standing.call (hN : N.Lawful grows misses) (h : N.Standing v) {c : C}
    (hi : v.pool.threads[i]?.bind Thread.head = some c) (hc : N.body c = none) (ω : Ω) :
    N.Standing { v with pool := v.pool.step S (.step i ω) } := by
  obtain ⟨th, hth, hhead⟩ := Option.bind_eq_some_iff.1 hi
  obtain ⟨t, q, rest⟩ := th
  cases rest with
  | ret a => simp [Thread.head] at hhead
  | raise e => simp [Thread.head] at hhead
  | call c' k =>
      obtain rfl : c' = c := by simpa [Thread.head] using hhead
      simp only [Pool.step, hth]
      refine h.beside hN (hN.other ω c' _ hc) fun j o ho => List.getElem?_set_ne ?_
      -- the thread is in no transaction: its next call is none
      rintro rfl
      obtain ⟨t', q', hj⟩ := (h i o ho).thread
      obtain ⟨p, hp, -⟩ := (h i o ho).trace
      rw [hth, Option.some.injEq, Thread.mk.injEq, Prog.call.injEq] at hj
      have hsome : (N.body o.call).isSome := Option.isSome_of_eq_some hp
      rw [← hj.2.2.1, hc] at hsome
      cases hsome

/-- A thread starts. -/
theorem Standing.spawn (hN : N.Lawful grows misses) (h : N.Standing v) (t : T) :
    N.Standing { v with pool := v.pool.step S (.spawn t) } := by
  cases hs : S.spawn t v.pool.world with
  | none =>
      simp only [Pool.step, hs]
      exact h
  | some s =>
      simp only [Pool.step, hs]
      refine h.beside hN (hN.spawn t _ s hs) fun j o ho => ?_
      obtain ⟨_, _, hj⟩ := (h j o ho).thread
      exact List.getElem?_append_left (List.getElem?_eq_some_iff.1 hj).1

/-- **One move**: what the transactions have done stands, and the pool makes the steps that
the move is seen as. -/
theorem Standing.step [DecidableEq K] (hN : N.Lawful grows misses) (h : N.Standing v)
    (move : Move T Ω ε) :
    N.Standing (N.step v move) ∧
      (N.step v move).pool = Pool.run S v.pool (N.seen v move) := by
  cases move with
  | spawn t => exact ⟨h.spawn hN t, rfl⟩
  | call i ω =>
      cases hi : v.pool.threads[i]?.bind Thread.head with
      | none =>
          simp only [Nested.step, seen, hi]
          exact ⟨h, rfl⟩
      | some c =>
          cases hc : N.body c with
          | some p =>
              simp only [Nested.step, seen, hi, hc, Option.isSome_some, if_true]
              exact ⟨h, rfl⟩
          | none =>
              simp only [Nested.step, seen, hi, hc, Option.isSome_none, Bool.false_eq_true,
                if_false]
              exact ⟨h.call hN hi hc ω, rfl⟩
  | begin i ω =>
      simp only [Nested.step]
      split
      · rename_i ho hi
        split
        · rename_i p hp
          refine ⟨h.update ⟨⟨_, _, hi⟩, ⟨p, hp, Or.inl .start⟩, fun _ _ _ _ x hx => ?_⟩, rfl⟩
          exact absurd hx List.not_mem_nil
        · exact ⟨h, rfl⟩
      · exact ⟨h, rfl⟩
  | statement i =>
      cases ho : v.opened i with
      | none =>
          simp only [Nested.step, ho]
          exact ⟨h, rfl⟩
      | some o =>
          simp only [Nested.step, ho]
          exact ⟨h.update (h.advance ho), rfl⟩
  | finish i fault =>
      cases ho : v.opened i with
      | none =>
          simp only [Nested.step, seen, ho]
          exact ⟨h, rfl⟩
      | some o =>
          cases hends : N.ends o v.pool.world fault with
          | none =>
              simp only [Nested.step, seen, ho, hends]
              exact ⟨h, rfl⟩
          | some settled =>
              obtain ⟨answer, s⟩ := settled
              obtain ⟨hexec, hf, hk⟩ := (h i o ho).ends hN hends
              simp only [Nested.step, seen, ho, hends]
              exact ⟨h.settle hN ho hf hk, (h i o ho).pool_settle hexec⟩

/-- **The finer version of a system refines it**: after any moves the pool is what the steps
they are seen as make of it. -/
theorem Standing.refines [DecidableEq K] (hN : N.Lawful grows misses) (h : N.Standing v)
    (moves : List (Move T Ω ε)) :
    N.Standing (N.run v moves) ∧
      (N.run v moves).pool = Pool.run S v.pool (N.labels v moves) := by
  induction moves generalizing v with
  | nil => exact ⟨h, rfl⟩
  | cons move moves ih =>
      obtain ⟨hstep, hpool⟩ := h.step hN move
      obtain ⟨hrun, hpools⟩ := ih hstep
      refine ⟨hrun, ?_⟩
      rw [labels, Pool.run_append, ← hpool]
      exact hpools

/-! ### Nothing is lost -/

section Complete

variable [DecidableEq K] {P : Pool T C R ε α σ Q}

theorem run_append (moves moves' : List (Move T Ω ε)) :
    N.run v (moves ++ moves') = N.run (N.run v moves) moves' :=
  List.foldl_append

/-- A transaction that is under way alone waits for nobody. -/
theorem not_blocked_alone (x : Option (Open C R ε α Ω D V K W)) (ks : List K) :
    (⟨P, Function.update (fun _ => none) i x⟩ : Server T C R ε α σ Ω Q D V K W).blocked i ks =
      false := by
  refine List.any_eq_false.2 fun j _ => ?_
  by_cases hji : j = i
  · simp [hji]
  · simp [Server.held, Function.update_of_ne hji]

/-- **A transaction that is under way alone gets to the end of its body**, statement by
statement. -/
theorem exists_statements (P : Pool T C R ε α σ Q) (i : ℕ) (o : Open C R ε α Ω D V K W) :
    ∃ n rest writes held,
      N.run ⟨P, Function.update (fun _ => none) i (some o)⟩ (List.replicate n (.statement i)) =
        ⟨P, Function.update (fun _ => none) i (some { o with rest, writes, held })⟩ ∧
      rest.eval (M.handler (N.env o.drawn)) (M.applyAll writes (N.view P.world)) =
        o.rest.eval (M.handler (N.env o.drawn)) (M.applyAll o.writes (N.view P.world)) ∧
      ∀ d k, rest ≠ .call d k := by
  obtain ⟨call, resume, drawn, rest, writes, held⟩ := o
  induction rest generalizing writes held with
  | ret a => exact ⟨0, .ret a, writes, held, rfl, rfl, nofun⟩
  | raise e => exact ⟨0, .raise e, writes, held, rfl, rfl, nofun⟩
  | call d k ih =>
      let store := M.applyAll writes (N.view P.world)
      obtain ⟨n, rest', writes', held', hrun, heval, hend⟩ :=
        ih (M.exec (N.env drawn) d store).1 (writes ++ (M.exec (N.env drawn) d store).2)
          (M.locks (N.env drawn) d store ++ held)
      refine ⟨n + 1, rest', writes', held', ?_, ?_, hend⟩
      · rw [List.replicate_succ, ← hrun]
        refine congrArg (fun v => N.run v (List.replicate n (.statement i))) ?_
        simp only [Nested.step, Function.update_self, Function.update_idem, Server.advance,
          not_blocked_alone, Bool.false_eq_true, if_false]
        rfl
      · rw [heval, Prog.eval_call, Statements.applyAll_append]
        rfl

omit [DecidableEq K] in
/-- A body that has ended ends the transaction as the fault has it. -/
theorem exists_ends (hN : N.Lawful grows misses) {p : Prog D V ε (R o.call)} {s : σ}
    (heval : o.rest.eval (M.handler (N.env o.drawn)) (M.applyAll o.writes (N.view s)) =
      p.eval (M.handler (N.env o.drawn)) (N.view s))
    (hend : ∀ d k, o.rest ≠ .call d k) (fault : Option (Fault ε)) :
    ∃ fault', N.ends o s fault' = some (N.alone (N.env o.drawn) p s fault) := by
  cases hr : o.rest with
  | ret a =>
      rw [hr, Prog.eval_ret] at heval
      have halone : M.transaction (N.env o.drawn) p (N.view s) =
          (.ok a, M.applyAll o.writes (N.view s)) := by
        simp only [Statements.transaction, ← heval]
      refine ⟨fault, ?_⟩
      rcases fault with _ | e | e <;> simp only [Nested.ends, hr, alone, halone]
  | raise e =>
      rw [hr, Prog.eval_raise] at heval
      have halone : M.transaction (N.env o.drawn) p (N.view s) = (.error e, N.view s) := by
        simp only [Statements.transaction, ← heval]
      -- there is nothing to commit, so an answer that is lost is a transaction broken off
      rcases fault with _ | e' | e'
      · exact ⟨none, by simp only [Nested.ends, hr, alone, halone, hN.put_view]⟩
      · exact ⟨some (.refused e'), rfl⟩
      · exact ⟨some (.refused e'), by simp only [Nested.ends, alone, halone, hN.put_view]⟩
  | call d k => exact absurd hr (hend d k)

/-- **What a single call does, its statements do one by one.** -/
theorem exists_moves (hN : N.Lawful grows misses) {t : T} {q : Q} {c : C}
    {k : Except ε (R c) → Prog C R ε α} (hi : P.threads[i]? = some ⟨t, q, .call c k⟩)
    {p : Prog D V ε (R c)} (hp : N.body c = some p) (ω : Ω) :
    ∃ moves, N.run (start P) moves = start (P.step S (.step i ω)) := by
  obtain ⟨fault, hexec⟩ := hN.meets ω c p P.world hp
  obtain ⟨n, rest, writes, held, hrun, heval, hend⟩ :=
    exists_statements (N := N) P i ⟨c, k, ω, p, [], []⟩
  obtain ⟨fault', hends⟩ := exists_ends hN (o := ⟨c, k, ω, rest, writes, held⟩) heval hend fault
  refine ⟨.begin i ω :: List.replicate n (.statement i) ++ [.finish i fault'], ?_⟩
  have hbegin : N.step (start P) (.begin i ω) =
      ⟨P, Function.update (fun _ => none) i (some ⟨c, k, ω, p, [], []⟩)⟩ := by
    simp only [Nested.step, start, hi, hp]
  rw [run_append, show N.run (start P) (.begin i ω :: List.replicate n (.statement i)) =
    N.run (N.step (start P) (.begin i ω)) (List.replicate n (.statement i)) from rfl, hbegin, hrun]
  show N.step _ (.finish i fault') = _
  simp only [Nested.step, Function.update_self, hends, Server.settle, hi, Function.update_idem,
    start, Pool.step, hexec]
  exact congrArg (Server.mk _) (Function.update_eq_self i fun _ => none)

/-- **Every run of a system is one of its finer version.** -/
theorem exists_run (hN : N.Lawful grows misses) (P : Pool T C R ε α σ Q)
    (labels : List (Label T Ω)) :
    ∃ moves, N.run (start P) moves = start (Pool.run S P labels) := by
  induction labels generalizing P with
  | nil => exact ⟨[], rfl⟩
  | cons l labels ih =>
      obtain ⟨moves', hmoves'⟩ := ih (P.step S l)
      suffices h : ∃ moves, N.run (start P) moves = start (P.step S l) by
        obtain ⟨moves, hmoves⟩ := h
        exact ⟨moves ++ moves', by rw [run_append, hmoves, hmoves']; rfl⟩
      cases l with
      | spawn t => exact ⟨[.spawn t], rfl⟩
      | step i ω =>
          cases hi : P.threads[i]? with
          | none => exact ⟨[], by simp only [Pool.step, hi]; rfl⟩
          | some th =>
              obtain ⟨t, q, rest⟩ := th
              cases rest with
              | ret a => exact ⟨[], by simp only [Pool.step, hi]; rfl⟩
              | raise e => exact ⟨[], by simp only [Pool.step, hi]; rfl⟩
              | call c k =>
                  cases hp : N.body c with
                  | some p => exact exists_moves hN hi hp ω
                  | none =>
                      refine ⟨[.call i ω], ?_⟩
                      have hhead : P.threads[i]?.bind Thread.head = some c := by
                        rw [hi]
                        rfl
                      show N.step (start P) (.call i ω) = _
                      simp only [Nested.step, start, hhead, hp, Option.isSome_none,
                        Bool.false_eq_true, if_false]

end Complete

end Nested
end LedgerEngine
