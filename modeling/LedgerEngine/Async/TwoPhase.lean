/-
# Strict two-phase locking is serializable

Transactions run concurrently over one committed state.  A statement first
takes the locks on the rows it touches, waiting while another transaction holds
one of them; it then reads the latest committed state under the transaction's
own writes.  Its writes stay with the transaction until the body returns, when
they are applied to the committed state, or throws, when they are dropped;
either way all locks are released then and not before.

`Statements` says what the statements of a store are: what they answer and
write, and which rows they lock.  `Statements.Lawful` is what makes the locks
worth taking: a statement's answer depends on the rows it locks and on what no
statement ever changes (`frozen`), and it writes only rows it locks.
`serializable` is the result: whatever the schedule, the committed state and
every answer given are those of running the finished transactions one at a
time, in the order in which they ended.  The invariant behind it (`Inv`) is that an
unfinished transaction could have made all its steps so far at this very moment
(`Trace`), since nobody else can have changed a row it has touched
(`Trace.rebase`).
-/

import LedgerEngine.Async.Program
import Mathlib.Data.List.Nodup

namespace LedgerEngine
namespace TwoPhase

variable {C : Type} {R : C → Type} {ε α σ E K W : Type}

/-- The statements of a store with state `σ`.  A transaction carries an
environment `E` (the ids and times the server draws for it); `K` names rows
and `W` is a write of one row. -/
structure Statements (C : Type) (R : C → Type) (ε σ E K W : Type) where
  /-- What a statement answers on the state it sees, and what it writes. -/
  exec : E → (c : C) → σ → Except ε (R c) × List W
  /-- A row write applied to a state. -/
  apply : W → σ → σ
  /-- The row a write is about. -/
  keyOf : W → K
  /-- The rows a statement locks before it answers. -/
  locks : E → C → σ → List K
  /-- The two states hold the same row under a key. -/
  same : K → σ → σ → Prop
  /-- The two states agree on what no statement changes. -/
  frozen : σ → σ → Prop

namespace Statements

/-- A list of row writes applied in order. -/
def applyAll (M : Statements C R ε σ E K W) (ws : List W) (s : σ) : σ :=
  ws.foldl (fun s w => M.apply w s) s

/-- The statements as a handler: each answers and writes at once. -/
def handler (M : Statements C R ε σ E K W) (env : E) : Prog.Handler C R ε σ :=
  fun c s => ((M.exec env c s).1, M.applyAll (M.exec env c s).2 s)

/-- A transaction on its own: its writes take effect if the body returns, and
none of them does if it throws. -/
def transaction (M : Statements C R ε σ E K W) (env : E) (body : Prog C R ε α) (s : σ) :
    Except ε α × σ :=
  match body.eval (M.handler env) s with
  | (.ok a, s') => (.ok a, s')
  | (.error e, _) => (.error e, s)

/-- What two-phase locking needs of the statements. -/
structure Lawful (M : Statements C R ε σ E K W) : Prop where
  same_refl : ∀ k s, M.same k s s
  same_symm : ∀ {k s s'}, M.same k s s' → M.same k s' s
  same_trans : ∀ {k s s' s''}, M.same k s s' → M.same k s' s'' → M.same k s s''
  frozen_refl : ∀ s, M.frozen s s
  frozen_symm : ∀ {s s'}, M.frozen s s' → M.frozen s' s
  frozen_trans : ∀ {s s' s''}, M.frozen s s' → M.frozen s' s'' → M.frozen s s''
  /-- The row a write leaves depends on the row it found and on no other. -/
  same_apply : ∀ {k s s'} w, M.same k s s' → M.same k (M.apply w s) (M.apply w s')
  /-- A write leaves the other rows alone. -/
  same_apply_of_ne : ∀ {k w} s, k ≠ M.keyOf w → M.same k s (M.apply w s)
  frozen_apply : ∀ w s, M.frozen s (M.apply w s)
  /-- A statement depends on the rows it locks and on what is frozen. -/
  exec_congr : ∀ {env c s s'}, M.frozen s s' → (∀ k ∈ M.locks env c s, M.same k s s') →
    M.exec env c s = M.exec env c s' ∧ M.locks env c s = M.locks env c s'
  /-- A statement writes only rows it locks. -/
  keyOf_mem_locks : ∀ {env c s w}, w ∈ (M.exec env c s).2 → M.keyOf w ∈ M.locks env c s

variable {M : Statements C R ε σ E K W}

@[simp] theorem applyAll_nil (s : σ) : M.applyAll [] s = s := rfl

theorem applyAll_append (ws ws' : List W) (s : σ) :
    M.applyAll (ws ++ ws') s = M.applyAll ws' (M.applyAll ws s) :=
  List.foldl_append

theorem Lawful.same_applyAll (hM : M.Lawful) (ws : List W) {k : K} {s s' : σ}
    (h : M.same k s s') : M.same k (M.applyAll ws s) (M.applyAll ws s') := by
  induction ws generalizing s s' with
  | nil => exact h
  | cons w ws ih => exact ih (hM.same_apply w h)

theorem Lawful.same_applyAll_of_notMem (hM : M.Lawful) {ws : List W} {k : K}
    (hk : ∀ w ∈ ws, k ≠ M.keyOf w) (s : σ) : M.same k s (M.applyAll ws s) := by
  induction ws generalizing s with
  | nil => exact hM.same_refl k s
  | cons w ws ih =>
      exact hM.same_trans (hM.same_apply_of_ne s (hk w (List.mem_cons_self ..)))
        (ih (fun w' hw' => hk w' (List.mem_cons_of_mem _ hw')) _)

theorem Lawful.frozen_applyAll (hM : M.Lawful) (ws : List W) (s : σ) :
    M.frozen s (M.applyAll ws s) := by
  induction ws generalizing s with
  | nil => exact hM.frozen_refl s
  | cons w ws ih => exact hM.frozen_trans (hM.frozen_apply w s) (ih _)

end Statements

/-! ### Concurrent transactions -/

/-- A transaction under way: what is left of its body, the writes it has made,
the rows it holds and, once it has ended, its answer. -/
structure Txn (C : Type) (R : C → Type) (ε α E K W : Type) where
  env : E
  body : Prog C R ε α
  rest : Prog C R ε α
  writes : List W
  held : List K
  answer : Option (Except ε α)

/-- The server: the committed state, the transactions by number, and the
numbers of the ended ones in the order in which they ended. -/
structure Server (C : Type) (R : C → Type) (ε α σ E K W : Type) where
  committed : σ
  txns : List (Txn C R ε α E K W)
  ended : List ℕ

/-- A transaction that has not made a step. -/
def Txn.begin (env : E) (body : Prog C R ε α) : Txn C R ε α E K W :=
  { env, body, rest := body, writes := [], held := [], answer := none }

/-- The server before the first step of any transaction. -/
def Server.start (reqs : List (E × Prog C R ε α)) (s : σ) : Server C R ε α σ E K W :=
  { committed := s, txns := reqs.map fun r => .begin r.1 r.2, ended := [] }

variable [DecidableEq K]

/-- Some transaction other than number `i` holds one of the rows. -/
def Server.blocked (v : Server C R ε α σ E K W) (i : ℕ) (ks : List K) : Bool :=
  v.txns.zipIdx.any fun tj => tj.2 != i && ks.any fun k => decide (k ∈ tj.1.held)

/-- Transaction `i` ends with an answer, having released its locks. -/
def Server.finish (v : Server C R ε α σ E K W) (i : ℕ) (t : Txn C R ε α E K W)
    (answer : Except ε α) (s : σ) : Server C R ε α σ E K W :=
  { committed := s, txns := v.txns.set i { t with held := [], answer := some answer },
    ended := v.ended ++ [i] }

/-- One step of transaction `i`: the next statement, or a wait where a row it
needs is held, or the commit or rollback.  An ended transaction makes no step. -/
def step (M : Statements C R ε σ E K W) (v : Server C R ε α σ E K W) (i : ℕ) :
    Server C R ε α σ E K W :=
  match v.txns[i]? with
  | none => v
  | some t =>
    match t.answer, t.rest with
    | some _, _ => v
    | none, .ret a => v.finish i t (.ok a) (M.applyAll t.writes v.committed)
    | none, .raise e => v.finish i t (.error e) v.committed
    | none, .call c k =>
      let view := M.applyAll t.writes v.committed
      let ks := M.locks t.env c view
      if v.blocked i ks then v
      else { v with txns := v.txns.set i { t with
        rest := k (M.exec t.env c view).1
        writes := t.writes ++ (M.exec t.env c view).2
        held := ks ++ t.held } }

/-- The requests with the given numbers served one at a time: the answers and
the state afterwards. -/
def serial (M : Statements C R ε σ E K W) (reqs : List (E × Prog C R ε α)) (order : List ℕ)
    (s : σ) : List (Except ε α) × σ :=
  order.foldl (fun acc i =>
    match reqs[i]? with
    | none => acc
    | some r => (acc.1 ++ [(M.transaction r.1 r.2 acc.2).1], (M.transaction r.1 r.2 acc.2).2))
    ([], s)

/-- What transaction `i` answered, if it has ended. -/
def Server.answer? (v : Server C R ε α σ E K W) (i : ℕ) : Option (Except ε α) :=
  v.txns[i]?.bind Txn.answer

/-! ### The invariant -/

/-- `Trace M env s held body rest ws`: started on the state `s` and run alone,
`body` reaches `rest` with the writes `ws`, locking only rows of `held`. -/
inductive Trace (M : Statements C R ε σ E K W) (env : E) (s : σ) (held : List K)
    (body : Prog C R ε α) : Prog C R ε α → List W → Prop
  | start : Trace M env s held body body []
  | next {c : C} {k : Except ε (R c) → Prog C R ε α} {ws : List W} :
      Trace M env s held body (.call c k) ws →
      (∀ x ∈ M.locks env c (M.applyAll ws s), x ∈ held) →
      Trace M env s held body (k (M.exec env c (M.applyAll ws s)).1)
        (ws ++ (M.exec env c (M.applyAll ws s)).2)

variable {M : Statements C R ε σ E K W}

omit [DecidableEq K] in
theorem Trace.mono {env : E} {s : σ} {held held' : List K} {body rest : Prog C R ε α}
    {ws : List W} (h : Trace M env s held body rest ws) (hh : ∀ x ∈ held, x ∈ held') :
    Trace M env s held' body rest ws := by
  induction h with
  | start => exact .start
  | next _ hl ih => exact .next ih fun x hx => hh x (hl x hx)

omit [DecidableEq K] in
/-- **A transaction's steps could have been made on any state that agrees on
the rows it holds.** -/
theorem Trace.rebase (hM : M.Lawful) {env : E} {s s' : σ} {held : List K}
    {body rest : Prog C R ε α} {ws : List W} (h : Trace M env s held body rest ws)
    (hf : M.frozen s s') (hs : ∀ x ∈ held, M.same x s s') :
    Trace M env s' held body rest ws := by
  induction h with
  | start => exact .start
  | @next c k ws _ hl ih =>
      have hfv : M.frozen (M.applyAll ws s) (M.applyAll ws s') :=
        hM.frozen_trans (hM.frozen_symm (hM.frozen_applyAll ws s))
          (hM.frozen_trans hf (hM.frozen_applyAll ws s'))
      obtain ⟨he, hlk⟩ := hM.exec_congr hfv fun x hx => hM.same_applyAll ws (hs x (hl x hx))
      rw [he]
      exact .next ih (hlk ▸ hl)

omit [DecidableEq K] in
/-- Every write of a trace is about a row it holds. -/
theorem Trace.keyOf_mem (hM : M.Lawful) {env : E} {s : σ} {held : List K}
    {body rest : Prog C R ε α} {ws : List W} (h : Trace M env s held body rest ws) :
    ∀ w ∈ ws, M.keyOf w ∈ held := by
  induction h with
  | start => simp
  | next _ hl ih =>
      intro w hw
      rcases List.mem_append.1 hw with hw | hw
      · exact ih w hw
      · exact hl _ (hM.keyOf_mem_locks hw)

omit [DecidableEq K] in
/-- Running the body alone goes through the trace. -/
theorem Trace.eval_eq {env : E} {s : σ} {held : List K} {body rest : Prog C R ε α} {ws : List W}
    (h : Trace M env s held body rest ws) :
    body.eval (M.handler env) s = rest.eval (M.handler env) (M.applyAll ws s) := by
  induction h with
  | start => rfl
  | next _ _ ih =>
      rw [ih, Prog.eval_call, Statements.applyAll_append]
      rfl

omit [DecidableEq K] in
theorem Trace.transaction_ret {env : E} {s : σ} {held : List K} {body : Prog C R ε α} {a : α}
    {ws : List W} (h : Trace M env s held body (.ret a) ws) :
    M.transaction env body s = (.ok a, M.applyAll ws s) := by
  unfold Statements.transaction
  rw [h.eval_eq, Prog.eval_ret]

omit [DecidableEq K] in
theorem Trace.transaction_raise {env : E} {s : σ} {held : List K} {body : Prog C R ε α} {e : ε}
    {ws : List W} (h : Trace M env s held body (.raise e) ws) :
    M.transaction env body s = (.error e, s) := by
  unfold Statements.transaction
  rw [h.eval_eq, Prog.eval_raise]

/-- What holds after every step: an unfinished transaction could have made its
steps on the state committed now, no two transactions hold the same row, and
the committed state and the answers are those of the ended requests one by
one. -/
structure Inv (M : Statements C R ε σ E K W) (reqs : List (E × Prog C R ε α)) (s₀ : σ)
    (v : Server C R ε α σ E K W) : Prop where
  requests : v.txns.map (fun t => (t.env, t.body)) = reqs
  trace : ∀ (i : ℕ) (t : Txn C R ε α E K W), v.txns[i]? = some t → t.answer = none →
    Trace M t.env v.committed t.held t.body t.rest t.writes
  disjoint : ∀ (i j : ℕ) (t u : Txn C R ε α E K W), v.txns[i]? = some t → v.txns[j]? = some u → i ≠ j →
    ∀ x ∈ t.held, x ∉ u.held
  ended_iff : ∀ i, i ∈ v.ended ↔ (v.answer? i).isSome
  nodup : v.ended.Nodup
  answers : (serial M reqs v.ended s₀).1.map some = v.ended.map v.answer?
  committed : (serial M reqs v.ended s₀).2 = v.committed

omit [DecidableEq K] in
theorem serial_append (reqs : List (E × Prog C R ε α)) (order : List ℕ) (i : ℕ) (s : σ)
    {r : E × Prog C R ε α} (hr : reqs[i]? = some r) :
    serial M reqs (order ++ [i]) s =
      ((serial M reqs order s).1 ++ [(M.transaction r.1 r.2 (serial M reqs order s).2).1],
        (M.transaction r.1 r.2 (serial M reqs order s).2).2) := by
  simp only [serial, List.foldl_append, List.foldl_cons, List.foldl_nil, hr]

omit [DecidableEq K] in
theorem inv_start (reqs : List (E × Prog C R ε α)) (s : σ) :
    Inv M reqs s (Server.start reqs s) where
  requests := by simp [Server.start, Txn.begin, Function.comp_def]
  trace i t ht _ := by
    simp only [Server.start, List.getElem?_map, Option.map_eq_some_iff] at ht
    obtain ⟨r, -, rfl⟩ := ht
    exact .start
  disjoint i j t u ht _ _ x hx := by
    simp only [Server.start, List.getElem?_map, Option.map_eq_some_iff] at ht
    obtain ⟨r, -, rfl⟩ := ht
    simp [Txn.begin] at hx
  ended_iff i := by
    simp only [Server.start, Server.answer?, List.getElem?_map]
    cases reqs[i]? <;> simp [Txn.begin]
  nodup := List.nodup_nil
  answers := rfl
  committed := rfl

/-- A statement is not blocked when nobody else holds a row it locks. -/
theorem Server.not_blocked {v : Server C R ε α σ E K W} {i : ℕ} {ks : List K}
    (h : v.blocked i ks = false) {j : ℕ} {u : Txn C R ε α E K W} (hu : v.txns[j]? = some u)
    (hij : j ≠ i) : ∀ x ∈ ks, x ∉ u.held := by
  intro x hx hxu
  have hm : (u, j) ∈ v.txns.zipIdx := by simpa [List.mem_zipIdx_iff_getElem?] using hu
  have := List.any_eq_false.1 h _ hm
  simp only [Bool.and_eq_true, bne_iff_ne, List.any_eq_true, decide_eq_true_eq, not_and,
    not_exists] at this
  exact this hij x hx hxu

omit [DecidableEq K] in
theorem requests_set {ts : List (Txn C R ε α E K W)} {i : ℕ} {t : Txn C R ε α E K W}
    (ht : ts[i]? = some t) (t' : Txn C R ε α E K W) (he : t'.env = t.env)
    (hb : t'.body = t.body) :
    (ts.set i t').map (fun t => (t.env, t.body)) = ts.map fun t => (t.env, t.body) := by
  refine List.ext_getElem? fun j => ?_
  rw [List.getElem?_map, List.getElem?_map, List.getElem?_set]
  split_ifs with hij hlt
  · subst hij
    simp [ht, he, hb]
  · subst hij
    simp [List.getElem?_eq_none (Nat.le_of_not_lt hlt)]
  · rfl

omit [DecidableEq K] in
/-- No two transactions hold the same row, if one of them takes rows that no other holds. -/
theorem disjoint_set {ts : List (Txn C R ε α E K W)}
    (h : ∀ (i j : ℕ) (t u : Txn C R ε α E K W), ts[i]? = some t → ts[j]? = some u →
      i ≠ j → ∀ x ∈ t.held, x ∉ u.held) {i : ℕ} {t' : Txn C R ε α E K W}
    (hothers : ∀ (j : ℕ) (u : Txn C R ε α E K W), ts[j]? = some u → j ≠ i →
      ∀ x ∈ t'.held, x ∉ u.held)
    (j l : ℕ) (u w : Txn C R ε α E K W) (hu : (ts.set i t')[j]? = some u)
    (hw : (ts.set i t')[l]? = some w) (hjl : j ≠ l) : ∀ x ∈ u.held, x ∉ w.held := by
  intro x hx hxw
  rcases getElem?_set_some hu with ⟨rfl, rfl⟩ | ⟨hji, hu'⟩
  · rcases getElem?_set_some hw with ⟨rfl, rfl⟩ | ⟨hli, hw'⟩
    · exact hjl rfl
    · exact hothers l w hw' hli x hx hxw
  · rcases getElem?_set_some hw with ⟨rfl, rfl⟩ | ⟨-, hw'⟩
    · exact hothers j u hu' hji x hxw hx
    · exact h j l u w hu' hw' hjl x hx hxw

/-- A statement that is not blocked takes rows that no other transaction holds. -/
theorem disjoint_lock {v : Server C R ε α σ E K W}
    (h : ∀ (i j : ℕ) (t u : Txn C R ε α E K W), v.txns[i]? = some t → v.txns[j]? = some u →
      i ≠ j → ∀ x ∈ t.held, x ∉ u.held) {i : ℕ} {t t' : Txn C R ε α E K W}
    (ht : v.txns[i]? = some t) {ks : List K} (hb : v.blocked i ks = false)
    (hheld : t'.held = ks ++ t.held) (j l : ℕ) (u w : Txn C R ε α E K W)
    (hu : (v.txns.set i t')[j]? = some u) (hw : (v.txns.set i t')[l]? = some w) (hjl : j ≠ l) :
    ∀ x ∈ u.held, x ∉ w.held := by
  refine disjoint_set h (fun j u hu hji x hx => ?_) j l u w hu hw hjl
  rw [hheld] at hx
  rcases List.mem_append.1 hx with hx | hx
  · exact v.not_blocked hb hu hji x hx
  · exact h i j t u ht hu hji.symm x hx

omit [DecidableEq K] in
/-- The answers after a transaction has moved on without one. -/
theorem answer?_set {v : Server C R ε α σ E K W} {i : ℕ} {t t' : Txn C R ε α E K W}
    (ht : v.txns[i]? = some t) (ha : t'.answer = t.answer) (j : ℕ) :
    ({ v with txns := v.txns.set i t' } : Server C R ε α σ E K W).answer? j = v.answer? j := by
  simp only [Server.answer?, List.getElem?_set]
  split_ifs with hij hlt
  · subst hij
    simp [ht, ha]
  · subst hij
    simp [List.getElem?_eq_none (Nat.le_of_not_lt hlt)]
  · rfl

/-- **The invariant survives a statement.** -/
theorem Inv.statement {reqs : List (E × Prog C R ε α)} {s₀ : σ}
    {v : Server C R ε α σ E K W} (h : Inv M reqs s₀ v) {i : ℕ} {t : Txn C R ε α E K W}
    (ht : v.txns[i]? = some t) (ha : t.answer = none) {c : C}
    {k : Except ε (R c) → Prog C R ε α} (hr : t.rest = .call c k)
    (hb : v.blocked i (M.locks t.env c (M.applyAll t.writes v.committed)) = false) :
    Inv M reqs s₀ { v with txns := v.txns.set i { t with
      rest := k (M.exec t.env c (M.applyAll t.writes v.committed)).1
      writes := t.writes ++ (M.exec t.env c (M.applyAll t.writes v.committed)).2
      held := M.locks t.env c (M.applyAll t.writes v.committed) ++ t.held } } where
  requests := by refine (requests_set ht _ ?_ ?_).trans h.requests <;> rfl
  trace j u hu hau := by
    rcases getElem?_set_some hu with ⟨rfl, rfl⟩ | ⟨-, hu'⟩
    · have htr := h.trace j t ht ha
      rw [hr] at htr
      exact .next (htr.mono fun x hx => List.mem_append_right _ hx)
        fun x hx => List.mem_append_left _ hx
    · exact h.trace j u hu' hau
  disjoint := disjoint_lock h.disjoint ht hb rfl
  ended_iff j := by
    rw [h.ended_iff j, answer?_set ht]
    rfl
  nodup := h.nodup
  answers := by
    rw [h.answers]
    refine List.map_congr_left fun j _ => ?_
    rw [answer?_set ht]
    rfl
  committed := h.committed

omit [DecidableEq K] in
/-- **The invariant survives the end of a transaction** whose answer and whose
effect on the committed state are those of running it alone on that state, and
which changes only rows it holds. -/
theorem Inv.finish (hM : M.Lawful) {reqs : List (E × Prog C R ε α)} {s₀ : σ}
    {v : Server C R ε α σ E K W} (h : Inv M reqs s₀ v) {i : ℕ} {t : Txn C R ε α E K W}
    (ht : v.txns[i]? = some t) (ha : t.answer = none) {r : Except ε α} {s : σ}
    (hs : M.transaction t.env t.body v.committed = (r, s)) (hf : M.frozen v.committed s)
    (hk : ∀ x, x ∉ t.held → M.same x v.committed s) : Inv M reqs s₀ (v.finish i t r s) := by
  have hlt : i < v.txns.length := (List.getElem?_eq_some_iff.1 ht).1
  have hans : ∀ j, j ≠ i → (v.finish i t r s).answer? j = v.answer? j := fun j hji => by
    simp only [Server.answer?, Server.finish, List.getElem?_set, if_neg (Ne.symm hji)]
  have hansi : (v.finish i t r s).answer? i = some r := by
    simp [Server.answer?, Server.finish, hlt]
  have hni : i ∉ v.ended := fun hi => by
    have := (h.ended_iff i).1 hi
    simp [Server.answer?, ht, ha] at this
  have hreq : reqs[i]? = some (t.env, t.body) := by
    rw [← h.requests, List.getElem?_map, ht]
    rfl
  have hser := serial_append (M := M) reqs v.ended i s₀ hreq
  rw [h.committed, hs] at hser
  constructor
  · refine (requests_set ht _ ?_ ?_).trans h.requests <;> rfl
  · intro j u hu hau
    rcases getElem?_set_some hu with ⟨rfl, rfl⟩ | ⟨hji, hu'⟩
    · simp at hau
    · exact (h.trace j u hu' hau).rebase hM hf fun x hx =>
        hk x (h.disjoint j i u t hu' ht hji x hx)
  · exact disjoint_set h.disjoint fun _ _ _ _ x hx => absurd hx List.not_mem_nil
  · intro j
    by_cases hji : j = i
    · rw [hji, hansi]
      simp [Server.finish]
    · rw [hans j hji, ← h.ended_iff j]
      simp [Server.finish, hji]
  · exact List.nodup_append'.2 ⟨h.nodup, List.nodup_singleton i, by simpa using hni⟩
  · show (serial M reqs (v.ended ++ [i]) s₀).1.map some = (v.ended ++ [i]).map _
    rw [hser, List.map_append, List.map_append, h.answers, List.map_singleton, List.map_singleton,
      hansi]
    congr 1
    exact List.map_congr_left fun j hj => (hans j fun e => hni (e ▸ hj)).symm
  · show (serial M reqs (v.ended ++ [i]) s₀).2 = s
    rw [hser]

/-- **The invariant survives every step.** -/
theorem Inv.step (hM : M.Lawful) {reqs : List (E × Prog C R ε α)} {s₀ : σ}
    {v : Server C R ε α σ E K W} (h : Inv M reqs s₀ v) (i : ℕ) :
    Inv M reqs s₀ (step M v i) := by
  cases ht : v.txns[i]? with
  | none => simpa only [TwoPhase.step, ht] using h
  | some t =>
      cases ha : t.answer with
      | some _ => simpa only [TwoPhase.step, ht, ha] using h
      | none =>
          have htr := h.trace i t ht ha
          cases hr : t.rest with
          | ret a =>
              rw [hr] at htr
              simp only [TwoPhase.step, ht, ha, hr]
              refine h.finish hM ht ha htr.transaction_ret (hM.frozen_applyAll _ _) fun x hx => ?_
              exact hM.same_applyAll_of_notMem
                (fun w hw (e : x = M.keyOf w) => hx (e ▸ htr.keyOf_mem hM w hw)) _
          | raise e =>
              rw [hr] at htr
              simp only [TwoPhase.step, ht, ha, hr]
              exact h.finish hM ht ha htr.transaction_raise (hM.frozen_refl _)
                fun x _ => hM.same_refl x _
          | call c k =>
              simp only [TwoPhase.step, ht, ha, hr]
              split_ifs with hb
              · exact h
              · simpa only [ha] using h.statement ht ha hr (by simpa using hb)

/-- **Strict two-phase locking is serializable.**  After any schedule the
transactions that have ended, taken one at a time in the order in which they
ended, give the committed state and the answers that were given. -/
theorem serializable (hM : M.Lawful) (reqs : List (E × Prog C R ε α)) (s₀ : σ)
    (schedule : List ℕ) :
    Inv M reqs s₀ (schedule.foldl (TwoPhase.step M) (Server.start reqs s₀)) := by
  suffices h : ∀ v, Inv M reqs s₀ v → Inv M reqs s₀ (schedule.foldl (TwoPhase.step M) v) from
    h _ (inv_start reqs s₀)
  induction schedule with
  | nil => exact fun v hv => hv
  | cons i is ih => exact fun v hv => ih _ (hv.step hM i)

end TwoPhase
end LedgerEngine
