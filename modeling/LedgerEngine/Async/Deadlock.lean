/-
# Ordered locks never deadlock

Transactions take the rows their statements need one at a time (`lockStep`): a
transaction whose next row is held by another waits, and holds what it has until
it commits or rolls back.  A deadlock is a cycle of transactions each waiting
for a row the next one holds (`WaitsFor`).

There is none if the rows that several transactions may want are taken in one
order (`Orderly`): the next such row a transaction takes comes after all it
holds, so along a chain of waiting transactions the wanted rows only grow
(`acyclic`).  Where nobody waits in a circle, somebody can go on (`progress`).
-/

import LedgerEngine.Async.TwoPhase
import Mathlib.Data.Fintype.EquivFin
import Mathlib.Order.WellFounded

namespace LedgerEngine

namespace Prog

variable {C : Type} {R : C → Type} {ε α : Type}

/-- A program is none of its own continuations. -/
theorem call_ne_self {c : C} {k : Except ε (R c) → Prog C R ε α} (r : Except ε (R c)) :
    k r ≠ .call c k := by
  suffices h : ∀ (p : Prog C R ε α) (c : C) (k : Except ε (R c) → Prog C R ε α)
      (r : Except ε (R c)), p = .call c k → k r ≠ p from fun hk => h _ c k r rfl hk
  intro p
  induction p with
  | ret a => rintro c k r ⟨⟩
  | raise e => rintro c k r ⟨⟩
  | call c' k' ih =>
      rintro c k r ⟨⟩ hk
      exact ih r c' k' r hk rfl

end Prog

namespace TwoPhase

variable {C : Type} {R : C → Type} {ε α β σ E K W : Type}

section Semantics

variable [DecidableEq K]

/-- The row a transaction has to lock next: the first its next statement needs
and it does not hold. -/
def Txn.wants (M : Statements C R ε σ E K W) (s : σ) (t : Txn C R ε α E K W) : Option K :=
  match t.answer, t.rest with
  | none, .call c _ => (M.locks t.env c (M.applyAll t.writes s)).find? fun x => x ∉ t.held
  | _, _ => none

/-- One step of transaction `i`, which takes one row lock or, when it holds all
its next statement needs, runs that statement, commits or rolls back. -/
def lockStep (M : Statements C R ε σ E K W) (v : Server C R ε α σ E K W) (i : ℕ) :
    Server C R ε α σ E K W :=
  match v.txns[i]? with
  | none => v
  | some t =>
    match t.wants M v.committed with
    | some x =>
      if v.blocked i [x] then v
      else { v with txns := v.txns.set i { t with held := x :: t.held } }
    | none =>
      match t.answer, t.rest with
      | some _, _ => v
      | none, .ret a => v.finish i t (.ok a) (M.applyAll t.writes v.committed)
      | none, .raise e => v.finish i t (.error e) v.committed
      | none, .call c k =>
        let view := M.applyAll t.writes v.committed
        { v with txns := v.txns.set i { t with
          rest := k (M.exec t.env c view).1
          writes := t.writes ++ (M.exec t.env c view).2 } }

/-- Transaction `i` waits for a row that transaction `j` holds. -/
def WaitsFor (M : Statements C R ε σ E K W) (v : Server C R ε α σ E K W) (i j : ℕ) : Prop :=
  i ≠ j ∧ ∃ t t' x, v.txns[i]? = some t ∧ v.txns[j]? = some t' ∧
    t.wants M v.committed = some x ∧ x ∈ t'.held

/-- Transaction `i` has not ended. -/
def Server.Unfinished (v : Server C R ε α σ E K W) (i : ℕ) : Prop :=
  ∃ t, v.txns[i]? = some t ∧ t.answer = none

/-- Somebody else holds one of the rows. -/
theorem Server.blocked_iff {v : Server C R ε α σ E K W} {i : ℕ} {x : K} :
    v.blocked i [x] = true ↔ ∃ j t, v.txns[j]? = some t ∧ i ≠ j ∧ x ∈ t.held := by
  unfold Server.blocked
  simp only [List.any_eq_true, Prod.exists, List.mk_mem_zipIdx_iff_getElem?, Bool.and_eq_true,
    bne_iff_ne, List.mem_singleton, exists_eq_left, decide_eq_true_eq]
  constructor
  · rintro ⟨t, j, ht, hj, hx⟩
    exact ⟨j, t, ht, fun h => hj h.symm, hx⟩
  · rintro ⟨j, t, ht, hj, hx⟩
    exact ⟨t, j, ht, fun h => hj h.symm, hx⟩

end Semantics

/-! ### The order of the rows -/

/-- Which rows several transactions may want, in which order they are to be
taken, and which rows are a transaction's own. -/
structure LockOrder (E K : Type) where
  shared : K → Prop
  before : K → K → Prop
  own : E → K → Prop
  irrefl : ∀ x, ¬ before x x
  trans : ∀ {x y z}, before x y → before y z → before x z

namespace LockOrder

variable (O : LockOrder E K) (M : Statements C R ε σ E K W) (s₀ : σ)

/-- Of the rows of `ks` a transaction that holds `held` takes those it owns, and
at most one shared row, which comes after every shared row it holds. -/
def Climbs (env : E) (held ks : List K) : Prop :=
  ∀ x ∈ ks, x ∈ held ∨ (¬ O.shared x ∧ O.own env x) ∨
    (O.shared x ∧ (∀ h ∈ held, O.shared h → O.before h x) ∧
      ∀ y ∈ ks, O.shared y → y ∈ held ∨ y = x)

/-- From any state that agrees with `s₀` on what never changes, the program
climbs with every statement, starting with the rows `held`; where it returns,
`post` holds of the value and of the rows held by then. -/
def Orderly (env : E) : Prog C R ε α → List K → (α → List K → Prop) → Prop
  | .ret a, held, post => post a held
  | .raise _, _, _ => True
  | .call c k, held, post =>
      O.Climbs env held (M.locks env c s₀) ∧
        ∀ s, M.frozen s₀ s → Orderly env (k (M.exec env c s).1) (M.locks env c s₀ ++ held) post

variable {O M s₀} {env : E}

theorem Climbs.congr {held held' ks : List K} (h : O.Climbs env held ks)
    (hh : ∀ x, x ∈ held ↔ x ∈ held') : O.Climbs env held' ks := by
  intro x hx
  rcases h x hx with hx | hx | ⟨hs, hb, hu⟩
  · exact Or.inl ((hh x).1 hx)
  · exact Or.inr (Or.inl hx)
  · refine Or.inr (Or.inr ⟨hs, fun y hy => hb y ((hh y).2 hy), fun y hy hsy => ?_⟩)
    exact (hu y hy hsy).imp_left (hh y).1

/-- A row that is taken leaves the rest of the statement's rows in order. -/
theorem Climbs.take {held ks : List K} {x : K} (h : O.Climbs env held ks) (hx : x ∈ ks) :
    O.Climbs env (x :: held) ks := by
  intro y hy
  by_cases hyx : y = x
  · exact Or.inl (hyx ▸ List.mem_cons_self ..)
  rcases h y hy with hm | hm | ⟨hs, hb, hu⟩
  · exact Or.inl (List.mem_cons_of_mem _ hm)
  · exact Or.inr (Or.inl hm)
  · refine Or.inr (Or.inr ⟨hs, fun z hz hsz => ?_, fun z hz hsz => ?_⟩)
    · rcases List.mem_cons.1 hz with rfl | hz
      · -- `z` was not the one new shared row, so it was held before
        exact hb z ((hu z hx hsz).resolve_right fun e => hyx e.symm) hsz
      · exact hb z hz hsz
    · exact (hu z hz hsz).imp_left (List.mem_cons_of_mem _)

theorem Orderly.congr {p : Prog C R ε α} {held held' : List K} {post : α → List K → Prop}
    (hpost : ∀ a l l', (∀ x, x ∈ l ↔ x ∈ l') → post a l → post a l')
    (h : O.Orderly M s₀ env p held post) (hh : ∀ x, x ∈ held ↔ x ∈ held') :
    O.Orderly M s₀ env p held' post := by
  induction p generalizing held held' with
  | ret a => exact hpost a held held' hh h
  | raise e => trivial
  | call c k ih =>
      obtain ⟨hclimb, hrest⟩ := h
      refine ⟨hclimb.congr hh, fun s hs => ih _ (hrest s hs) fun x => ?_⟩
      rw [List.mem_append, List.mem_append, hh x]

/-- **A sequence is orderly** when its second half is, from the rows the first
half leaves held. -/
theorem Orderly.bind {p : Prog C R ε α} {f : α → Prog C R ε β} {held : List K}
    {post : β → List K → Prop}
    (h : O.Orderly M s₀ env p held fun a l => O.Orderly M s₀ env (f a) l post) :
    O.Orderly M s₀ env (p.bind f) held post := by
  induction p generalizing held with
  | ret a => exact h
  | raise e => trivial
  | call c k ih => exact ⟨h.1, fun s hs => ih _ (h.2 s hs)⟩

/-- One statement. -/
theorem Orderly.await {c : C} {held : List K} {post : R c → List K → Prop}
    (hclimb : O.Climbs env held (M.locks env c s₀))
    (hpost : ∀ s r, M.frozen s₀ s → (M.exec env c s).1 = .ok r →
      post r (M.locks env c s₀ ++ held)) :
    O.Orderly M s₀ env (.await c) held post := by
  refine ⟨hclimb, fun s hs => ?_⟩
  cases hr : (M.exec env c s).1 with
  | ok r => exact hpost s r hs hr
  | error e => trivial

end LockOrder

/-! ### Every state reached is orderly -/

section Runs

variable [DecidableEq K] {O : LockOrder E K} {M : Statements C R ε σ E K W} {s₀ : σ}

/-- A transaction under way climbs from the rows it holds, which are shared rows
and its own; one that has ended holds nothing. -/
structure Txn.Climbing (O : LockOrder E K) (M : Statements C R ε σ E K W) (s₀ : σ)
    (t : Txn C R ε α E K W) : Prop where
  none_held : t.answer ≠ none → t.held = []
  held : ∀ x ∈ t.held, O.shared x ∨ O.own t.env x
  rest : t.answer = none → O.Orderly M s₀ t.env t.rest t.held fun _ _ => True

omit [DecidableEq K] in
/-- A transaction that commits or rolls back lets go of its rows. -/
theorem Txn.Climbing.ended (t : Txn C R ε α E K W) (answer : Except ε α) :
    Txn.Climbing O M s₀ { t with held := [], answer := some answer } := by
  refine ⟨fun _ => rfl, fun x hx => absurd hx List.not_mem_nil, ?_⟩
  rintro ⟨⟩

/-- What holds in every state reached. -/
structure Server.Climbing (O : LockOrder E K) (M : Statements C R ε σ E K W) (s₀ : σ)
    (v : Server C R ε α σ E K W) : Prop where
  frozen : M.frozen s₀ v.committed
  txns : ∀ (i : ℕ) (t : Txn C R ε α E K W), v.txns[i]? = some t → t.Climbing O M s₀
  /-- No two transactions own the same row. -/
  apart : ∀ (i j : ℕ) (t t' : Txn C R ε α E K W), i ≠ j → v.txns[i]? = some t →
    v.txns[j]? = some t' → ∀ x, O.own t.env x → ¬ O.own t'.env x

/-- The rows a statement locks do not depend on what changes. -/
def Statements.LocksFrozen (M : Statements C R ε σ E K W) : Prop :=
  ∀ {env c s s'}, M.frozen s s' → M.locks env c s = M.locks env c s'

/-- The row a transaction waits for is its own or comes after the shared rows it holds. -/
theorem Txn.Climbing.wants {t : Txn C R ε α E K W} (h : t.Climbing O M s₀) (hM : M.Lawful)
    (hL : M.LocksFrozen) {s : σ} (hs : M.frozen s₀ s) {x : K} (hx : t.wants M s = some x) :
    x ∉ t.held ∧ ((¬ O.shared x ∧ O.own t.env x) ∨
      (O.shared x ∧ ∀ y ∈ t.held, O.shared y → O.before y x)) := by
  unfold Txn.wants at hx
  split at hx
  · rename_i c k hans hrest
    have hlocks : M.locks t.env c (M.applyAll t.writes s) = M.locks t.env c s₀ :=
      (hL (hM.frozen_trans hs (hM.frozen_applyAll _ _))).symm
    have hnot : x ∉ t.held := by simpa using List.find?_some hx
    have hclimb : O.Climbs t.env t.held (M.locks t.env c s₀) := by
      have := h.rest hans
      rw [hrest] at this
      exact this.1
    refine ⟨hnot, ?_⟩
    rcases hclimb x (hlocks ▸ List.mem_of_find?_eq_some hx) with hm | hm | ⟨hsx, hb, -⟩
    · exact absurd hm hnot
    · exact Or.inl hm
    · exact Or.inr ⟨hsx, hb⟩
  · cases hx

omit [DecidableEq K] in
/-- One transaction changed, its environment kept. -/
theorem Server.Climbing.set {v v' : Server C R ε α σ E K W} (h : v.Climbing O M s₀) {i : ℕ}
    {t t' : Txn C R ε α E K W} (ht : v.txns[i]? = some t) (hv : v'.txns = v.txns.set i t')
    (henv : t'.env = t.env) (hc : t'.Climbing O M s₀) (hf : M.frozen s₀ v'.committed) :
    v'.Climbing O M s₀ := by
  -- whatever transaction is looked up, its environment was there before
  have hold : ∀ (j : ℕ) (u : Txn C R ε α E K W), v'.txns[j]? = some u →
      ∃ u₀, v.txns[j]? = some u₀ ∧ u.env = u₀.env := by
    intro j u hu
    rw [hv] at hu
    rcases getElem?_set_some hu with ⟨rfl, rfl⟩ | ⟨-, hu⟩
    · exact ⟨t, ht, henv⟩
    · exact ⟨u, hu, rfl⟩
  constructor
  · exact hf
  · intro j u hu
    rw [hv] at hu
    rcases getElem?_set_some hu with ⟨rfl, rfl⟩ | ⟨-, hu⟩
    · exact hc
    · exact h.txns j u hu
  · intro j k u u' hjk hu hu'
    obtain ⟨u₀, hu₀, he⟩ := hold j u hu
    obtain ⟨u₁, hu₁, he'⟩ := hold k u' hu'
    rw [he, he']
    exact h.apart j k u₀ u₁ hjk hu₀ hu₁

/-- **One step keeps the order**, whichever transaction makes it. -/
theorem Server.Climbing.step {v : Server C R ε α σ E K W} (h : v.Climbing O M s₀)
    (hM : M.Lawful) (hL : M.LocksFrozen) (i : ℕ) : (lockStep M v i).Climbing O M s₀ := by
  unfold lockStep
  split
  · exact h
  rename_i t ht
  have hc := h.txns i t ht
  split
  · -- a row to take: it is waited for, or it is taken
    rename_i x hx
    split
    · exact h
    obtain ⟨hnot, hrow⟩ := hc.wants hM hL h.frozen hx
    have hans : t.answer = none := by
      cases ha : t.answer with
      | none => rfl
      | some r => simp [Txn.wants, ha] at hx
    refine h.set ht rfl rfl ⟨fun hne => absurd hans hne, ?_, fun _ => ?_⟩ h.frozen
    · intro y hy
      rcases List.mem_cons.1 hy with rfl | hy
      · exact hrow.elim (fun hown => Or.inr hown.2) fun hs => Or.inl hs.1
      · exact hc.held y hy
    · have hrest := hc.rest hans
      cases hr : t.rest with
      | ret a => trivial
      | raise e => trivial
      | call c k =>
          rw [hr] at hrest
          have hlocks : M.locks t.env c (M.applyAll t.writes v.committed) = M.locks t.env c s₀ :=
            (hL (hM.frozen_trans h.frozen (hM.frozen_applyAll _ _))).symm
          have hmem : x ∈ M.locks t.env c s₀ := by
            simp only [Txn.wants, hans, hr, hlocks] at hx
            exact List.mem_of_find?_eq_some hx
          refine ⟨hrest.1.take hmem, fun s hs => (hrest.2 s hs).congr (fun _ _ _ _ _ => trivial) ?_⟩
          intro y
          simp only [List.mem_append, List.mem_cons]
          constructor
          · rintro (hy | hy)
            · exact Or.inl hy
            · exact Or.inr (Or.inr hy)
          · rintro (hy | rfl | hy)
            · exact Or.inl hy
            · exact Or.inl hmem
            · exact Or.inr hy
  · rename_i hwants
    split
    · exact h
    · exact h.set ht rfl rfl (.ended t _) (hM.frozen_trans h.frozen (hM.frozen_applyAll _ _))
    · exact h.set ht rfl rfl (.ended t _) h.frozen
    · -- the statement runs, all its rows held
      rename_i c k hans hr
      have hview : M.frozen s₀ (M.applyAll t.writes v.committed) :=
        hM.frozen_trans h.frozen (hM.frozen_applyAll _ _)
      have hrest := hc.rest hans
      rw [hr] at hrest
      have hall : ∀ x ∈ M.locks t.env c s₀, x ∈ t.held := by
        simp only [Txn.wants, hans, hr, List.find?_eq_none, decide_eq_true_eq, not_not] at hwants
        rw [hL hview]
        exact hwants
      refine h.set ht rfl rfl ⟨fun hne => absurd hans hne, hc.held, fun _ => ?_⟩ h.frozen
      refine (hrest.2 _ hview).congr (fun _ _ _ _ _ => trivial) fun x => ?_
      rw [List.mem_append]
      exact ⟨fun hx => hx.elim (hall x) id, Or.inr⟩

omit [DecidableEq K] in
/-- Before the first step, with orderly bodies and nothing owned twice. -/
theorem Server.climbing_start (hM : M.Lawful) {reqs : List (E × Prog C R ε α)}
    (hown : reqs.Pairwise fun r r' => ∀ x, O.own r.1 x → ¬ O.own r'.1 x)
    (hbody : ∀ r ∈ reqs, O.Orderly M s₀ r.1 r.2 [] fun _ _ => True) :
    (Server.start reqs s₀ : Server C R ε α σ E K W).Climbing O M s₀ := by
  have hget : ∀ (i : ℕ) (t : Txn C R ε α E K W),
      (Server.start reqs s₀ : Server C R ε α σ E K W).txns[i]? = some t →
        ∃ r, reqs[i]? = some r ∧ t = .begin r.1 r.2 := by
    intro i t ht
    obtain ⟨r, hr, rfl⟩ := Option.map_eq_some_iff.1 ((List.getElem?_map ..).symm.trans ht)
    exact ⟨r, hr, rfl⟩
  constructor
  · exact hM.frozen_refl s₀
  · intro i t ht
    obtain ⟨r, hr, rfl⟩ := hget i t ht
    exact ⟨fun _ => rfl, fun _ hx => absurd hx List.not_mem_nil,
      fun _ => hbody r (List.mem_of_getElem? hr)⟩
  · intro i j t t' hij ht ht' x hx hx'
    obtain ⟨r, hr, rfl⟩ := hget i t ht
    obtain ⟨r', hr', rfl⟩ := hget j t' ht'
    obtain ⟨hi, rfl⟩ := List.getElem?_eq_some_iff.1 hr
    obtain ⟨hj, rfl⟩ := List.getElem?_eq_some_iff.1 hr'
    rcases Nat.lt_or_gt_of_ne hij with hlt | hlt
    · exact List.pairwise_iff_getElem.1 hown i j hi hj hlt x hx hx'
    · exact List.pairwise_iff_getElem.1 hown j i hj hi hlt x hx' hx

/-- Any schedule of steps keeps the order. -/
theorem Server.Climbing.run {v : Server C R ε α σ E K W} (h : v.Climbing O M s₀)
    (hM : M.Lawful) (hL : M.LocksFrozen) (schedule : List ℕ) :
    (schedule.foldl (lockStep M) v).Climbing O M s₀ := by
  induction schedule generalizing v with
  | nil => exact h
  | cons i schedule ih => exact ih (h.step hM hL i)

end Runs

/-! ### No cycle, and somebody to go on -/

section Deadlock

variable [DecidableEq K] {O : LockOrder E K} {M : Statements C R ε σ E K W} {s₀ : σ}
  {v : Server C R ε α σ E K W}

/-- Who is waited for has not ended. -/
theorem WaitsFor.unfinished {i j : ℕ} (h : v.Climbing O M s₀) (hw : WaitsFor M v i j) :
    v.Unfinished j := by
  obtain ⟨-, t, t', x, -, ht', -, hx⟩ := hw
  refine ⟨t', ht', ?_⟩
  by_contra hans
  rw [(h.txns j t' ht').none_held hans] at hx
  exact List.not_mem_nil hx

/-- A row that is waited for is shared. -/
theorem WaitsFor.shared {i j : ℕ} (h : v.Climbing O M s₀) (hM : M.Lawful) (hL : M.LocksFrozen)
    (hw : WaitsFor M v i j) {t : Txn C R ε α E K W} {x : K} (ht : v.txns[i]? = some t)
    (hx : t.wants M v.committed = some x) : O.shared x := by
  obtain ⟨hij, t₁, t', x₁, ht₁, ht', hx₁, hheld⟩ := hw
  obtain rfl := Option.some.inj (ht.symm.trans ht₁)
  obtain rfl := Option.some.inj (hx.symm.trans hx₁)
  rcases ((h.txns i t ht).wants hM hL h.frozen hx).2 with ⟨hns, hown⟩ | ⟨hs, -⟩
  · rcases (h.txns j t' ht').held x hheld with hs | hown'
    · exact hs
    · exact absurd hown' (h.apart i j t t' hij ht ht' x hown)
  · exact hs

/-- **Along a chain of waiting transactions the wanted rows grow.** -/
theorem before_of_transGen (h : v.Climbing O M s₀) (hM : M.Lawful) (hL : M.LocksFrozen) {i j : ℕ}
    (hw : Relation.TransGen (WaitsFor M v) i j) {t t' : Txn C R ε α E K W} {x y : K}
    (ht : v.txns[i]? = some t) (hx : t.wants M v.committed = some x)
    (ht' : v.txns[j]? = some t') (hy : t'.wants M v.committed = some y) (hs : O.shared y) :
    O.before x y := by
  -- one wait: the row wanted is held by the other, whose own wanted row comes after
  have hone : ∀ (i j : ℕ) (t t' : Txn C R ε α E K W) (x y : K), WaitsFor M v i j →
      v.txns[i]? = some t → t.wants M v.committed = some x → v.txns[j]? = some t' →
      t'.wants M v.committed = some y → O.shared y → O.before x y := by
    intro i j t t' x y hw ht hx ht' hy hs
    have hsx := hw.shared h hM hL ht hx
    obtain ⟨-, t₁, t₂, x₁, ht₁, ht₂, hx₁, hheld⟩ := hw
    obtain rfl := Option.some.inj (ht.symm.trans ht₁)
    obtain rfl := Option.some.inj (ht'.symm.trans ht₂)
    obtain rfl := Option.some.inj (hx.symm.trans hx₁)
    rcases ((h.txns j t' ht').wants hM hL h.frozen hy).2 with ⟨hns, -⟩ | ⟨-, hb⟩
    · exact absurd hs hns
    · exact hb x hheld hsx
  induction hw generalizing t' y with
  | single hw => exact hone _ _ _ _ _ _ hw ht hx ht' hy hs
  | tail _ hw ih =>
      obtain ⟨hne, u, u', z, hu, hu', hz, hheld⟩ := hw
      have hw : WaitsFor M v _ _ := ⟨hne, u, u', z, hu, hu', hz, hheld⟩
      exact O.trans (ih hu hz (hw.shared h hM hL hu hz)) (hone _ _ _ _ _ _ hw hu hz ht' hy hs)

/-- **No deadlock**: no transaction waits for itself through others. -/
theorem acyclic (h : v.Climbing O M s₀) (hM : M.Lawful) (hL : M.LocksFrozen) (i : ℕ) :
    ¬ Relation.TransGen (WaitsFor M v) i i := by
  intro hw
  obtain ⟨j, hfirst, -⟩ := Relation.TransGen.head'_iff.1 hw
  obtain ⟨-, t, -, x, ht, -, hx, -⟩ := id hfirst
  exact O.irrefl x (before_of_transGen h hM hL hw ht hx ht hx (hfirst.shared h hM hL ht hx))

/-- A transaction that waits for nobody makes a step. -/
theorem lockStep_ne {i : ℕ} (hu : v.Unfinished i) (hw : ∀ j, ¬ WaitsFor M v i j) :
    lockStep M v i ≠ v := by
  obtain ⟨t, ht, hans⟩ := hu
  have hlt : i < v.txns.length := (List.getElem?_eq_some_iff.1 ht).1
  -- a step that changes the transaction changes the server
  have hset : ∀ (t' : Txn C R ε α E K W) (v' : Server C R ε α σ E K W), t' ≠ t →
      v'.txns = v.txns.set i t' → v' ≠ v := by
    rintro t' v' hne hv rfl
    have : v'.txns[i]? = some t' := by
      rw [hv]
      exact List.getElem?_set_self hlt
    exact hne (Option.some.inj (this.symm.trans ht))
  unfold lockStep
  rw [ht]
  dsimp only
  cases hx : t.wants M v.committed with
  | some x =>
      have hfree : ¬ v.blocked i [x] := by
        rw [Server.blocked_iff]
        rintro ⟨j, t', ht', hij, hheld⟩
        exact hw j ⟨hij, t, t', x, ht, ht', hx, hheld⟩
      dsimp only
      rw [if_neg hfree]
      refine hset _ _ (fun he => ?_) rfl
      have := congrArg (fun u => u.held.length) he
      simp at this
  | none =>
      dsimp only
      rw [hans]
      cases hr : t.rest with
      | ret a =>
          refine hset _ _ (fun he => ?_) rfl
          have := congrArg Txn.answer he
          rw [hans] at this
          cases this
      | raise e =>
          refine hset _ _ (fun he => ?_) rfl
          have := congrArg Txn.answer he
          rw [hans] at this
          cases this
      | call c k =>
          refine hset _ _ (fun he => ?_) rfl
          exact Prog.call_ne_self _ ((congrArg Txn.rest he).trans hr)

/-- **Somebody can go on** as long as somebody has not ended. -/
theorem progress (h : v.Climbing O M s₀) (hM : M.Lawful) (hL : M.LocksFrozen)
    (hu : ∃ i, v.Unfinished i) : ∃ i, v.Unfinished i ∧ lockStep M v i ≠ v := by
  -- of the finitely many transactions, take an unfinished one that waits for no unfinished one
  let waits : Fin v.txns.length → Fin v.txns.length → Prop :=
    fun j i => Relation.TransGen (WaitsFor M v) i j
  have htrans : IsTrans _ waits := ⟨fun _ _ _ hab hbc => Relation.TransGen.trans hbc hab⟩
  have hirrefl : Std.Irrefl waits := ⟨fun i => acyclic h hM hL i⟩
  have hwf : WellFounded waits := Finite.wellFounded_of_trans_of_irrefl waits
  have hbound : ∀ i, v.Unfinished i → i < v.txns.length := by
    rintro i ⟨t, ht, -⟩
    exact (List.getElem?_eq_some_iff.1 ht).1
  obtain ⟨i₀, hi₀⟩ := hu
  obtain ⟨i, hi, hmin⟩ := hwf.has_min {i : Fin v.txns.length | v.Unfinished i}
    ⟨⟨i₀, hbound i₀ hi₀⟩, hi₀⟩
  refine ⟨i, hi, lockStep_ne hi fun j hw => ?_⟩
  have hj := hw.unfinished h
  exact hmin ⟨j, hbound j hj⟩ hj (Relation.TransGen.single hw)

end Deadlock

end TwoPhase
end LedgerEngine
