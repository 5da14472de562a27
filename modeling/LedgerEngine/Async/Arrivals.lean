/-
# Rows that arrive while transactions run

Strict two-phase locking protects the rows there are: a transaction that found no
row under a key has locked nothing, and the row may arrive before it ends.  What
it did can then no longer have been done at one moment, so the history is not
serializable in general.

It does no harm where a statement that misses a row makes its transaction give
up (`Prog.GivesUp`).  Then an unfinished transaction either could still have made
all its steps on the state committed now, or never returns (`Standing.trace`), and
whatever every transaction alone keeps, and every arrival, is kept by the committed
state of any interleaving (`Standing.step`).
-/

import LedgerEngine.Async.TwoPhase

namespace LedgerEngine

namespace Prog

variable {C : Type} {R : C → Type} {ε α β : Type}

/-- Whatever its calls settle to, a value the program returns satisfies `post`. -/
def Only (post : α → Prop) : Prog C R ε α → Prop
  | .ret a => post a
  | .raise _ => True
  | .call _ k => ∀ r, (k r).Only post

/-- Once a call has resolved with a miss, a value the program returns satisfies
`post`; with nothing in `post`, the program does not return. -/
def GivesUp (misses : (c : C) → R c → Prop) (post : α → Prop) : Prog C R ε α → Prop
  | .ret _ => True
  | .raise _ => True
  | .call c k => (∀ r, (k r).GivesUp misses post) ∧ ∀ a, misses c a → (k (.ok a)).Only post

variable {misses : (c : C) → R c → Prop}

theorem Only.bind {mid : α → Prop} {post : β → Prop} {p : Prog C R ε α} {f : α → Prog C R ε β}
    (hp : p.Only mid) (hf : ∀ a, mid a → (f a).Only post) : (p.bind f).Only post := by
  induction p with
  | ret a => exact hf a hp
  | raise e => trivial
  | call c k ih => exact fun r => ih r (hp r)

theorem only_await {c : C} {post : R c → Prop} (h : ∀ a, post a) :
    (Prog.await c : Prog C R ε (R c)).Only post := by
  intro r
  cases r with
  | ok a => exact h a
  | error e => trivial

/-- **The rule for a sequence**: a miss in the first half leads to a value with
which the second half gives up too. -/
theorem GivesUp.bind {mid : α → Prop} {post : β → Prop} {p : Prog C R ε α} {f : α → Prog C R ε β}
    (hp : p.GivesUp misses mid) (hf : ∀ a, (f a).GivesUp misses post)
    (hmid : ∀ a, mid a → (f a).Only post) : (p.bind f).GivesUp misses post := by
  induction p with
  | ret a => exact hf a
  | raise e => trivial
  | call c k ih =>
      refine ⟨fun r => ih r (hp.1 r), fun a ha => ?_⟩
      exact (hp.2 a ha).bind hmid

/-- A call that may miss, and what a miss resolves with. -/
theorem givesUp_await {c : C} {post : R c → Prop} (h : ∀ a, misses c a → post a) :
    (Prog.await c : Prog C R ε (R c)).GivesUp misses post := by
  constructor
  · intro r
    cases r with
    | ok a => trivial
    | error e => trivial
  · intro a ha
    exact h a ha

end Prog

namespace TwoPhase

variable {C : Type} {R : C → Type} {ε α σ E K W : Type}

/-- How the committed state grows when a row arrives, and which answers a statement
gives that would be others then. -/
structure Arrival (M : Statements C R ε σ E K W) (grows : σ → σ → Prop)
    (misses : (c : C) → R c → Prop) : Prop where
  apply : ∀ {s s'} w, grows s s' → grows (M.apply w s) (M.apply w s')
  exec : ∀ {s s'} env c, grows s s' →
    (M.exec env c s = M.exec env c s' ∧ M.locks env c s = M.locks env c s') ∨
      ∃ a, (M.exec env c s).1 = .ok a ∧ misses c a

/-- Transaction `i` is broken off and rolled back, if it has not ended. -/
def Server.abort (v : Server C R ε α σ E K W) (i : ℕ) (e : ε) : Server C R ε α σ E K W :=
  match v.txns[i]? with
  | none => v
  | some t =>
    match t.answer with
    | some _ => v
    | none => v.finish i t (.error e) v.committed

/-- A row arrives in the committed state. -/
def Server.arrive (v : Server C R ε α σ E K W) (s : σ) : Server C R ε α σ E K W :=
  { v with committed := s }

variable {M : Statements C R ε σ E K W} {grows : σ → σ → Prop} {misses : (c : C) → R c → Prop}

theorem Arrival.applyAll (hA : Arrival M grows misses) (ws : List W) {s s' : σ} (h : grows s s') :
    grows (M.applyAll ws s) (M.applyAll ws s') := by
  induction ws generalizing s s' with
  | nil => exact h
  | cons w ws ih => exact ih (hA.apply w h)

/-- Rows that arrive in one of two ways. -/
theorem Arrival.or {grows' : σ → σ → Prop} (hA : Arrival M grows misses)
    (hA' : Arrival M grows' misses) : Arrival M (fun s s' => grows s s' ∨ grows' s s') misses where
  apply w h := h.imp (hA.apply w) (hA'.apply w)
  exec env c h := h.elim (hA.exec env c) (hA'.exec env c)

theorem Trace.givesUp {env : E} {s : σ} {held : List K} {body rest : Prog C R ε α} {ws : List W}
    (h : Trace M env s held body rest ws) {post : α → Prop} (hbody : body.GivesUp misses post) :
    rest.GivesUp misses post := by
  induction h with
  | start => exact hbody
  | next _ _ ih => exact ih.1 _

/-- **When a row arrives, a transaction could have made its steps with it, or has
missed it** and does not return. -/
theorem Trace.arrive (hA : Arrival M grows misses) {env : E} {s s' : σ} {held : List K}
    {body rest : Prog C R ε α} {ws : List W} (h : Trace M env s held body rest ws)
    (hbody : body.GivesUp misses fun _ => False) (hs : grows s s') :
    Trace M env s' held body rest ws ∨ rest.Only fun _ => False := by
  induction h with
  | start => exact Or.inl .start
  | @next c k ws htrace hl ih =>
      rcases ih with htrace' | hgone
      · rcases hA.exec env c (hA.applyAll ws hs) with ⟨hexec, hlocks⟩ | ⟨a, ha, hmiss⟩
        · rw [hexec]
          rw [hlocks] at hl
          exact Or.inl (.next htrace' hl)
        · rw [ha]
          exact Or.inr ((htrace.givesUp hbody).2 a hmiss)
      · exact Or.inr (hgone _)

/-- What holds of the unfinished transactions: each could have made its steps on
the state committed now or never returns, and no two hold the same row. -/
structure Standing (M : Statements C R ε σ E K W) (reqs : List (E × Prog C R ε α))
    (v : Server C R ε α σ E K W) : Prop where
  requests : v.txns.map (fun t => (t.env, t.body)) = reqs
  trace : ∀ (i : ℕ) (t : Txn C R ε α E K W), v.txns[i]? = some t → t.answer = none →
    Trace M t.env v.committed t.held t.body t.rest t.writes ∨ t.rest.Only fun _ => False
  disjoint : ∀ (i j : ℕ) (t u : Txn C R ε α E K W), v.txns[i]? = some t → v.txns[j]? = some u →
    i ≠ j → ∀ x ∈ t.held, x ∉ u.held

theorem standing_start (reqs : List (E × Prog C R ε α)) (s : σ) :
    Standing M reqs (Server.start reqs s) where
  requests := by simp [Server.start, Txn.begin, Function.comp_def]
  trace i t ht _ := by
    simp only [Server.start, List.getElem?_map, Option.map_eq_some_iff] at ht
    obtain ⟨r, -, rfl⟩ := ht
    exact Or.inl .start
  disjoint i j t u ht _ _ x hx := by
    simp only [Server.start, List.getElem?_map, Option.map_eq_some_iff] at ht
    obtain ⟨r, -, rfl⟩ := ht
    simp [Txn.begin] at hx

theorem Standing.mem_requests {reqs : List (E × Prog C R ε α)} {v : Server C R ε α σ E K W}
    (h : Standing M reqs v) {i : ℕ} {t : Txn C R ε α E K W} (ht : v.txns[i]? = some t) :
    (t.env, t.body) ∈ reqs := by
  rw [← h.requests]
  exact List.mem_map_of_mem (List.mem_of_getElem? ht)

/-- A transaction ends, and changes only rows it holds. -/
theorem Standing.finish (hM : M.Lawful) {reqs : List (E × Prog C R ε α)}
    {v : Server C R ε α σ E K W} (h : Standing M reqs v) {i : ℕ} {t : Txn C R ε α E K W}
    (ht : v.txns[i]? = some t) {r : Except ε α} {s : σ} (hf : M.frozen v.committed s)
    (hk : ∀ x, x ∉ t.held → M.same x v.committed s) : Standing M reqs (v.finish i t r s) := by
  constructor
  · refine (requests_set ht _ ?_ ?_).trans h.requests <;> rfl
  · intro j u hu hau
    rcases getElem?_set_some hu with ⟨rfl, rfl⟩ | ⟨hji, hu'⟩
    · simp at hau
    · rcases h.trace j u hu' hau with htrace | hgone
      · exact Or.inl (htrace.rebase hM hf fun x hx =>
          hk x (h.disjoint j i u t hu' ht hji x hx))
      · exact Or.inr hgone
  · exact disjoint_set h.disjoint fun _ _ _ _ x hx => absurd hx List.not_mem_nil

/-- A transaction is broken off. -/
theorem Standing.abort (hM : M.Lawful) {reqs : List (E × Prog C R ε α)}
    {v : Server C R ε α σ E K W} (h : Standing M reqs v) (i : ℕ) (e : ε) :
    Standing M reqs (v.abort i e) ∧ (v.abort i e).committed = v.committed := by
  unfold Server.abort
  cases ht : v.txns[i]? with
  | none => exact ⟨h, rfl⟩
  | some t =>
      cases ha : t.answer with
      | some _ => simpa only [ha] using And.intro h trivial
      | none =>
          simp only [ha]
          exact ⟨h.finish hM ht (hM.frozen_refl _) fun x _ => hM.same_refl x _, rfl⟩

/-- A row arrives. -/
theorem Standing.arrive (hA : Arrival M grows misses) {reqs : List (E × Prog C R ε α)}
    (hreqs : ∀ r ∈ reqs, r.2.GivesUp misses fun _ => False) {v : Server C R ε α σ E K W}
    (h : Standing M reqs v) {s : σ} (hs : grows v.committed s) : Standing M reqs (v.arrive s) where
  requests := h.requests
  trace i t ht ha := by
    rcases h.trace i t ht ha with htrace | hgone
    · exact htrace.arrive hA (hreqs _ (h.mem_requests ht)) hs
    · exact Or.inr hgone
  disjoint := h.disjoint

variable [DecidableEq K]

/-- A statement runs. -/
theorem Standing.statement {reqs : List (E × Prog C R ε α)} {v : Server C R ε α σ E K W}
    (h : Standing M reqs v) {i : ℕ} {t : Txn C R ε α E K W} (ht : v.txns[i]? = some t)
    (ha : t.answer = none) {c : C} {k : Except ε (R c) → Prog C R ε α} (hr : t.rest = .call c k)
    (hb : v.blocked i (M.locks t.env c (M.applyAll t.writes v.committed)) = false) :
    Standing M reqs { v with txns := v.txns.set i { t with
      rest := k (M.exec t.env c (M.applyAll t.writes v.committed)).1
      writes := t.writes ++ (M.exec t.env c (M.applyAll t.writes v.committed)).2
      held := M.locks t.env c (M.applyAll t.writes v.committed) ++ t.held } } where
  requests := by refine (requests_set ht _ ?_ ?_).trans h.requests <;> rfl
  trace j u hu hau := by
    rcases getElem?_set_some hu with ⟨rfl, rfl⟩ | ⟨-, hu'⟩
    · have htrace := h.trace j t ht ha
      rw [hr] at htrace
      rcases htrace with htrace | hgone
      · exact Or.inl (.next (htrace.mono fun x hx => List.mem_append_right _ hx)
          fun x hx => List.mem_append_left _ hx)
      · exact Or.inr (hgone _)
    · exact h.trace j u hu' hau
  disjoint := disjoint_lock h.disjoint ht hb rfl

/-- **One step**: the committed state stays, or becomes what one of the requests
alone makes of it. -/
theorem Standing.step (hM : M.Lawful) {reqs : List (E × Prog C R ε α)}
    {v : Server C R ε α σ E K W} (h : Standing M reqs v) (i : ℕ) :
    Standing M reqs (step M v i) ∧ ((step M v i).committed = v.committed ∨
      ∃ r ∈ reqs, (step M v i).committed = (M.transaction r.1 r.2 v.committed).2) := by
  cases ht : v.txns[i]? with
  | none => simpa only [TwoPhase.step, ht] using And.intro h (Or.inl trivial)
  | some t =>
      cases ha : t.answer with
      | some _ => simpa only [TwoPhase.step, ht, ha] using And.intro h (Or.inl trivial)
      | none =>
          have htrace := h.trace i t ht ha
          cases hr : t.rest with
          | ret a =>
              rw [hr] at htrace
              have htrace := htrace.resolve_right fun hgone => hgone
              simp only [TwoPhase.step, ht, ha, hr]
              refine ⟨h.finish hM ht (hM.frozen_applyAll _ _) fun x hx => ?_,
                Or.inr ⟨_, h.mem_requests ht, ?_⟩⟩
              · exact hM.same_applyAll_of_notMem
                  (fun w hw (e : x = M.keyOf w) => hx (e ▸ htrace.keyOf_mem hM w hw)) _
              · rw [htrace.transaction_ret]
                rfl
          | raise e =>
              simp only [TwoPhase.step, ht, ha, hr]
              exact ⟨h.finish hM ht (hM.frozen_refl _) fun x _ => hM.same_refl x _, Or.inl rfl⟩
          | call c k =>
              simp only [TwoPhase.step, ht, ha, hr]
              split_ifs with hb
              · exact ⟨h, Or.inl rfl⟩
              · refine ⟨?_, Or.inl rfl⟩
                simpa only [ha] using h.statement ht ha hr (by simpa using hb)

end TwoPhase
end LedgerEngine
