/-
# Systems put together from parts

A system is put together from parts that were described one by one: the calls of one
part are programs over the calls of the whole (`Follows.expand_call`), and the stages
of one part are some of the stages of the whole (`Follows.embed`).

What the threads rely on and guarantee is one rule (`Pool.rely_guarantee`): every
thread knows something of the world that no change of the kind `R` takes away, and
every call makes only changes of that kind, given what its own thread knows.  So no
proof speaks of two threads at a time.

What must not be in two hands at once, a token, is the other kind of fact.  It stays so if
tokens are only handed on (`Distinct.handed`) and new ones are new (`Distinct.taken`).
What was made by somebody is made once if only he who has made nothing yet makes one more
(`MadeOnce.add`).
-/

import LedgerEngine.Async.Pool
import Mathlib.Data.Set.Function

namespace LedgerEngine

/-! ### Tokens -/

section Tokens

variable {H τ : Type} {f f' : H → Option τ}

/-- No token is held twice. -/
def Distinct (f : H → Option τ) : Prop := ∀ h h' t, f h = some t → f h' = some t → h = h'

/-- **Tokens that are handed on**: each is had from a holder of its own. -/
theorem Distinct.handed (hf : Distinct f) {g : H → H} (hg : Function.Injective g)
    (h : ∀ x t, f' x = some t → f (g x) = some t) : Distinct f' := fun x x' t hx hx' =>
  hg (hf (g x) (g x') t (h x t hx) (h x' t hx'))

/-- Tokens that are kept or given up. -/
theorem Distinct.released (hf : Distinct f) (h : ∀ x t, f' x = some t → f x = some t) :
    Distinct f' :=
  hf.handed Function.injective_id h

/-- **A token that is taken** and that nobody had. -/
theorem Distinct.taken (hf : Distinct f) {x₀ : H} {t₀ : τ} (hnew : ∀ x, f x ≠ some t₀)
    (h : ∀ x t, f' x = some t → x = x₀ ∧ t = t₀ ∨ f x = some t) : Distinct f' := by
  intro x x' t hx hx'
  rcases h x t hx with ⟨rfl, rfl⟩ | hold
  · rcases h x' _ hx' with ⟨rfl, -⟩ | hold'
    · rfl
    · exact absurd hold' (hnew x')
  · rcases h x' _ hx' with ⟨rfl, rfl⟩ | hold'
    · exact absurd hold (hnew x)
    · exact hf x x' t hold hold'

end Tokens

/-! ### Makers -/

section Makers

variable {H X : Type} {items items' : Set X} {Makes Makes' : H → X → Prop}

/-- Each item has a maker of its own. -/
def MadeOnce (items : Set X) (Makes : H → X → Prop) : Prop :=
  ∃ maker : X → H, Set.InjOn maker items ∧ ∀ x ∈ items, Makes (maker x) x

/-- There is nothing new. -/
theorem MadeOnce.mono (h : MadeOnce items Makes) (hitems : ∀ x ∈ items', x ∈ items)
    (hmakes : ∀ i, ∀ x ∈ items', Makes i x → Makes' i x) : MadeOnce items' Makes' := by
  obtain ⟨maker, hinj, hmaker⟩ := h
  exact ⟨maker, hinj.mono hitems, fun x hx => hmakes _ x hx (hmaker x (hitems x hx))⟩

/-- **One more item**, of a maker who had made none. -/
theorem MadeOnce.add [DecidableEq X] (h : MadeOnce items Makes) (i₀ : H) (x₀ : X)
    (hitems : ∀ x ∈ items', x ∈ items ∨ x = x₀) (hfree : ∀ x, ¬ Makes i₀ x)
    (hmakes : ∀ i, ∀ x ∈ items', Makes i x → Makes' i x)
    (hnew : x₀ ∈ items' → x₀ ∉ items → Makes' i₀ x₀) : MadeOnce items' Makes' := by
  obtain ⟨maker, hinj, hmaker⟩ := h
  by_cases hold : x₀ ∈ items
  · refine MadeOnce.mono ⟨maker, hinj, hmaker⟩ (fun x hx => ?_) hmakes
    exact (hitems x hx).elim id fun he => he ▸ hold
  · have hother : ∀ x ∈ items', x ≠ x₀ → x ∈ items := fun x hx hne =>
      (hitems x hx).resolve_right hne
    have hmade : ∀ x ∈ items, maker x ≠ i₀ := fun x hx he => hfree x (he ▸ hmaker x hx)
    refine ⟨fun x => if x = x₀ then i₀ else maker x, fun x hx x' hx' he => ?_, fun x hx => ?_⟩
    · dsimp only at he
      split_ifs at he with h₁ h₂ h₂
      · exact h₁.trans h₂.symm
      · exact absurd he.symm (hmade x' (hother x' hx' h₂))
      · exact absurd he (hmade x (hother x hx h₁))
      · exact hinj (hother x hx h₁) (hother x' hx' h₂) he
    · dsimp only
      split_ifs with h₁
      · subst h₁
        exact hnew hx hold
      · exact hmakes _ x hx (hmaker x (hother x hx h₁))

end Makers

namespace Prog.Follows

variable {C C' : Type} {R : C → Type} {R' : C' → Type} {ε α Q Q' : Type}

/-- **A program whose calls are programs** keeps to a protocol if it keeps to one of
its own and each of its calls, carried out, leads where its own protocol says. -/
theorem expand_call {P : Protocol C R ε Q} {P' : Protocol C' R' ε Q}
    {f : (c : C') → Prog C R ε (R' c)} {post : Except ε α → Q → Prop}
    (hf : ∀ q c, P'.allows q c → (f c).Follows P (fun r q' => q' = P'.next q c r) q)
    {p : Prog C' R' ε α} {q : Q} (hp : p.Follows P' post q) : (p.expand f).Follows P post q := by
  induction p generalizing q with
  | ret a => exact hp
  | raise e => exact hp
  | call c k ih =>
      refine (hf q c hp.1).andThen _ fun r q' hq' => ?_
      subst hq'
      exact ih r (hp.2 r)

/-- **A protocol that is part of another**: the stages of the one are stages of the
other, which go on in the same way and allow as much. -/
theorem embed {P : Protocol C R ε Q} {P' : Protocol C R ε Q'} (inj : Q → Q')
    (hnext : ∀ q c r, P'.next (inj q) c r = inj (P.next q c r))
    (hallows : ∀ q c, P.allows q c → P'.allows (inj q) c) {post : Except ε α → Q → Prop}
    {post' : Except ε α → Q' → Prop} (hpost : ∀ r q, post r q → post' r (inj q))
    {p : Prog C R ε α} {q : Q} (hp : p.Follows P post q) : p.Follows P' post' (inj q) := by
  induction p generalizing q with
  | ret a => exact hpost _ _ hp
  | raise e => exact hpost _ _ hp
  | call c k ih =>
      refine ⟨hallows q c hp.1, fun r => ?_⟩
      rw [hnext]
      exact ih r (hp.2 r)

end Prog.Follows

namespace Pool

variable {T C : Type} {R : C → Type} {ε α σ Ω Q : Type} {S : System T C R ε α σ Ω Q}

/-- What the world is like, what each thread knows of it, and which changes of it
they all allow. -/
structure Contract (S : System T C R ε α σ Ω Q) where
  world : σ → Prop
  knows : T → Q → σ → Prop
  change : σ → σ → Prop
  /-- No change takes away what a thread knows. -/
  stable : ∀ t q w w', knows t q w → change w w' → knows t q w'
  spawn : ∀ t w w', world w → S.spawn t w = some w' →
    world w' ∧ change w w' ∧ knows t (S.entry t) w'
  call : ∀ t q c ω w, world w → knows t q w → (S.protocol t).allows q c →
    world (S.exec ω c w).2 ∧ change w (S.exec ω c w).2 ∧
      knows t ((S.protocol t).next q c (S.exec ω c w).1) (S.exec ω c w).2

/-- The world is as the contract says, and so is what the threads know of it. -/
def Contract.Holds (K : Contract S) (w : σ) (stages : List (T × Q)) : Prop :=
  K.world w ∧ ∀ s ∈ stages, K.knows s.1 s.2 w

section Contract

variable {K : Contract S} {w w' : σ} {stages : List (T × Q)} {t : T} {q : Q} {c : C}

theorem Contract.holds_start {s : σ} (hs : K.world s) : K.Holds s [] :=
  ⟨hs, fun _ h => absurd h List.not_mem_nil⟩

theorem Contract.Holds.spawn (h : K.Holds w stages) (hspawn : S.spawn t w = some w') :
    K.Holds w' (stages ++ [(t, S.entry t)]) := by
  obtain ⟨hworld, hchange, hknows⟩ := K.spawn t _ _ h.1 hspawn
  refine ⟨hworld, fun u hu => ?_⟩
  rcases List.mem_append.1 hu with hu | hu
  · exact K.stable _ _ _ _ (h.2 u hu) hchange
  · obtain rfl := List.mem_singleton.1 hu
    exact hknows

theorem Contract.Holds.call (h : K.Holds w stages) {i : ℕ} (hi : stages[i]? = some (t, q))
    (hallows : (S.protocol t).allows q c) (ω : Ω) :
    K.Holds (S.exec ω c w).2 (stages.set i (t, (S.protocol t).next q c (S.exec ω c w).1)) := by
  obtain ⟨hworld, hchange, hknows⟩ :=
    K.call t q c ω _ h.1 (h.2 _ (List.mem_of_getElem? hi)) hallows
  refine ⟨hworld, fun u hu => ?_⟩
  rcases List.mem_or_eq_of_mem_set hu with hu | rfl
  · exact K.stable _ _ _ _ (h.2 u hu) hchange
  · exact hknows

/-- **Every run keeps the contract.** -/
theorem rely_guarantee (K : Contract S) {post : T → Except ε α → Q → Prop}
    (hbody : ∀ t, (S.body t).Follows (S.protocol t) (post t) (S.entry t)) {s : σ}
    (hs : K.world s) (labels : List (Label T Ω)) :
    Tracked S post (run S (start s) labels) ∧
      K.Holds (run S (start s) labels).world (run S (start s) labels).stages := by
  have hall : Along S (fun _ _ => True) (start s) labels :=
    along_of_forall (fun _ _ => trivial) _ labels
  exact Pool.invariant hbody (fun P t s' hJ _ hspawn => hJ.spawn hspawn)
    (fun P i t q c ω hJ _ hi _ hallows => hJ.call hi hallows ω) hall (tracked_start post s)
    (Contract.holds_start hs)

end Contract

/-- **What every call keeps of the world holds after every run**, whatever the threads. -/
theorem world_induction {J : σ → Prop} (hspawn : ∀ t w w', J w → S.spawn t w = some w' → J w')
    (hcall : ∀ ω c w, J w → J (S.exec ω c w).2) {P : Pool T C R ε α σ Q} (hP : J P.world)
    (labels : List (Label T Ω)) : J (run S P labels).world := by
  induction labels generalizing P with
  | nil => exact hP
  | cons l labels ih =>
      refine ih (P := step S P l) ?_
      have hs := stepped S P l
      generalize step S P l = P' at hs
      cases hs with
      | idle => exact hP
      | spawned t ht => exact hspawn t _ _ hP ht
      | called i ω hi => exact hcall ω _ _ hP

/-- **What every call keeps between good worlds holds after every run of good worlds.** -/
theorem world_induction_along (good J : σ → Prop)
    (hspawn : ∀ t w w', J w → S.spawn t w = some w' → J w')
    (hcall : ∀ ω c w, good w → good (S.exec ω c w).2 → J w → J (S.exec ω c w).2)
    {P : Pool T C R ε α σ Q} (hP : J P.world) {labels : List (Label T Ω)}
    (h : ∀ n, good (run S P (labels.take n)).world) : J (run S P labels).world := by
  induction labels generalizing P with
  | nil => exact hP
  | cons l labels ih =>
      refine ih (P := step S P l) ?_ fun n => h (n + 1)
      have hbefore : good P.world := h 0
      have hafter : good (step S P l).world := h 1
      have hs := stepped S P l
      generalize step S P l = P' at hs hafter
      cases hs with
      | idle => exact hP
      | spawned t ht => exact hspawn t _ _ hP ht
      | called i ω hi => exact hcall ω _ _ hbefore hafter hP

/-- The moments of a run are finitely many. -/
theorem forall_take_iff {L : Type} {p : List L → Prop} {labels : List L} :
    (∀ n, p (labels.take n)) ↔ ∀ n < labels.length + 1, p (labels.take n) := by
  refine ⟨fun h n _ => h n, fun h n => ?_⟩
  by_cases hn : n < labels.length + 1
  · exact h n hn
  · have hlast := h labels.length (by omega)
    rwa [List.take_of_length_le le_rfl, ← List.take_of_length_le (by omega : labels.length ≤ n)]
      at hlast

/-- What holds at every moment of a run holds at each of its steps. -/
theorem along_of_take {ok : Pool T C R ε α σ Q → Prop} {P : Pool T C R ε α σ Q}
    {labels : List (Label T Ω)} (h : ∀ n, ok (run S P (labels.take n))) :
    Along S (fun P _ => ok P) P labels := by
  induction labels generalizing P with
  | nil => trivial
  | cons l labels ih => exact ⟨h 0, ih fun n => h (n + 1)⟩

end Pool
end LedgerEngine
