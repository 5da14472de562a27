/-
# Latches

A thread that finds a latch open closes it, and opens it before it ends.  `Latched` is the
invariant: a latch is closed if and only if a thread holds it, and no two threads hold the
same one.  `Pool.latched` has it of every run, if each call of the protocol is one of three
`Turn`s: it leaves the latches alone, it closes one that was open, or it opens the one its
thread holds.

Who holds what is said by the stages of a protocol.  Stages are ghosts: a run goes the same
way whatever the protocol (`Pool.run_retrack`), so each property of a system may have a
protocol of its own, and the runs they speak of are the same.
-/

import LedgerEngine.Async.Composition

namespace LedgerEngine

variable {T C : Type} {R : C → Type} {ε α σ Ω Q Q' : Type}

/-! ### Another protocol for the same programs -/

/-- The same programs over the same world, with other stages. -/
def System.retrack (S : System T C R ε α σ Ω Q) (entry : T → Q')
    (protocol : T → Protocol C R ε Q') : System T C R ε α σ Ω Q' where
  exec := S.exec
  body := S.body
  spawn := S.spawn
  entry := entry
  protocol := protocol

/-- The thread without its stage. -/
def Thread.erase (th : Thread T C R ε α Q) : Thread T C R ε α Unit := ⟨th.tag, (), th.rest⟩

namespace Pool

/-- The pool without the stages. -/
def erase (P : Pool T C R ε α σ Q) : Pool T C R ε α σ Unit :=
  ⟨P.world, P.threads.map Thread.erase⟩

/-- Thread `i` was started for `t`, and its next call is `c`. -/
def AboutTo (P : Pool T C R ε α σ Q) (i : ℕ) (t : T) (c : C) : Prop :=
  ∃ th, P.threads[i]? = some th ∧ th.tag = t ∧ th.head = some c

theorem aboutTo_erase {P : Pool T C R ε α σ Q} {i : ℕ} {t : T} {c : C} :
    P.erase.AboutTo i t c ↔ P.AboutTo i t c := by
  constructor
  · rintro ⟨th, hth, htag, hhead⟩
    rw [erase, List.getElem?_map] at hth
    obtain ⟨th', hth', rfl⟩ := Option.map_eq_some_iff.1 hth
    exact ⟨th', hth', htag, hhead⟩
  · rintro ⟨th, hth, htag, hhead⟩
    refine ⟨th.erase, ?_, htag, hhead⟩
    rw [erase, List.getElem?_map, hth]
    rfl

section Retrack

variable (S : System T C R ε α σ Ω Q) (entry : T → Q') (protocol : T → Protocol C R ε Q')

theorem erase_step {P : Pool T C R ε α σ Q} {P' : Pool T C R ε α σ Q'} (h : P'.erase = P.erase)
    (l : Label T Ω) : (step (S.retrack entry protocol) P' l).erase = (step S P l).erase := by
  obtain ⟨w, ths⟩ := P
  obtain ⟨w', ths'⟩ := P'
  obtain ⟨rfl, hths⟩ := Pool.mk.inj h
  cases l with
  | spawn t =>
      simp only [step, System.retrack]
      cases S.spawn t w' with
      | none => exact h
      | some s =>
          simp only [erase, List.map_append, hths]
          rfl
  | step i ω =>
      have hi : (ths'[i]?).map Thread.erase = (ths[i]?).map Thread.erase := by
        rw [← List.getElem?_map, ← List.getElem?_map, hths]
      simp only [step, System.retrack]
      cases h₁ : ths[i]? with
      | none =>
          rw [h₁] at hi
          rw [Option.map_eq_none_iff.1 hi]
          exact h
      | some th =>
          rw [h₁] at hi
          obtain ⟨th', h₂, he⟩ := Option.map_eq_some_iff.1 hi
          obtain ⟨t, q, rest⟩ := th
          obtain ⟨t', q', rest'⟩ := th'
          obtain ⟨rfl, -, rfl⟩ := Thread.mk.inj he
          rw [h₂]
          cases rest' with
          | ret a => exact h
          | raise e => exact h
          | call c k =>
              simp only [erase, List.map_set, hths]
              rfl

/-- **A run goes the same way whatever the protocol.** -/
theorem run_retrack (s : σ) (labels : List (Label T Ω)) :
    (run (S.retrack entry protocol) (start s) labels).erase = (run S (start s) labels).erase := by
  suffices h : ∀ {P : Pool T C R ε α σ Q} {P' : Pool T C R ε α σ Q'}, P'.erase = P.erase →
      (run (S.retrack entry protocol) P' labels).erase = (run S P labels).erase from h rfl
  induction labels with
  | nil => exact fun h => h
  | cons l labels ih => exact fun h => ih (erase_step S entry protocol h l)

end Retrack

end Pool

/-- A program whose calls a second protocol takes no notice of. -/
theorem Prog.Follows.beside {P : Protocol C R ε Q} {P' : Protocol C R ε Q'} (q' : Q')
    (h : ∀ q c, P.allows q c → P'.allows q' c ∧ ∀ r, P'.next q' c r = q')
    {post : Except ε α → Q → Prop} {p : Prog C R ε α} {q : Q} (hp : p.Follows P post q) :
    p.Follows P' (fun _ q₁ => q₁ = q') q' := by
  induction p generalizing q with
  | ret a => rfl
  | raise e => rfl
  | call c k ih =>
      obtain ⟨hallows, hnext⟩ := h q c hp.1
      refine ⟨hallows, fun r => ?_⟩
      rw [hnext]
      exact ih r (hp.2 r)

/-! ### Who holds a latch -/

section Latched

variable {H L : Type} {f f' : H → Option L} {closed closed' : L → Prop}

/-- **A latch is closed if and only if somebody holds it**, and nobody else does. -/
structure Latched (f : H → Option L) (closed : L → Prop) : Prop where
  closed_iff : ∀ l, closed l ↔ ∃ h, f h = some l
  distinct : Distinct f

/-- What a call may do to the latches, and to the one its thread holds. -/
inductive Turn (closed closed' : L → Prop) : Option L → Option L → Prop
  | same {l : Option L} (h : ∀ l, closed' l ↔ closed l) : Turn closed closed' l l
  | close {l : L} (hopen : ¬ closed l) (h : ∀ l', closed' l' ↔ l' = l ∨ closed l') :
      Turn closed closed' none (some l)
  | release {l : L} (h : ∀ l', closed' l' ↔ closed l' ∧ l' ≠ l) : Turn closed closed' (some l) none

theorem Latched.same (hf : Latched f closed) (hsame : ∀ x, f' x = f x)
    (h : ∀ l, closed' l ↔ closed l) : Latched f' closed' := by
  obtain rfl : f' = f := funext hsame
  exact ⟨fun l => (h l).trans (hf.closed_iff l), hf.distinct⟩

theorem Latched.close (hf : Latched f closed) {x : H} {l : L} (hother : ∀ y, y ≠ x → f' y = f y)
    (hold : f x = none) (hnew : f' x = some l) (hopen : ¬ closed l)
    (h : ∀ l', closed' l' ↔ l' = l ∨ closed l') : Latched f' closed' := by
  have hfree : ∀ y, f y ≠ some l := fun y hy => hopen ((hf.closed_iff l).2 ⟨y, hy⟩)
  have hheld : ∀ y l', f' y = some l' ↔ y = x ∧ l' = l ∨ f y = some l' := by
    intro y l'
    by_cases hy : y = x
    · subst hy
      rw [hnew, hold]
      simp [eq_comm]
    · rw [hother y hy]
      simp [hy]
  refine ⟨fun l' => ?_, hf.distinct.taken hfree fun y l' => (hheld y l').1⟩
  rw [h, hf.closed_iff]
  constructor
  · rintro (rfl | ⟨y, hy⟩)
    · exact ⟨x, hnew⟩
    · exact ⟨y, (hheld y l').2 (Or.inr hy)⟩
  · rintro ⟨y, hy⟩
    exact ((hheld y l').1 hy).imp And.right fun hy => ⟨y, hy⟩

theorem Latched.release (hf : Latched f closed) {x : H} {l : L}
    (hother : ∀ y, y ≠ x → f' y = f y) (hold : f x = some l) (hnew : f' x = none)
    (h : ∀ l', closed' l' ↔ closed l' ∧ l' ≠ l) : Latched f' closed' := by
  have hheld : ∀ y l', f' y = some l' ↔ f y = some l' ∧ l' ≠ l := by
    intro y l'
    by_cases hy : y = x
    · subst hy
      rw [hnew, hold]
      simp [eq_comm]
    · rw [hother y hy]
      refine (and_iff_left_of_imp fun hl' he => hy ?_).symm
      exact hf.distinct y x l (he ▸ hl') hold
  refine ⟨fun l' => ?_, hf.distinct.released fun y l' hy => ((hheld y l').1 hy).1⟩
  rw [h, hf.closed_iff, ← exists_and_right]
  exact exists_congr fun y => (hheld y l').symm

/-- **One turn keeps the latches.** -/
theorem Latched.turn (hf : Latched f closed) {x : H} (hother : ∀ y, y ≠ x → f' y = f y)
    (hturn : Turn closed closed' (f x) (f' x)) : Latched f' closed' := by
  generalize hold : f x = old at hturn
  generalize hnew : f' x = new at hturn
  cases hturn with
  | same h =>
      refine hf.same (fun y => ?_) h
      by_cases hy : y = x
      · rw [hy, hold, hnew]
      · exact hother y hy
  | close hopen h => exact hf.close hother hold hnew hopen h
  | release h => exact hf.release hother hold hnew h

end Latched

/-! ### Every run -/

section Runs

variable {L : Type} {S : System T C R ε α σ Ω Q} {post : T → Except ε α → Q → Prop}

/-- The latch that thread `i` holds, as its stage says. -/
def holding (held : T → Q → Option L) (stages : List (T × Q)) (i : ℕ) : Option L :=
  stages[i]?.bind fun s => held s.1 s.2

/-- **In every run the latches are as the threads hold them**, if every call is a turn. -/
theorem Pool.latched {held : T → Q → Option L} {closed : σ → L → Prop}
    (hbody : ∀ t, (S.body t).Follows (S.protocol t) (post t) (S.entry t))
    (hentry : ∀ t, held t (S.entry t) = none)
    (hspawn : ∀ t w w', S.spawn t w = some w' → ∀ l, closed w' l ↔ closed w l)
    (hcall : ∀ t q c ω w, (S.protocol t).allows q c → Turn (closed w) (closed (S.exec ω c w).2)
      (held t q) (held t ((S.protocol t).next q c (S.exec ω c w).1)))
    {s : σ} (hs : ∀ l, ¬ closed s l) (labels : List (Label T Ω)) :
    Tracked S post (run S (start s) labels) ∧
      Latched (holding held (run S (start s) labels).stages)
        (closed (run S (start s) labels).world) := by
  have hall : Along S (fun _ _ => True) (start s) labels :=
    along_of_forall (fun _ _ => trivial) _ labels
  refine Pool.invariant hbody (J := fun w stages => Latched (holding held stages) (closed w))
    (fun P t w hJ _ hw => ?_) (fun P i t q c ω hJ _ hi _ hallows => ?_) hall (tracked_start post s)
    ⟨fun l => iff_of_false (hs l) ?_, ?_⟩
  · refine hJ.same (fun j => ?_) (hspawn t _ _ hw)
    unfold holding
    rw [List.getElem?_append]
    split_ifs with hlt
    · rfl
    · rw [List.getElem?_eq_none (Nat.le_of_not_lt hlt), List.getElem?_singleton]
      split_ifs
      · exact hentry t
      · rfl
  · have hlt := (List.getElem?_eq_some_iff.1 hi).1
    refine hJ.turn (x := i) (fun j hj => ?_) ?_
    · unfold holding
      rw [List.getElem?_set, if_neg hj.symm]
    · unfold holding
      rw [List.getElem?_set, if_pos rfl, if_pos hlt, hi]
      exact hcall t q c ω _ hallows
  · rintro ⟨i, h⟩
    cases h
  · intro i i' l h
    cases h

end Runs

end LedgerEngine
