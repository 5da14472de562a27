/-
# Programs that run at the same time

A pool is a world and a list of threads, each a program with the calls it has
still to make.  A step spawns a new thread or lets one thread make its next
call, so a run of steps is an interleaving at the granularity of single calls
(`Pool.run`).  Threads never leave the list: one whose program has returned or
thrown makes no further step, and one that is never stepped again has stopped.

A `Protocol` says where a thread is: its stage changes with every call and what
the call settled to, and at each stage only some calls are allowed.  The stage
is kept in the thread as ghost state.  That a program keeps to its protocol is
a fact about the program alone (`Prog.Follows`, with one rule for each way of
writing programs); what the stages mean for the world is then one statement,
kept by every allowed call, and `Pool.invariant` makes it hold after every run.

Some properties only hold of runs whose steps meet a condition; `Along` is such
a run.
-/

import LedgerEngine.Async.Program

namespace LedgerEngine

/-- The stages `Q` of a program: which calls it may make at each, and where it
is once the call has settled. -/
structure Protocol (C : Type) (R : C → Type) (ε Q : Type) where
  next : Q → (c : C) → Except ε (R c) → Q
  allows : Q → C → Prop

/-- The protocol for those of the calls that `f` names. -/
def Protocol.comap {C C' : Type} {R : C → Type} {ε Q : Type} (P : Protocol C R ε Q) (f : C' → C) :
    Protocol C' (fun c => R (f c)) ε Q where
  next q c r := P.next q (f c) r
  allows q c := P.allows q (f c)

namespace Prog

variable {C : Type} {R : C → Type} {ε α β σ Q : Type}

/-- The program, at stage `q`, keeps to the protocol, and ends with a result and
at a stage that satisfy `post`. -/
def Follows (P : Protocol C R ε Q) (post : Except ε α → Q → Prop) : Prog C R ε α → Q → Prop
  | .ret a, q => post (.ok a) q
  | .raise e, q => post (.error e) q
  | .call c k, q => P.allows q c ∧ ∀ r, (k r).Follows P post (P.next q c r)

namespace Follows

variable {P : Protocol C R ε Q} {q : Q}

theorem mono {post post' : Except ε α → Q → Prop} {p : Prog C R ε α} (h : p.Follows P post q)
    (hpost : ∀ r q', post r q' → post' r q') : p.Follows P post' q := by
  induction p generalizing q with
  | ret a => exact hpost _ _ h
  | raise e => exact hpost _ _ h
  | call c k ih => exact ⟨h.1, fun r => ih r (h.2 r)⟩

theorem bind {mid : Except ε α → Q → Prop} {post : Except ε β → Q → Prop} {p : Prog C R ε α}
    {f : α → Prog C R ε β} (hp : p.Follows P mid q)
    (hok : ∀ a q', mid (.ok a) q' → (f a).Follows P post q')
    (herror : ∀ e q', mid (.error e) q' → post (.error e) q') : (p.bind f).Follows P post q := by
  induction p generalizing q with
  | ret a => exact hok a q hp
  | raise e => exact herror e q hp
  | call c k ih => exact ⟨hp.1, fun r => ih r (hp.2 r)⟩

theorem tryCatch (mid : Except ε α → Q → Prop) {post : Except ε α → Q → Prop} {p : Prog C R ε α}
    {f : ε → Prog C R ε α} (hp : p.Follows P mid q) (hok : ∀ a q', mid (.ok a) q' → post (.ok a) q')
    (herror : ∀ e q', mid (.error e) q' → (f e).Follows P post q') :
    (p.tryCatch f).Follows P post q := by
  induction p generalizing q with
  | ret a => exact hok a q hp
  | raise e => exact herror e q hp
  | call c k ih => exact ⟨hp.1, fun r => ih r (hp.2 r)⟩

theorem andThen (mid : Except ε α → Q → Prop) {post : Except ε β → Q → Prop} {p : Prog C R ε α}
    {f : Except ε α → Prog C R ε β} (hp : p.Follows P mid q)
    (h : ∀ r q', mid r q' → (f r).Follows P post q') : (p.andThen f).Follows P post q := by
  induction p generalizing q with
  | ret a => exact h _ q hp
  | raise e => exact h _ q hp
  | call c k ih => exact ⟨hp.1, fun r => ih r (hp.2 r)⟩

/-- **An expanded program keeps to the protocol** if each of its calls, carried
out, leads from the stages `I` back to them. -/
theorem expand {C' : Type} {R' : C' → Type} {I : Q → Prop} {f : (c : C') → Prog C R ε (R' c)}
    (hf : ∀ c q, I q → (f c).Follows P (fun _ => I) q) (p : Prog C' R' ε α) (hq : I q) :
    (p.expand f).Follows P (fun _ => I) q := by
  induction p generalizing q with
  | ret a => exact hq
  | raise e => exact hq
  | call c k ih => exact (hf c q hq).andThen _ fun r q' hq' => ih r hq'

/-- **A program whose calls are some of the calls** keeps to the protocol if it
keeps to what the protocol says of them. -/
theorem expand_await {C' : Type} {f : C' → C} {post : Except ε α → Q → Prop}
    {p : Prog C' (fun c => R (f c)) ε α} (hp : p.Follows (P.comap f) post q) :
    (p.expand fun c => Prog.await (f c)).Follows P post q := by
  induction p generalizing q with
  | ret a => exact hp
  | raise e => exact hp
  | call c k ih =>
      refine ⟨hp.1, fun r => ?_⟩
      cases r with
      | ok r => exact ih (.ok r) (hp.2 (.ok r))
      | error e => exact ih (.error e) (hp.2 (.error e))

/-- The rule for `let x ← await c; f x`. -/
theorem await_bind {post : Except ε β → Q → Prop} {c : C} {f : R c → Prog C R ε β}
    (hc : P.allows q c) (hok : ∀ r, (f r).Follows P post (P.next q c (.ok r)))
    (herror : ∀ e, post (.error e) (P.next q c (.error e))) :
    ((Prog.await c : Prog C R ε (R c)).bind f).Follows P post q := by
  refine ⟨hc, fun r => ?_⟩
  cases r with
  | ok r => exact hok r
  | error e => exact herror e

theorem await {post : Except ε (R c) → Q → Prop} (hc : P.allows q c)
    (h : ∀ r, post r (P.next q c r)) : (Prog.await c : Prog C R ε (R c)).Follows P post q := by
  refine ⟨hc, fun r => ?_⟩
  cases r with
  | ok r => exact h (.ok r)
  | error e => exact h (.error e)

end Follows
end Prog

/-! ### Pools -/

/-- A thread: what it was started for, where it is, and what it has still to do. -/
structure Thread (T C : Type) (R : C → Type) (ε α Q : Type) where
  tag : T
  stage : Q
  rest : Prog C R ε α

/-- A world and the threads that share it, in the order they were spawned. -/
structure Pool (T C : Type) (R : C → Type) (ε α σ Q : Type) where
  world : σ
  threads : List (Thread T C R ε α Q)

/-- The programs `T` names, the calls they make and the protocol they keep to.
A call settles by what is drawn for it (`Ω`) and the world; `spawn` says whether
a thread may start now and what starting it does to the world. -/
structure System (T C : Type) (R : C → Type) (ε α σ Ω Q : Type) where
  exec : Ω → Prog.Handler C R ε σ
  body : T → Prog C R ε α
  spawn : T → σ → Option σ
  entry : T → Q
  protocol : T → Protocol C R ε Q

/-- A step of a pool. -/
inductive Label (T Ω : Type) : Type
  | spawn (t : T)
  | step (i : ℕ) (ω : Ω)

variable {T C : Type} {R : C → Type} {ε α σ Ω Q : Type}

/-- The call a thread is about to make. -/
def Thread.head (th : Thread T C R ε α Q) : Option C :=
  match th.rest with
  | .call c _ => some c
  | _ => none

namespace Pool

/-- The pool before any thread is spawned. -/
def start (s : σ) : Pool T C R ε α σ Q := ⟨s, []⟩

/-- What each thread was started for and where it is. -/
def stages (P : Pool T C R ε α σ Q) : List (T × Q) := P.threads.map fun th => (th.tag, th.stage)

/-- No thread has a call left to make. -/
def AtRest (P : Pool T C R ε α σ Q) : Prop := ∀ th ∈ P.threads, th.head = none

instance (P : Pool T C R ε α σ Q) : Decidable P.AtRest :=
  decidable_of_iff (∀ th ∈ P.threads, th.head.isNone = true) <| by
    simp only [AtRest, Option.isNone_iff_eq_none]

/-- One step. -/
def step (S : System T C R ε α σ Ω Q) (P : Pool T C R ε α σ Q) :
    Label T Ω → Pool T C R ε α σ Q
  | .spawn t =>
      match S.spawn t P.world with
      | some s => ⟨s, P.threads ++ [⟨t, S.entry t, S.body t⟩]⟩
      | none => P
  | .step i ω =>
      match P.threads[i]? with
      | some ⟨t, q, .call c k⟩ =>
          ⟨(S.exec ω c P.world).2, P.threads.set i
            ⟨t, (S.protocol t).next q c (S.exec ω c P.world).1, k (S.exec ω c P.world).1⟩⟩
      | _ => P

/-- A run: steps one after the other. -/
def run (S : System T C R ε α σ Ω Q) (P : Pool T C R ε α σ Q) (labels : List (Label T Ω)) :
    Pool T C R ε α σ Q :=
  labels.foldl (step S) P

/-- Every step of the run is made in a state in which `ok` allows it. -/
def Along (S : System T C R ε α σ Ω Q) (ok : Pool T C R ε α σ Q → Label T Ω → Prop) :
    Pool T C R ε α σ Q → List (Label T Ω) → Prop
  | _, [] => True
  | P, l :: labels => ok P l ∧ Along S ok (step S P l) labels

instance Along.decidable (S : System T C R ε α σ Ω Q)
    (ok : Pool T C R ε α σ Q → Label T Ω → Prop) [∀ P l, Decidable (ok P l)] :
    ∀ (labels : List (Label T Ω)) (P : Pool T C R ε α σ Q), Decidable (Along S ok P labels)
  | [], _ => isTrue trivial
  | l :: labels, P =>
      have := Along.decidable S ok labels (step S P l)
      inferInstanceAs (Decidable (ok P l ∧ Along S ok (step S P l) labels))

variable {S : System T C R ε α σ Ω Q} {ok : Pool T C R ε α σ Q → Label T Ω → Prop}
  {P : Pool T C R ε α σ Q}

theorem run_append (labels labels' : List (Label T Ω)) :
    run S P (labels ++ labels') = run S (run S P labels) labels' :=
  List.foldl_append

theorem along_append {labels labels' : List (Label T Ω)} :
    Along S ok P (labels ++ labels') ↔
      Along S ok P labels ∧ Along S ok (run S P labels) labels' := by
  induction labels generalizing P with
  | nil => simp [Along, run]
  | cons l labels ih =>
      rw [List.cons_append, Along, Along, ih, and_assoc]
      rfl

/-- Where every step is allowed, every run is one of allowed steps. -/
theorem along_of_forall (h : ∀ P l, ok P l) (P : Pool T C R ε α σ Q) (labels : List (Label T Ω)) :
    Along S ok P labels := by
  induction labels generalizing P with
  | nil => trivial
  | cons l labels ih => exact ⟨h P l, ih _⟩

/-- **What every allowed step keeps holds after every run of allowed steps.** -/
theorem Along.induction {J : Pool T C R ε α σ Q → Prop}
    (hstep : ∀ P l, J P → ok P l → J (step S P l)) {labels : List (Label T Ω)}
    (h : Along S ok P labels) (hJ : J P) : J (run S P labels) := by
  induction labels generalizing P with
  | nil => exact hJ
  | cons l labels ih => exact ih h.2 (hstep P l hJ h.1)

/-- Every thread is where its stage says: its program keeps to the protocol. -/
def Tracked (S : System T C R ε α σ Ω Q) (post : T → Except ε α → Q → Prop)
    (P : Pool T C R ε α σ Q) : Prop :=
  ∀ th ∈ P.threads, th.rest.Follows (S.protocol th.tag) (post th.tag) th.stage

theorem tracked_start (post : T → Except ε α → Q → Prop) (s : σ) : Tracked S post (start s) :=
  fun _ h => absurd h List.not_mem_nil

/-- A thread that has no call left to make has ended. -/
theorem Tracked.ended {post : T → Except ε α → Q → Prop} (h : Tracked S post P)
    {th : Thread T C R ε α Q} (hth : th ∈ P.threads) (hrest : th.head = none) :
    ∃ r, post th.tag r th.stage := by
  obtain ⟨t, q, rest⟩ := th
  have hfollows := h _ hth
  cases rest with
  | ret a => exact ⟨_, hfollows⟩
  | raise e => exact ⟨_, hfollows⟩
  | call c k => exact absurd hrest (by simp [Thread.head])

/-- What a step is, when it is not idle. -/
inductive Stepped (S : System T C R ε α σ Ω Q) (P : Pool T C R ε α σ Q) :
    Label T Ω → Pool T C R ε α σ Q → Prop
  | idle (l : Label T Ω) : Stepped S P l P
  | spawned (t : T) {s : σ} (h : S.spawn t P.world = some s) :
      Stepped S P (.spawn t) ⟨s, P.threads ++ [⟨t, S.entry t, S.body t⟩]⟩
  | called (i : ℕ) (ω : Ω) {t : T} {q : Q} {c : C} {k : Except ε (R c) → Prog C R ε α}
      (h : P.threads[i]? = some ⟨t, q, .call c k⟩) :
      Stepped S P (.step i ω) ⟨(S.exec ω c P.world).2, P.threads.set i
        ⟨t, (S.protocol t).next q c (S.exec ω c P.world).1, k (S.exec ω c P.world).1⟩⟩

theorem stepped (S : System T C R ε α σ Ω Q) (P : Pool T C R ε α σ Q) (l : Label T Ω) :
    Stepped S P l (step S P l) := by
  cases l with
  | spawn t =>
      cases h : S.spawn t P.world with
      | none => simpa only [step, h] using .idle _
      | some s => simpa only [step, h] using .spawned t h
  | step i ω =>
      cases h : P.threads[i]? with
      | none => simpa only [step, h] using .idle _
      | some th =>
          obtain ⟨t, q, rest⟩ := th
          cases rest with
          | ret a => simpa only [step, h] using .idle _
          | raise e => simpa only [step, h] using .idle _
          | call c k => simpa only [step, h] using .called i ω h

theorem Tracked.step {post : T → Except ε α → Q → Prop}
    (hbody : ∀ t, (S.body t).Follows (S.protocol t) (post t) (S.entry t)) (h : Tracked S post P)
    (l : Label T Ω) : Tracked S post (step S P l) := by
  have hs := stepped S P l
  generalize Pool.step S P l = P' at hs
  cases hs with
  | idle => exact h
  | spawned t _ =>
      intro th hth
      rcases List.mem_append.1 hth with hth | hth
      · exact h th hth
      · obtain rfl := List.mem_singleton.1 hth
        exact hbody t
  | called i ω hi =>
      intro th hth
      rcases List.mem_or_eq_of_mem_set hth with hth | rfl
      · exact h th hth
      · exact (h _ (List.mem_of_getElem? hi)).2 _

/-- **What every allowed call keeps holds after every run.**  `J` speaks of the
world and of where the threads are; it has to survive the admission of a thread
and each call the protocol allows. -/
theorem invariant {post : T → Except ε α → Q → Prop}
    (hbody : ∀ t, (S.body t).Follows (S.protocol t) (post t) (S.entry t))
    {J : σ → List (T × Q) → Prop}
    (hspawn : ∀ (P : Pool T C R ε α σ Q) t s, J P.world P.stages → ok P (.spawn t) →
      S.spawn t P.world = some s → J s (P.stages ++ [(t, S.entry t)]))
    (hcall : ∀ (P : Pool T C R ε α σ Q) i t q c ω, J P.world P.stages → ok P (.step i ω) →
      P.stages[i]? = some (t, q) → P.threads[i]?.bind Thread.head = some c →
      (S.protocol t).allows q c →
      J (S.exec ω c P.world).2
        (P.stages.set i (t, (S.protocol t).next q c (S.exec ω c P.world).1)))
    {labels : List (Label T Ω)} (h : Along S ok P labels) (hP : Tracked S post P)
    (hJ : J P.world P.stages) :
    Tracked S post (run S P labels) ∧ J (run S P labels).world (run S P labels).stages := by
  refine h.induction (J := fun P => Tracked S post P ∧ J P.world P.stages) (fun P l hl hok => ?_)
    ⟨hP, hJ⟩
  refine ⟨hl.1.step hbody l, ?_⟩
  have hs := stepped S P l
  generalize Pool.step S P l = P' at hs
  cases hs with
  | idle => exact hl.2
  | spawned t ht =>
      have := hspawn P t _ hl.2 hok ht
      simpa [stages] using this
  | @called i ω t q c k hi =>
      have hallows := (hl.1 _ (List.mem_of_getElem? hi)).1
      have hstage : P.stages[i]? = some (t, q) := by simp [stages, hi]
      have := hcall P i t q c ω hl.2 hok hstage (by simp [hi, Thread.head]) hallows
      simpa [stages, List.map_set] using this

end Pool
end LedgerEngine
