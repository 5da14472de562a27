/-
# What a program does alone

`Triple exec ok pre p post` says of a program that runs alone: from a state that
satisfies `pre` it ends with a result and in a state that satisfy `post`, provided
every call it makes is made in a state in which `ok` allows it (`Meets`).  The
postcondition speaks of returning and of throwing.

There is one rule for each way of writing programs (`Triple.bind`,
`Triple.tryCatch`, `Triple.await`), one for a program whose calls are programs
themselves (`Triple.expand`), and one for a program that keeps to a protocol:
what every allowed call keeps is kept to the end (`Follows.triple`).
-/

import LedgerEngine.Async.Pool

namespace LedgerEngine
namespace Prog

variable {C : Type} {R : C → Type} {ε α β σ Q : Type}

/-- Every call is made in a state in which `ok` allows it. -/
def Meets (exec : Handler C R ε σ) (ok : C → σ → Prop) : Prog C R ε α → σ → Prop
  | .ret _, _ => True
  | .raise _, _ => True
  | .call c k, s => ok c s ∧ (k (exec c s).1).Meets exec ok (exec c s).2

instance Meets.decidable (exec : Handler C R ε σ) (ok : C → σ → Prop) [∀ c s, Decidable (ok c s)] :
    ∀ (p : Prog C R ε α) (s : σ), Decidable (p.Meets exec ok s)
  | .ret _, _ => isTrue trivial
  | .raise _, _ => isTrue trivial
  | .call c k, s =>
      have := Meets.decidable exec ok (k (exec c s).1) (exec c s).2
      inferInstanceAs (Decidable (ok c s ∧ _))

/-- From a state in `pre`, if every call meets `ok`, the program ends in `post`. -/
def Triple (exec : Handler C R ε σ) (ok : C → σ → Prop) (pre : σ → Prop) (p : Prog C R ε α)
    (post : Except ε α → σ → Prop) : Prop :=
  ∀ s, pre s → p.Meets exec ok s → post (p.eval exec s).1 (p.eval exec s).2

section Meets

variable {exec : Handler C R ε σ} {ok : C → σ → Prop} {s : σ}

theorem meets_bind {p : Prog C R ε α} {f : α → Prog C R ε β} (h : (p.bind f).Meets exec ok s) :
    p.Meets exec ok s ∧
      ∀ a, (p.eval exec s).1 = .ok a → (f a).Meets exec ok (p.eval exec s).2 := by
  induction p generalizing s with
  | ret a =>
      refine ⟨trivial, fun b hb => ?_⟩
      obtain rfl := Except.ok.inj hb
      exact h
  | raise e => exact ⟨trivial, fun b hb => absurd hb (by simp)⟩
  | call c k ih =>
      obtain ⟨hk, hf⟩ := ih _ h.2
      exact ⟨⟨h.1, hk⟩, hf⟩

theorem meets_tryCatch {p : Prog C R ε α} {f : ε → Prog C R ε α}
    (h : (p.tryCatch f).Meets exec ok s) :
    p.Meets exec ok s ∧
      ∀ e, (p.eval exec s).1 = .error e → (f e).Meets exec ok (p.eval exec s).2 := by
  induction p generalizing s with
  | ret a => exact ⟨trivial, fun e he => absurd he (by simp)⟩
  | raise e =>
      refine ⟨trivial, fun e' he => ?_⟩
      obtain rfl := Except.error.inj he
      exact h
  | call c k ih =>
      obtain ⟨hk, hf⟩ := ih _ h.2
      exact ⟨⟨h.1, hk⟩, hf⟩

theorem meets_andThen {p : Prog C R ε α} {f : Except ε α → Prog C R ε β}
    (h : (p.andThen f).Meets exec ok s) :
    p.Meets exec ok s ∧ (f (p.eval exec s).1).Meets exec ok (p.eval exec s).2 := by
  induction p generalizing s with
  | ret a => exact ⟨trivial, h⟩
  | raise e => exact ⟨trivial, h⟩
  | call c k ih =>
      obtain ⟨hk, hf⟩ := ih _ h.2
      exact ⟨⟨h.1, hk⟩, hf⟩

/-- The calls of an expanded program are those of its calls. -/
theorem meets_expand {C' : Type} {R' : C' → Type} {f : (c : C') → Prog C R ε (R' c)}
    {p : Prog C' R' ε α} (h : (p.expand f).Meets exec ok s) :
    p.Meets (fun c s => (f c).eval exec s) (fun c s => (f c).Meets exec ok s) s := by
  induction p generalizing s with
  | ret a => trivial
  | raise e => trivial
  | call c k ih =>
      obtain ⟨hc, hk⟩ := meets_andThen h
      exact ⟨hc, ih _ hk⟩

/-- Where every call is allowed, every program meets that. -/
theorem meets_of_forall (h : ∀ c s, ok c s) (p : Prog C R ε α) (s : σ) : p.Meets exec ok s := by
  induction p generalizing s with
  | ret a => trivial
  | raise e => trivial
  | call c k ih => exact ⟨h c s, ih _ _⟩

theorem eval_tryCatch (exec : Handler C R ε σ) (p : Prog C R ε α) (f : ε → Prog C R ε α) (s : σ) :
    (p.tryCatch f).eval exec s =
      match p.eval exec s with
      | (.ok a, s') => (.ok a, s')
      | (.error e, s') => (f e).eval exec s' := by
  induction p generalizing s with
  | ret a => rfl
  | raise e => rfl
  | call c k ih => exact ih _ _

end Meets

section Rules

variable {exec : Handler C R ε σ} {ok : C → σ → Prop} {pre : σ → Prop}

theorem Triple.ret {a : α} {post : Except ε α → σ → Prop} (h : ∀ s, pre s → post (.ok a) s) :
    Triple exec ok pre (.ret a) post :=
  fun s hs _ => h s hs

theorem Triple.mono {p : Prog C R ε α} {pre' : σ → Prop} {post post' : Except ε α → σ → Prop}
    (h : Triple exec ok pre' p post') (hpre : ∀ s, pre s → pre' s)
    (hpost : ∀ r s, post' r s → post r s) : Triple exec ok pre p post :=
  fun s hs hp => hpost _ _ (h s (hpre s hs) hp)

theorem Triple.await {c : C} {post : Except ε (R c) → σ → Prop}
    (h : ∀ s, pre s → ok c s → post (exec c s).1 (exec c s).2) :
    Triple exec ok pre (Prog.await c) post := by
  intro s hs hp
  rw [eval_await]
  exact h s hs hp.1

/-- **The rule for a sequence.** -/
theorem Triple.bind {p : Prog C R ε α} {f : α → Prog C R ε β} (mid : Except ε α → σ → Prop)
    {post : Except ε β → σ → Prop} (hp : Triple exec ok pre p mid)
    (hf : ∀ a, Triple exec ok (mid (.ok a)) (f a) post)
    (herror : ∀ e s, mid (.error e) s → post (.error e) s) :
    Triple exec ok pre (p.bind f) post := by
  intro s hs h
  obtain ⟨hmeets, hnext⟩ := meets_bind h
  have hmid := hp s hs hmeets
  rw [eval_bind]
  generalize p.eval exec s = x at hmid hnext ⊢
  obtain ⟨r, s'⟩ := x
  cases r with
  | ok a => exact hf a s' hmid (hnext a rfl)
  | error e => exact herror e s' hmid

/-- **The rule for `try` and `catch`.** -/
theorem Triple.tryCatch {p : Prog C R ε α} {f : ε → Prog C R ε α} (mid : Except ε α → σ → Prop)
    {post : Except ε α → σ → Prop} (hp : Triple exec ok pre p mid)
    (hok : ∀ a s, mid (.ok a) s → post (.ok a) s)
    (hf : ∀ e, Triple exec ok (mid (.error e)) (f e) post) :
    Triple exec ok pre (p.tryCatch f) post := by
  intro s hs h
  obtain ⟨hmeets, hnext⟩ := meets_tryCatch h
  have hmid := hp s hs hmeets
  rw [eval_tryCatch]
  generalize p.eval exec s = x at hmid hnext ⊢
  obtain ⟨r, s'⟩ := x
  cases r with
  | ok a => exact hok a s' hmid
  | error e => exact hf e s' hmid (hnext e rfl)

/-- The rule for a program and what its result leads to. -/
theorem Triple.andThen {p : Prog C R ε α} {f : Except ε α → Prog C R ε β}
    (mid : Except ε α → σ → Prop) {post : Except ε β → σ → Prop} (hp : Triple exec ok pre p mid)
    (hf : ∀ r, Triple exec ok (mid r) (f r) post) : Triple exec ok pre (p.andThen f) post := by
  intro s hs h
  obtain ⟨hmeets, hnext⟩ := meets_andThen h
  rw [eval_andThen]
  exact hf _ _ (hp s hs hmeets) hnext

/-- **What each program keeps, all of them keep**, run with `Promise.all`. -/
theorem Triple.promiseAll {ps : List (Prog C R ε Unit)}
    (h : ∀ p ∈ ps, Triple exec ok pre p fun _ => pre) :
    Triple exec ok pre (Prog.promiseAll ps) fun _ => pre := by
  have hall : Triple exec ok pre (settleAll ps) fun _ => pre := by
    induction ps with
    | nil => exact Triple.ret fun _ hs => hs
    | cons p ps ih =>
        refine Triple.andThen _ (h p (List.mem_cons_self ..)) fun r => ?_
        refine Triple.bind _ (ih fun p' hp' => h p' (List.mem_cons_of_mem _ hp')) (fun failed => ?_)
          fun _ _ hs => hs
        cases r with
        | ok _ => exact Triple.ret fun _ hs => hs
        | error _ => exact Triple.ret fun _ hs => hs
  refine Triple.bind _ hall (fun failed => ?_) fun _ _ hs => hs
  cases failed with
  | none => exact Triple.ret fun _ hs => hs
  | some e => exact fun _ hs _ => hs

/-- **Programs that return one after the other, all of them run**: `J` says what is
the case when those of a list are still to run. -/
theorem Triple.promiseAll_ok {δ : Type} {f : δ → Prog C R ε Unit} {J : List δ → σ → Prop}
    (h : ∀ d ds, Triple exec ok (J (d :: ds)) (f d) fun r s => r = .ok () ∧ J ds s)
    (ds : List δ) :
    Triple exec ok (J ds) (Prog.promiseAll (ds.map f)) fun r s => r = .ok () ∧ J [] s := by
  have hall : Triple exec ok (J ds) (settleAll (ds.map f)) fun r s => r = .ok none ∧ J [] s := by
    induction ds with
    | nil => exact Triple.ret fun _ hs => ⟨rfl, hs⟩
    | cons d ds ih =>
        refine Triple.andThen _ (h d ds) fun r => ?_
        refine Triple.bind (fun r' s => r = .ok () ∧ r' = .ok none ∧ J [] s) ?_ (fun failed => ?_)
          fun e s hs => absurd hs.2.1 (by simp)
        · exact fun s hs hmeets => ⟨hs.1, ih s hs.2 hmeets⟩
        · rintro s ⟨rfl, hfailed, hs⟩ -
          obtain rfl := Except.ok.inj hfailed
          exact ⟨rfl, hs⟩
  refine Triple.bind _ hall (fun failed => ?_) fun e s hs => absurd hs.1 (by simp)
  rintro s ⟨hfailed, hs⟩ -
  obtain rfl := Except.ok.inj hfailed
  exact ⟨rfl, hs⟩

/-- **The rule for a program whose calls are programs**: it may be reasoned about
with each of its calls as one step. -/
theorem Triple.expand {C' : Type} {R' : C' → Type} {f : (c : C') → Prog C R ε (R' c)}
    {p : Prog C' R' ε α} {post : Except ε α → σ → Prop}
    (h : Triple (fun c s => (f c).eval exec s) (fun c s => (f c).Meets exec ok s) pre p post) :
    Triple exec ok pre (p.expand f) post := by
  intro s hs hp
  rw [eval_expand]
  exact h s hs (meets_expand hp)

/-- **A program that keeps to a protocol keeps what every allowed call keeps.** -/
theorem Follows.triple {P : Protocol C R ε Q} {post : Except ε α → Q → Prop} (J : Q → σ → Prop)
    (hstep : ∀ q c s, J q s → P.allows q c → ok c s → J (P.next q c (exec c s).1) (exec c s).2)
    {p : Prog C R ε α} {q : Q} (hp : p.Follows P post q) :
    Triple exec ok (J q) p fun r s => ∃ q', post r q' ∧ J q' s := by
  intro s hJ h
  induction p generalizing q s with
  | ret a => exact ⟨q, hp, hJ⟩
  | raise e => exact ⟨q, hp, hJ⟩
  | call c k ih => exact ih _ (hp.2 _) _ (hstep q c s hJ hp.1 h.1) h.2

end Rules

end Prog
end LedgerEngine
