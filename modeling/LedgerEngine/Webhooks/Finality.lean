/-
# Terminal deliveries are final

Any number of attempts on one delivery may overlap: `processDelivery` reads the
row, makes its POST, and then updates the row whatever it has become.  An
attempt that failed so writes PENDING over the SUCCESS of another
(`terminal_overwritten`).  Where an outcome becomes terminal only while no other
attempt on the delivery is under way, a terminal row never changes again and no
further POST is made for it (`terminal_final`).
-/

import LedgerEngine.Webhooks.Stages

namespace LedgerEngine
namespace Webhooks

/-- The threads that share the tables and the queue. -/
abbrev Threads := Pool Call Command Command.Res Exception Unit World Stage

/-- The thread has read the delivery and not yet recorded how its attempt went. -/
def Stage.holds (d : Uuid) : Stage → Bool
  | .attempting _ d' _ _ => d' = d
  | _ => false

/-- The delivery a call makes terminal. -/
def Command.concludes : Command → Option Uuid
  | .updateDelivery d p => if p.status = .pending then none else some d
  | _ => none

/-- No step loses the answer of a call. -/
def Clean : Label Call Draw → Prop
  | .spawn _ => True
  | .step _ ω => ω.Clean

/-- A terminal outcome is recorded while no other attempt on the delivery is
under way. -/
def Unshared (P : Threads) : Label Call Draw → Prop
  | .spawn _ => True
  | .step i _ => ∀ d ∈ (P.threads[i]?.bind Thread.head).bind Command.concludes,
      ∀ th ∈ P.threads.eraseIdx i, th.stage.holds d = false

instance : (l : Label Call Draw) → Decidable (Clean l)
  | .spawn _ => inferInstanceAs (Decidable True)
  | .step _ ω => inferInstanceAs (Decidable ω.Clean)

instance (P : Threads) : (l : Label Call Draw) → Decidable (Unshared P l)
  | .spawn _ => inferInstanceAs (Decidable True)
  | .step i _ => inferInstanceAs (Decidable
      (∀ d ∈ (P.threads[i]?.bind Thread.head).bind Command.concludes,
        ∀ th ∈ P.threads.eraseIdx i, th.stage.holds d = false))

/-- The row of the delivery is PENDING, if there is one. -/
def World.Open (w : World) (d : Uuid) : Prop :=
  ∀ r, w.deliveries.find? d = some r → r.status = .pending

/-- Only deliveries that are PENDING are being attempted. -/
def Attended (w : World) (ts : List (Call × Stage)) : Prop :=
  ∀ (i : ℕ) (t : Call) (q : Stage) (d : Uuid), ts[i]? = some (t, q) → q.holds d = true → w.Open d

/-- The POSTs made for a delivery: the calls of `fetch`. -/
def World.postsFor (w : World) (d : Uuid) : List (Uuid × Time) := w.posts.filter fun p => p.1 = d

/-- The delivery is terminal as it was in `w₀`, and no POST has been made for it since. -/
def Frozen (w₀ w : World) : Prop :=
  ∀ d r, w₀.deliveries.find? d = some r → r.status ≠ .pending →
    w.deliveries.find? d = some r ∧ w.postsFor d = w₀.postsFor d

section Step

variable {ω : Draw} {c : Command} {w w₀ : World} {ts : List (Call × Stage)} {i : ℕ} {t : Call}
  {q : Stage}

/-- A call on a delivery that is being attempted belongs to that attempt. -/
theorem holds_of_updateDelivery {d : Uuid} {p : DeliveryPatch}
    (hc : q.Allows t (.updateDelivery d p)) : q.holds d = true := by
  cases hc <;> exact decide_eq_true rfl

theorem holds_of_fetch {d : Uuid} {request : WebhookRequest}
    (hc : q.Allows t (.fetch d request)) : q.holds d = true := by
  cases hc
  exact decide_eq_true rfl

/-- **What a call leaves open**: a delivery that was PENDING, or is new, unless the
call makes it terminal. -/
theorem open_exec {d : Uuid} (hc : q.Allows t c) (h : w.Open d) (hd : c.concludes ≠ some d) :
    (exec ω c w).2.Open d := by
  intro r hr
  have heffect := exec_deliveries ω c w
  generalize (exec ω c w).2.deliveries = deliveries at hr heffect
  cases heffect with
  | same => exact h r hr
  | @saved rows saved _ hsave =>
      obtain ⟨hinsert, -, hrows⟩ := saveDeliveries_eq_some hsave
      rcases IndexedTable.find?_insertAll hinsert d with hfind | ⟨-, r', hr', -, hfind⟩
      · exact h r (hfind ▸ hr)
      · obtain rfl := Option.some.inj (hr.symm.trans hfind)
        obtain ⟨new, hnew, id, rfl⟩ := hrows r hr'
        cases hc
        obtain ⟨s, -, rfl⟩ := List.mem_map.1 hnew
        rfl
  | @updated d' p hfits =>
      rw [IndexedTable.find?_update, Option.map_eq_some_iff] at hr
      obtain ⟨r₀, hr₀, rfl⟩ := hr
      have hkey : Keyed.key r₀ = d := (Table.find?_eq_some hr₀).2
      by_cases hd' : d = d'
      · rw [IndexedTable.changed_of_eq (hkey.trans hd')]
        by_contra hs
        have hp : p.status ≠ .pending := hs
        exact hd (by rw [Command.concludes, if_neg hp, hd'])
      · rw [IndexedTable.changed_of_ne (hkey ▸ hd')]
        exact h r₀ hr₀

theorem holds_listed (e : Uuid) (deliveries : List WebhookDeliveryEntity) (d : Uuid) :
    (Stage.listed e deliveries).holds d = false := by
  unfold Stage.listed
  split <;> rfl

theorem holds_read (e : Uuid) (subscriptions : List WebhookSubscriptionEntity)
    (existing : List WebhookDeliveryEntity) (d : Uuid) :
    (Stage.read e subscriptions existing).holds d = false := by
  unfold Stage.read
  split_ifs
  · rfl
  · cases missingSubscriptions subscriptions existing with
    | nil => exact holds_listed e existing d
    | cons s missing => rfl

theorem holds_enqueued (e : Uuid) (todo : List (Uuid × ℕ)) (ok : Bool) (d : Uuid) :
    (Stage.enqueued e todo ok).holds d = false := by
  unfold Stage.enqueued
  split
  · split_ifs <;> rfl
  · rfl

theorem holds_failed (d' e : Uuid) (attempts : ℕ) (nextRetryAt : Option JsDate) (d : Uuid) :
    (Stage.failed d' e attempts nextRetryAt).holds d = false := by
  unfold Stage.failed
  split <;> rfl

theorem holds_next_resting (hq : q.Resting) (r : Except Exception c.Res) (d : Uuid) :
    (q.next c r).holds d = false := by
  cases q with
  | idle =>
      cases r with
      | error _ => rfl
      | ok r => cases c <;> first | rfl | (cases r <;> rfl)
  | returned e =>
      cases r with
      | error _ => rfl
      | ok r => cases c <;> first | rfl | (cases r <;> rfl)
  | _ => exact hq.elim

theorem holds_thrown {d : Uuid} (hq : q.holds d = false) : q.thrown.holds d = false := by
  cases q with
  | attempting phase => cases phase <;> first | rfl | exact hq
  | recorded e via => cases via <;> rfl
  | publishing e status via => cases via <;> rfl
  | _ => rfl

/-- A call that finds no delivery begins no attempt. -/
theorem holds_next {d : Uuid} (hc : q.Allows t c) (hq : q.holds d = false)
    (hstart : ∀ d', q ≠ .starting d') (r : Except Exception c.Res) :
    (q.next c r).holds d = false := by
  cases hc with
  | now =>
      cases r with
      | ok now => rwa [Stage.next_dateNow]
      | error e => cases q <;> exact holds_thrown hq
  | findEvent hq | enterPoll hq | leavePoll hq | findProcessable hq | mark hq =>
      exact holds_next_resting hq r d
  | findSubscriptions => cases r <;> rfl
  | findDeliveries e subscriptions =>
      cases r with
      | ok existing => exact holds_read e subscriptions existing d
      | error _ => rfl
  | create e existing missing =>
      cases r with
      | ok new => exact holds_listed e (existing ++ new) d
      | error _ => rfl
  | enqueue e d' k todo ok => exact holds_enqueued e todo _ d
  | start d' => exact absurd rfl (hstart d')
  | fetch | responseText => cases r <;> exact hq
  | succeed => cases r <;> first | rfl | exact hq
  | fail d' e p =>
      cases r with
      | ok _ => exact holds_failed d' e p.attemptCount p.nextRetryAt d
      | error _ => rfl
  | retry | complete | failJob => cases r <;> rfl
  | recompute e via | publish e via => cases via <;> cases r <;> rfl

theorem stores_of_concludes {d : Uuid} (h : c.concludes = some d) : c.stores = true := by
  cases c with
  | updateDelivery => rfl
  | _ => exact absurd h (by simp [Command.concludes])

theorem holds_next_of_concludes {d d' : Uuid} (hc : q.Allows t c) (h : c.concludes = some d')
    (r : c.Res) : (q.next c (.ok r)).holds d = false := by
  cases hc with
  | succeed => rfl
  | fail d'' e p => exact holds_failed d'' e p.attemptCount p.nextRetryAt d
  | _ => exact absurd h (by simp [Command.concludes])

/-- A delivery that is found and attempted is PENDING. -/
theorem open_found {d d' : Uuid} {load : WebhookDeliveryEntity → LoadedDelivery}
    (hload : ∀ r, (load r).delivery = r)
    (h : (Stage.found ((w.deliveries.find? d').map load)).holds d = true) : w.Open d := by
  cases hrow : w.deliveries.find? d' with
  | none =>
      rw [hrow] at h
      exact absurd h Bool.false_ne_true
  | some r =>
      rw [hrow, Option.map_some] at h
      unfold Stage.found at h
      dsimp only at h
      rw [hload] at h
      split_ifs at h with hterminal
      · exact absurd h Bool.false_ne_true
      · obtain rfl : (load r).delivery.id = d := of_decide_eq_true h
        rw [hload]
        obtain ⟨-, rfl⟩ := Table.find?_eq_some hrow
        intro r' hr'
        obtain rfl := Option.some.inj (hrow.symm.trans hr')
        exact WebhookDeliveryStatus.eq_pending hterminal

/-- **Only an open delivery comes to be attempted.** -/
theorem open_next {d : Uuid} (hω : ω.Clean) (hc : q.Allows t c)
    (h : q.holds d = true → w.Open d) (hd : (q.next c (exec ω c w).1).holds d = true) :
    (exec ω c w).2.Open d := by
  by_cases hq : q.holds d = true
  · by_cases hconcludes : c.concludes = some d
    -- the call makes the delivery terminal, and its attempt goes on only if it is refused
    · cases hr : (exec ω c w).1 with
      | error e =>
          rw [exec_of_error hω (stores_of_concludes hconcludes) hr]
          exact h hq
      | ok r =>
          rw [hr, holds_next_of_concludes hc hconcludes] at hd
          exact absurd hd Bool.false_ne_true
    · exact open_exec hc (h hq) hconcludes
  · rw [Bool.not_eq_true] at hq
    by_cases hstart : ∀ d', q ≠ .starting d'
    · rw [holds_next hc hq hstart] at hd
      exact absurd hd Bool.false_ne_true
    · push Not at hstart
      obtain ⟨d', rfl⟩ := hstart
      cases hc with
      | now => exact absurd (hq.symm.trans hd) Bool.false_ne_true
      | findEvent h | enterPoll h | leavePoll h | findProcessable h | mark h => exact h.elim
      | start =>
          cases hr : (exec ω (.findDelivery d') w).1 with
          | error e =>
              rw [hr] at hd
              exact absurd hd Bool.false_ne_true
          | ok loaded =>
              rw [hr] at hd
              have hexec := exec_of_ok hr
              rw [hexec] at hr ⊢
              obtain rfl : (w.deliveries.find? d').map _ = loaded := Except.ok.inj hr
              exact open_found (fun _ => rfl) hd

/-- **One call keeps only open deliveries attended and terminal ones as they are.** -/
theorem Attended.exec (h : Attended w ts) (hi : ts[i]? = some (t, q)) (hc : q.Allows t c)
    (hω : ω.Clean)
    (hunshared : ∀ d, c.concludes = some d →
      ∀ j u p, j ≠ i → ts[j]? = some (u, p) → p.holds d = false) :
    Attended (exec ω c w).2 (ts.set i (t, q.next c (exec ω c w).1)) := by
  intro j u p d hj hp
  rcases getElem?_set_some hj with ⟨-, e⟩ | ⟨hji, hj⟩
  · rw [(Prod.mk.inj e).2] at hp
    exact open_next hω hc (h i t q d hi) hp
  · refine open_exec hc (h j u p d hj hp) fun hd => ?_
    rw [hunshared d hd j u p hji hj] at hp
    exact Bool.false_ne_true hp

theorem Frozen.exec (h : Frozen w₀ w) (hattended : Attended w ts) (hi : ts[i]? = some (t, q))
    (hc : q.Allows t c) : Frozen w₀ (exec ω c w).2 := by
  intro d r hr hs
  obtain ⟨hrow, hposts⟩ := h d r hr hs
  -- a thread that holds the delivery would see it PENDING
  have hfree (hd : q.holds d = true) : False := hs (hattended i t q d hi hd r hrow)
  constructor
  · have heffect := exec_deliveries ω c w
    generalize (Webhooks.exec ω c w).2.deliveries = deliveries at heffect
    cases heffect with
    | same => exact hrow
    | saved hsave =>
        rcases IndexedTable.find?_insertAll (saveDeliveries_eq_some hsave).1 d with hfind | hnone
        · rwa [hfind]
        · rw [hnone.1] at hrow
          exact absurd hrow (by simp)
    | updated d' hfits =>
        refine (IndexedTable.find?_update_of_ne _ (fun hd => ?_) _).trans hrow
        exact hfree (hd ▸ holds_of_updateDelivery hc)
  · rcases exec_posts ω c w with hsame | ⟨d', request, rfl, hnew⟩
    · rw [World.postsFor, hsame]
      exact hposts
    · have hd : d' ≠ d := fun hd => hfree (hd ▸ holds_of_fetch hc)
      rw [World.postsFor, hnew, List.filter_cons_of_neg (by simpa using hd)]
      exact hposts

end Step

/-- **Only open deliveries are attended and terminal ones stay frozen** along every
history that shares no delivery when it becomes terminal. -/
theorem attended_run (cfg : Config) {P : Threads} {labels : List (Label Call Draw)}
    (h : P.Along (system cfg) (fun P l => Clean l ∧ Unshared P l) labels)
    (htracked : P.Tracked (system cfg) Ended) (hattended : Attended P.world P.stages) :
    (P.run (system cfg) labels).Tracked (system cfg) Ended ∧
      Attended (P.run (system cfg) labels).world (P.run (system cfg) labels).stages ∧
      Frozen P.world (P.run (system cfg) labels).world := by
  let J := fun (w : World) (ts : List (Call × Stage)) => Attended w ts ∧ Frozen P.world w
  refine Pool.invariant (J := J) (body_follows cfg) ?_ ?_ h htracked
    ⟨hattended, fun _ _ hr _ => ⟨hr, rfl⟩⟩
  · rintro P' t w ⟨hattended', hfrozen⟩ - hw
    have hsame : w.deliveries = P'.world.deliveries ∧ w.posts = P'.world.posts := by
      rcases spawn_eq_some hw with rfl | ⟨_, _, _, _, _, rfl⟩ <;> exact ⟨rfl, rfl⟩
    constructor
    · intro j u p d hj hp r hr
      rw [hsame.1] at hr
      rcases getElem?_append_some hj with hj | ⟨-, e⟩
      · exact hattended' j u p d hj hp r hr
      · obtain ⟨-, rfl⟩ := Prod.mk.inj e
        cases t <;> exact absurd hp Bool.false_ne_true
    · intro d r hr hs
      rw [hsame.1, World.postsFor, hsame.2]
      exact hfrozen d r hr hs
  · rintro P' i t q c ω ⟨hattended', hfrozen⟩ ⟨hclean, hunshared⟩ hi hhead hc
    refine ⟨hattended'.exec hi hc hclean fun d hd j u p hji hj => ?_,
      hfrozen.exec hattended' hi hc⟩
    obtain ⟨th, hth, e⟩ := Option.map_eq_some_iff.1 ((List.getElem?_map ..).symm.trans hj)
    obtain ⟨-, rfl⟩ := Prod.mk.inj e
    refine hunshared d (by rw [hhead]; exact hd) th ?_
    rw [List.mem_eraseIdx_iff_getElem?]
    exact ⟨j, hji, hth⟩

/-- **Terminal deliveries are final.**  In every history in which a terminal
outcome is recorded while no other attempt on the delivery is under way, a row
that has become SUCCESS or FAILED never changes again, and no POST is made for it
afterwards. -/
theorem terminal_final (cfg : Config) (w : World) (labels labels' : List (Label Call Draw))
    (h : Pool.Along (system cfg) (fun P l => Clean l ∧ Unshared P l) (.start w)
      (labels ++ labels')) (d : Uuid) (r : WebhookDeliveryEntity)
    (hr : (Pool.run (system cfg) (.start w) labels).world.deliveries.find? d = some r)
    (hs : r.status ≠ .pending) :
    (Pool.run (system cfg) (.start w) (labels ++ labels')).world.deliveries.find? d = some r ∧
      (Pool.run (system cfg) (.start w) (labels ++ labels')).world.postsFor d =
        (Pool.run (system cfg) (.start w) labels).world.postsFor d := by
  obtain ⟨h₁, h₂⟩ := Pool.along_append.1 h
  obtain ⟨htracked, hattended, -⟩ := attended_run cfg h₁ (Pool.tracked_start _ _)
    fun i t q d hi => by simp [Pool.stages, Pool.start] at hi
  obtain ⟨-, -, hfrozen⟩ := attended_run cfg h₂ htracked hattended
  rw [Pool.run_append]
  exact hfrozen d r hr hs

/-! ### Two attempts on one delivery -/

/-- An attempt that succeeds. -/
def succeeding : List (Label Call Draw) :=
  [.spawn (.process sampleDelivery.id), .step 0 (answering 200), .step 0 (answering 200),
    .step 0 (answering 200), .step 0 (answering 200), .step 0 (answering 200)]

/-- A second call of `processDelivery` that begins afterwards. -/
def duplicated : List (Label Call Draw) :=
  [.spawn (.process sampleDelivery.id), .step 1 (answering 500)]

/-- The row a successful attempt leaves. -/
def deliveredRow : WebhookDeliveryEntity :=
  { sampleDelivery with
    status := .success
    attemptCount := 1
    lastAttemptAt := some 0
    nextRetryAt := none
    responseStatus := some 200
    responseBody := some [] }

theorem terminal_final_duplicated :
    (Pool.run (system sampleConfig) (.start sampleWorld)
        (succeeding ++ duplicated)).world.deliveries.find? sampleDelivery.id = some deliveredRow ∧
      (Pool.run (system sampleConfig) (.start sampleWorld)
          (succeeding ++ duplicated)).world.postsFor sampleDelivery.id =
        (Pool.run (system sampleConfig) (.start sampleWorld) succeeding).world.postsFor
          sampleDelivery.id :=
  terminal_final sampleConfig sampleWorld succeeding duplicated (by decide) sampleDelivery.id
    deliveredRow (by decide) (by decide)

/-- Two attempts read the delivery, and the first records SUCCESS. -/
def overlapping : List (Label Call Draw) :=
  [.spawn (.process sampleDelivery.id), .spawn (.process sampleDelivery.id),
    .step 0 (answering 200), .step 1 (answering 200), .step 0 (answering 200),
    .step 0 (answering 200), .step 0 (answering 200), .step 0 (answering 200)]

/-- The second attempt gets an error response and records it. -/
def straggling : List (Label Call Draw) :=
  [.step 1 (answering 500), .step 1 (answering 500), .step 1 (answering 500),
    .step 1 (answering 500), .step 1 (answering 500)]

theorem terminal_overwritten :
    (∀ l ∈ overlapping ++ straggling, Clean l) ∧
      ((Pool.run (system sampleConfig) (.start sampleWorld) overlapping).world.deliveries.find?
        sampleDelivery.id).map (·.status) = some .success ∧
      ((Pool.run (system sampleConfig) (.start sampleWorld)
        (overlapping ++ straggling)).world.deliveries.find? sampleDelivery.id).map (·.status) =
          some .pending := by
  decide

end Webhooks
end LedgerEngine
