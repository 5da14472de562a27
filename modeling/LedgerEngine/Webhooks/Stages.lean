/-
# Where dispatches, deliveries and polls are

The threads of a run are calls of `dispatchOutboxEvent` and `processDelivery`,
workers that run the jobs of the queue, and polls; `system` is the pool they
form.  A dispatch goes from `idle` to `returned`, a delivery from `starting` to
`settled`; both end with a recomputation of the event's status (`recorded`,
then `publishing`).  A poll is `idle` between the dispatches it makes.
`body_follows` says that every thread makes only the calls its stage allows.
-/

import LedgerEngine.Webhooks.Service

namespace LedgerEngine
namespace Webhooks

/-- What a thread is started for; a worker takes its job at a time. -/
inductive Call : Type
  | dispatch (eventId : Uuid)
  | process (deliveryId : Uuid)
  | work (job : JobId) (now : Time)
  | poll (service : ℕ)

/-- Threads that poll. -/
def Call.Polls : Call → Prop
  | .poll _ => True
  | _ => False

/-- Who recomputes the status of an event. -/
inductive Via : Type
  | delivery
  | dispatch

/-- How far an attempt has come. -/
inductive Phase : Type
  /-- about to call `fetch` -/
  | posting
  /-- a response has this status; about to read its body -/
  | answered (status : ℕ)
  /-- about to record the success -/
  | succeeding
  /-- about to record the failure -/
  | failing

/-- What a thread is about to do. -/
inductive Stage : Type
  /-- nothing, begin a dispatch, or a step of a poll between dispatches -/
  | idle
  /-- find the subscriptions of the event -/
  | matching (e : Uuid)
  /-- find the deliveries of the event -/
  | reading (e : Uuid) (subscriptions : List WebhookSubscriptionEntity)
  /-- insert the deliveries that are missing -/
  | creating (e : Uuid) (existing : List WebhookDeliveryEntity)
      (missing : List WebhookSubscriptionEntity)
  /-- add the jobs of these deliveries, by their attempts so far; whether all
  jobs before them were added -/
  | enqueuing (e : Uuid) (todo : List (Uuid × ℕ)) (ok : Bool)
  /-- nothing: `dispatchOutboxEvent` has returned -/
  | returned (e : Uuid)
  /-- find the delivery -/
  | starting (d : Uuid)
  /-- make the attempt of this number and record how it went -/
  | attempting (phase : Phase) (d e : Uuid) (attempts : ℕ)
  /-- add the job of the next attempt -/
  | retrying (d e : Uuid) (attempts : ℕ)
  /-- read the deliveries of the event -/
  | recorded (e : Uuid) (via : Via)
  /-- write the status computed from them -/
  | publishing (e : Uuid) (status : OutboxStatus) (via : Via)
  /-- nothing, or report the job as finished -/
  | settled

namespace Stage

/-- Between two dispatches. -/
def Resting : Stage → Prop
  | idle | returned _ => True
  | _ => False

/-- Where a thread may end. -/
def Final : Stage → Prop
  | idle | returned _ | settled => True
  | _ => False

/-- The stage after the status of the event is written. -/
def done (e : Uuid) : Via → Stage
  | .delivery => settled
  | .dispatch => returned e

/-- The stage an error leads to. -/
def thrown : Stage → Stage
  | attempting .failing _ _ _ => settled
  | attempting _ d e attempts => attempting .failing d e attempts
  | starting _ | retrying _ _ _ | settled => settled
  | recorded _ .delivery | publishing _ _ .delivery => settled
  | _ => idle

/-- The stage once the deliveries of an event are known. -/
def listed (e : Uuid) (deliveries : List WebhookDeliveryEntity) : Stage :=
  match pendingOf deliveries with
  | [] => recorded e .dispatch
  | d :: ds => enqueuing e ((d :: ds).map fun d => (d.id, d.attemptCount)) true

/-- The stage once a job has been added. -/
def enqueued (e : Uuid) (todo : List (Uuid × ℕ)) (ok : Bool) : Stage :=
  match todo with
  | [] => if ok then returned e else idle
  | _ :: _ => enqueuing e todo ok

/-- The stage once it is known which subscriptions have no delivery yet. -/
def completing (e : Uuid) (existing : List WebhookDeliveryEntity) :
    List WebhookSubscriptionEntity → Stage
  | [] => listed e existing
  | s :: missing => creating e existing (s :: missing)

/-- The stage after a dispatch has read the deliveries of its event. -/
def read (e : Uuid) (subscriptions : List WebhookSubscriptionEntity)
    (existing : List WebhookDeliveryEntity) : Stage :=
  if subscriptions = [] ∧ existing = [] then publishing e .published .dispatch
  else completing e existing (missingSubscriptions subscriptions existing)

/-- The stage in which the attempt on a delivery begins. -/
def begun (loaded : LoadedDelivery) : Stage :=
  attempting (if loaded.outboxEvent.isSome ∧ loaded.subscription.isSome then .posting else .failing)
    loaded.delivery.id loaded.delivery.outboxEventId (loaded.delivery.attemptCount + 1)

/-- The stage after a delivery has been found. -/
def found : Option LoadedDelivery → Stage
  | none => settled
  | some loaded =>
      if loaded.delivery.status = .success ∨ loaded.delivery.status = .failed then settled
      else begun loaded

/-- The stage after a failed attempt has been recorded. -/
def failed (d e : Uuid) (attempts : ℕ) : Option JsDate → Stage
  | some (some _) => retrying d e attempts
  | _ => recorded e .delivery

/-- The stage after a call between dispatches. -/
def rested : (c : Command) → c.Res → Stage
  | .findEvent id, none => returned id
  | .findEvent _, some event => matching event.id
  | _, _ => idle

/-- The stage after a call that resolved. -/
def advance : Stage → (c : Command) → c.Res → Stage
  | q, .dateNow, _ => q
  | idle, c, r => rested c r
  | returned _, c, r => rested c r
  | matching e, .findSubscriptions _, subscriptions => reading e subscriptions
  | reading e subscriptions, .findDeliveries _, existing => read e subscriptions existing
  | creating e existing _, .saveDeliveries _, new => listed e (existing ++ new)
  | starting _, .findDelivery _, loaded => found loaded
  | attempting .posting d e attempts, .fetch _ _, status =>
      attempting (.answered status) d e attempts
  | attempting (.answered status) d e attempts, .responseText _, _ =>
      attempting (if responseOk status then .succeeding else .failing) d e attempts
  | attempting .succeeding _ e _, .updateDelivery _ _, _ => recorded e .delivery
  | attempting .failing d e attempts, .updateDelivery _ p, _ => failed d e attempts p.nextRetryAt
  | retrying _ e _, .addJob _ _, _ => recorded e .delivery
  | recorded e via, .findDeliveries _, deliveries => publishing e (aggregate deliveries) via
  | publishing e _ via, .updateEvent _ _, _ => done e via
  | q, _, _ => q

/-- The stage after a call has settled. -/
def next : Stage → (c : Command) → Except Exception c.Res → Stage
  | enqueuing e todo ok, .addJob _ _, r => enqueued e todo.tail (ok && r.isOk)
  | q, c, .ok r => q.advance c r
  | q, _, .error _ => q.thrown

@[simp] theorem next_dateNow (q : Stage) (now : Time) : q.next .dateNow (.ok now) = q := by
  cases q <;> rfl

/-- The calls a thread may make at a stage. -/
inductive Allows (call : Call) : Stage → Command → Prop
  | now (q : Stage) : Allows call q .dateNow
  | findEvent {q : Stage} (hq : q.Resting) {id : Uuid}
      (h : ∀ e, call = .dispatch e → q = idle ∧ id = e) : Allows call q (.findEvent id)
  | enterPoll {q : Stage} (hq : q.Resting) (h : call.Polls) (service : ℕ) :
      Allows call q (.enterPoll service)
  | leavePoll {q : Stage} (hq : q.Resting) (h : call.Polls) (service : ℕ) :
      Allows call q (.leavePoll service)
  | findProcessable {q : Stage} (hq : q.Resting) (h : call.Polls) (limit : ℕ)
      (now staleBefore : Time) : Allows call q (.findProcessable limit now staleBefore)
  | mark {q : Stage} (hq : q.Resting) (h : call.Polls) (id : Uuid) (p : EventPatch) :
      Allows call q (.updateEvent id p)
  | findSubscriptions (e : Uuid) (eventType : JsString) :
      Allows call (matching e) (.findSubscriptions eventType)
  | findDeliveries (e : Uuid) (subscriptions : List WebhookSubscriptionEntity) :
      Allows call (reading e subscriptions) (.findDeliveries e)
  | create (e : Uuid) (existing : List WebhookDeliveryEntity)
      (missing : List WebhookSubscriptionEntity) (now : Time) :
      Allows call (creating e existing missing) (.saveDeliveries (missing.map (newDelivery e now)))
  | enqueue (e d : Uuid) (k : ℕ) (todo : List (Uuid × ℕ)) (ok : Bool) :
      Allows call (enqueuing e ((d, k) :: todo) ok) (.addJob ⟨d, k + 1⟩ 0)
  | start (d : Uuid) : Allows call (starting d) (.findDelivery d)
  | fetch (d e : Uuid) (attempts : ℕ) (request : WebhookRequest) :
      Allows call (attempting .posting d e attempts) (.fetch d request)
  | responseText (status : ℕ) (d e : Uuid) (attempts : ℕ) :
      Allows call (attempting (.answered status) d e attempts) (.responseText d)
  | succeed (d e : Uuid) (p : DeliveryPatch) (h : p.status = .success) :
      Allows call (attempting .succeeding d e p.attemptCount) (.updateDelivery d p)
  | fail (d e : Uuid) (p : DeliveryPatch)
      (h : p.status = .pending ∧ p.nextRetryAt.isSome ∨ p.status = .failed ∧ p.nextRetryAt = none) :
      Allows call (attempting .failing d e p.attemptCount) (.updateDelivery d p)
  | retry (d e : Uuid) (attempts : ℕ) (delayMs : ℤ) :
      Allows call (retrying d e attempts) (.addJob ⟨d, attempts + 1⟩ delayMs)
  | recompute (e : Uuid) (via : Via) : Allows call (recorded e via) (.findDeliveries e)
  | publish (e : Uuid) (via : Via) (p : EventPatch) (h : p.Fits) :
      Allows call (publishing e p.status via) (.updateEvent e p)
  | complete {job : JobId} {now : Time} (h : call = .work job now) :
      Allows call settled (.completeJob job)
  | failJob {job : JobId} {now : Time} (h : call = .work job now) :
      Allows call settled (.failJob job)

end Stage

/-- The protocol of a thread. -/
def protocol (call : Call) : Protocol Command Command.Res Exception Stage where
  next := Stage.next
  allows := Stage.Allows call

/-- The pool of dispatches, deliveries, workers and polls. -/
def system (cfg : Config) : System Call Command Command.Res Exception Unit World Draw Stage where
  exec := exec
  body
    | .dispatch eventId => dispatchOutboxEvent eventId
    | .process deliveryId => processDelivery cfg deliveryId
    | .work job _ => runJob cfg job
    | .poll service => processOutboxBatch cfg service
  spawn
    | .work job now, w => (w.queue.start? job now).map fun queue => { w with queue }
    | _, w => some w
  entry
    | .dispatch _ | .poll _ => .idle
    | .process deliveryId => .starting deliveryId
    | .work job _ => .starting job.deliveryId
  protocol := protocol

section Follows

variable {call : Call}

/-- Where the recomputation of an event's status leads. -/
def Recomputed (e : Uuid) (via : Via) : Except Exception Unit → Stage → Prop
  | .ok _, q => q = .done e via
  | .error _, q => q = (Stage.recorded e via).thrown

theorem publish_follows (e : Uuid) (via : Via) (p : EventPatch) (h : p.Fits) :
    (updateEvent e p).Follows (protocol call) (Recomputed e via) (.publishing e p.status via) := by
  refine .await (.publish e via p h) fun r => ?_
  cases r <;> cases via <;> rfl

theorem markPublished_follows (e : Uuid) (via : Via) :
    (markPublished e).Follows (protocol call) (Recomputed e via)
      (.publishing e .published via) := by
  refine .await_bind (.now _) (fun now => publish_follows e via ⟨.published, some now, none⟩
    (by simp [EventPatch.Fits])) fun _ => ?_
  cases via <;> rfl

theorem aggregate_ne_pending (deliveries : List WebhookDeliveryEntity) :
    aggregate deliveries ≠ .pending := by
  unfold aggregate
  split_ifs <;> decide

theorem updateOutboxStatus_follows (e : Uuid) (via : Via) :
    (updateOutboxStatus e).Follows (protocol call) (Recomputed e via) (.recorded e via) := by
  refine .await_bind (.recompute e via) (fun deliveries => ?_) fun _ => ?_
  · show Prog.Follows _ _ _ (Stage.publishing e (aggregate deliveries) via)
    cases h : aggregate deliveries with
    | published => exact markPublished_follows e via
    | failed =>
        exact publish_follows e via (failedPatch (maxRetryCount deliveries) none)
          (by simp [EventPatch.Fits, failedPatch, Storable])
    | pending => exact absurd h (aggregate_ne_pending deliveries)
    | processing =>
        exact publish_follows e via ⟨.processing, none, none⟩ (by simp [EventPatch.Fits])
  · cases via <;> rfl

/-- Where a dispatch ends. -/
def Dispatched : Except Exception Unit → Stage → Prop
  | .ok _, q => ∃ e, q = .returned e
  | .error _, q => q = .idle

theorem Recomputed.dispatched {e : Uuid} {r : Except Exception Unit} {q : Stage}
    (h : Recomputed e .dispatch r q) : Dispatched r q := by
  cases r with
  | ok _ => exact ⟨e, h⟩
  | error _ => exact h

/-- Where the jobs of a dispatch have been added, by the first error of `settleAll`. -/
def Enqueued (e : Uuid) (ok : Bool) : Except Exception (Option Exception) → Stage → Prop
  | .ok failed, q => q = Stage.enqueued e [] (ok && failed.isNone)
  | .error _, _ => False

theorem settleAll_follows (e : Uuid) (d : WebhookDeliveryEntity) (ds : List WebhookDeliveryEntity)
    (ok : Bool) :
    (Prog.settleAll ((d :: ds).map fun delivery =>
        enqueueDelivery delivery.id 0 (delivery.attemptCount + 1))).Follows (protocol call)
      (Enqueued e ok) (.enqueuing e ((d :: ds).map fun d => (d.id, d.attemptCount)) ok) := by
  induction ds generalizing d ok with
  | nil =>
      refine .andThen (fun r q => q = Stage.enqueued e [] (ok && r.isOk))
        (.await (.enqueue ..) fun r => rfl) fun r q hq => ?_
      subst hq
      cases r <;> rfl
  | cons d' ds ih =>
      refine .andThen (fun r q => q = Stage.enqueuing e
        ((d' :: ds).map fun d => (d.id, d.attemptCount)) (ok && r.isOk))
        (.await (.enqueue ..) fun r => rfl) fun r q hq => ?_
      subst hq
      refine .bind (ih d' (ok && r.isOk)) (fun failed q hq => ?_) fun _ _ h => h.elim
      obtain rfl : q = Stage.enqueued e [] (ok && r.isOk && failed.isNone) := hq
      cases r with
      | ok _ => simp [Prog.Follows, Enqueued, Except.isOk, Except.toBool]
      | error _ => simp [Prog.Follows, Enqueued, Except.isOk, Except.toBool]

theorem enqueuePending_follows (e : Uuid) (deliveries : List WebhookDeliveryEntity) :
    (enqueuePending e deliveries).Follows (protocol call) Dispatched (.listed e deliveries) := by
  unfold enqueuePending Stage.listed
  cases pendingOf deliveries with
  | nil => exact (updateOutboxStatus_follows e .dispatch).mono fun _ _ h => h.dispatched
  | cons d ds =>
      refine .bind (settleAll_follows e d ds true) (fun failed q hq => ?_) fun _ _ h => h.elim
      obtain rfl : q = Stage.enqueued e [] (true && failed.isNone) := hq
      cases failed with
      | none => exact ⟨e, rfl⟩
      | some _ => exact rfl

/-- Where the missing deliveries have been created. -/
def Created (e : Uuid) (existing : List WebhookDeliveryEntity) :
    Except Exception (List WebhookDeliveryEntity) → Stage → Prop
  | .ok new, q => q = .listed e (existing ++ new)
  | .error _, q => q = .idle

theorem createMissing_follows (e : Uuid) (existing : List WebhookDeliveryEntity)
    (missing : List WebhookSubscriptionEntity) :
    (createMissing e missing).Follows (protocol call) (Created e existing)
      (.completing e existing missing) := by
  cases missing with
  | nil => exact congrArg (Stage.listed e) (List.append_nil existing).symm
  | cons s missing =>
      refine .await_bind (.now _) (fun now => ?_) fun _ => rfl
      refine .await (.create e existing (s :: missing) now) fun r => ?_
      cases r <;> rfl

/-- The rest of a dispatch, once it has read the deliveries of its event. -/
theorem dispatchRead_follows (e : Uuid) (subscriptions : List WebhookSubscriptionEntity)
    (existing : List WebhookDeliveryEntity) :
    Prog.Follows (protocol call) Dispatched
      (if subscriptions = [] ∧ existing = [] then markPublished e
        else do
          let new ← createMissing e (missingSubscriptions subscriptions existing)
          enqueuePending e (existing ++ new))
      (Stage.read e subscriptions existing) := by
  unfold Stage.read
  split_ifs with hnone
  · exact (markPublished_follows e .dispatch).mono fun _ _ h => h.dispatched
  · refine .bind (createMissing_follows e existing _) (fun new q hq => ?_) fun _ _ h => h
    obtain rfl : q = _ := hq
    exact enqueuePending_follows e (existing ++ new)

theorem dispatchOutboxEvent_follows {q : Stage} (hq : q.Resting) {eventId : Uuid}
    (h : ∀ e, call = .dispatch e → q = .idle ∧ eventId = e) :
    (dispatchOutboxEvent eventId).Follows (protocol call) Dispatched q := by
  refine .await_bind (.findEvent hq h) (fun found => ?_) fun _ => ?_
  · have hnext : (protocol call).next q (.findEvent eventId) (.ok found) =
        Stage.rested (.findEvent eventId) found := by
      cases q <;> first | rfl | exact hq.elim
    rw [hnext]
    cases found with
    | none => exact ⟨eventId, rfl⟩
    | some event =>
        refine .await_bind (.findSubscriptions event.id _) (fun subscriptions => ?_) fun _ => rfl
        refine .await_bind (.findDeliveries event.id _) (fun existing => ?_) fun _ => rfl
        exact dispatchRead_follows event.id subscriptions existing
  · cases q <;> first | exact rfl | exact hq.elim

/-- Where a delivery ends. -/
def Settles {α : Type} : Except Exception α → Stage → Prop := fun _ q => q = .settled

/-- Where the `try` block of a delivery leads. -/
def Attempted (d e : Uuid) (attempts : ℕ) : Except Exception Unit → Stage → Prop
  | .ok _, q => q = .recorded e .delivery
  | .error _, q => q = .attempting .failing d e attempts

theorem attemptDelivery_follows (cfg : Config) (loaded : LoadedDelivery) :
    (attemptDelivery cfg loaded).Follows (protocol call)
      (Attempted loaded.delivery.id loaded.delivery.outboxEventId
        (loaded.delivery.attemptCount + 1)) (.begun loaded) := by
  obtain ⟨delivery, subscription, outboxEvent⟩ := loaded
  cases outboxEvent with
  | none => exact rfl
  | some outboxEvent =>
      cases subscription with
      | none => exact rfl
      | some subscription =>
          refine .await_bind (.fetch ..) (fun status => ?_) fun _ => rfl
          refine .await_bind (.responseText status ..) (fun responseBody => ?_) fun _ => rfl
          show Prog.Follows _ _ _ (Stage.attempting
            (if responseOk status = true then .succeeding else .failing) _ _ _)
          cases responseOk status with
          | false => exact rfl
          | true =>
              refine .await_bind (.now _) (fun now => ?_) fun _ => rfl
              refine .await (.succeed delivery.id delivery.outboxEventId
                ⟨.success, delivery.attemptCount + 1, now, none, some status, responseBody⟩ rfl)
                fun r => ?_
              cases r <;> rfl

/-- Where the `catch` block of a delivery leads. -/
def Recorded (e : Uuid) : Except Exception Unit → Stage → Prop
  | .ok _, q => q = .recorded e .delivery
  | .error _, q => q = .settled

theorem enqueueRetry_follows (d e : Uuid) (attempts : ℕ) (nextRetryAt : Option JsDate) :
    (enqueueRetry d attempts nextRetryAt).Follows (protocol call) (Recorded e)
      (.failed d e attempts nextRetryAt) := by
  cases nextRetryAt with
  | none => exact rfl
  | some date =>
      cases date with
      | none => exact rfl
      | some due =>
          refine .await_bind (.now _) (fun now => ?_) fun _ => rfl
          refine .await (.retry d e attempts _) fun r => ?_
          cases r <;> rfl

theorem recordFailedAttempt_follows (cfg : Config) (delivery : WebhookDeliveryEntity)
    (error : Exception) :
    (recordFailedAttempt cfg delivery error).Follows (protocol call)
      (Recorded delivery.outboxEventId)
      (.attempting .failing delivery.id delivery.outboxEventId (delivery.attemptCount + 1)) := by
  let q : Stage :=
    .attempting .failing delivery.id delivery.outboxEventId (delivery.attemptCount + 1)
  have hdate : (nextRetryAt cfg (delivery.attemptCount + 1)).Follows (protocol call)
      (fun r q' => match r with
        | .ok date => q' = q ∧ (delivery.attemptCount + 1 < cfg.webhookMaxAttempts ↔ date.isSome)
        | .error _ => q' = .settled) q := by
    unfold nextRetryAt
    split_ifs with h
    · exact .await_bind (.now _) (fun now => ⟨rfl, by simp [h]⟩) fun _ => rfl
    · exact ⟨rfl, by simp [h]⟩
  refine .bind hdate (fun date q' hq' => ?_) fun _ _ h => h
  obtain ⟨rfl, hretry⟩ := hq'
  refine .await_bind (.now _) (fun now => ?_) fun _ => rfl
  refine .await_bind (.fail delivery.id delivery.outboxEventId
    ⟨_, delivery.attemptCount + 1, now, date, none, _⟩ ?_) (fun _ => ?_) fun _ => rfl
  · split_ifs with h
    · exact Or.inl ⟨rfl, hretry.1 h⟩
    · refine Or.inr ⟨rfl, ?_⟩
      have hnone : ¬ date.isSome := fun hsome => h (hretry.2 hsome)
      simpa using hnone
  · exact enqueueRetry_follows delivery.id delivery.outboxEventId (delivery.attemptCount + 1) date

theorem processDelivery_follows (cfg : Config) (d : Uuid) :
    (processDelivery cfg d).Follows (protocol call) Settles (.starting d) := by
  refine .await_bind (.start d) (fun loaded => ?_) fun _ => rfl
  show Prog.Follows _ _ _ (Stage.found loaded)
  cases loaded with
  | none => exact rfl
  | some loaded =>
      unfold Stage.found
      dsimp only
      split_ifs
      · exact rfl
      · have hattempt : ((attemptDelivery cfg loaded).tryCatch
            (recordFailedAttempt cfg loaded.delivery)).Follows (protocol call)
            (Recorded loaded.delivery.outboxEventId) (.begun loaded) := by
          refine .tryCatch _ (attemptDelivery_follows cfg loaded) (fun _ _ h => h) fun e q hq => ?_
          obtain rfl : q = _ := hq
          exact recordFailedAttempt_follows cfg loaded.delivery e
        refine .bind hattempt (fun _ q hq => ?_) fun _ _ h => h
        obtain rfl : q = _ := hq
        refine (updateOutboxStatus_follows _ .delivery).mono fun r q' h => ?_
        cases r <;> exact h

theorem runJob_follows (cfg : Config) (job : JobId) (now : Time) :
    (runJob cfg job).Follows (protocol (.work job now)) Settles (.starting job.deliveryId) := by
  refine .tryCatch Settles ?_ (fun _ _ h => h) fun _ q hq => ?_
  · refine .bind (processDelivery_follows cfg job.deliveryId) (fun _ q hq => ?_) fun _ _ h => h
    obtain rfl : q = _ := hq
    refine .await (.complete rfl) fun r => ?_
    cases r <;> rfl
  · obtain rfl : q = _ := hq
    refine .await (.failJob rfl) fun r => ?_
    cases r <;> rfl

/-- Between dispatches every call but a dispatch leads to `idle`. -/
theorem next_resting {q : Stage} (hq : q.Resting) {c : Command}
    (hc : ∀ id, c ≠ .findEvent id) (r : Except Exception c.Res) : (q.next c r).Resting := by
  cases q with
  | idle =>
      cases r with
      | error _ => trivial
      | ok r => cases c <;> first | trivial | exact absurd rfl (hc _)
  | returned e =>
      cases r with
      | error _ => trivial
      | ok r => cases c <;> first | trivial | exact absurd rfl (hc _)
  | _ => exact hq.elim

theorem perform_follows (hcall : call.Polls) (c : ServiceCall) {q : Stage} (hq : q.Resting) :
    c.perform.Follows (protocol call) (fun _ => Stage.Resting) q := by
  cases c with
  | dateNow => exact .await (.now q) (next_resting hq (by simp))
  | enterPoll service => exact .await (.enterPoll hq hcall service) (next_resting hq (by simp))
  | leavePoll service => exact .await (.leavePoll hq hcall service) (next_resting hq (by simp))
  | getProcessableEvents limit staleBefore =>
      have hnow := next_resting (c := .dateNow) hq (by simp)
      refine .await_bind (.now q) (fun now => ?_) fun e => hnow (.error e)
      exact .await (.findProcessable (hnow (.ok now)) hcall ..) (next_resting (hnow _) (by simp))
  | markProcessing eventId => exact .await (.mark hq hcall eventId _) (next_resting hq (by simp))
  | markFailed eventId retryCount nextRetryAt =>
      exact .await (.mark hq hcall eventId _) (next_resting hq (by simp))
  | dispatchOutboxEvent eventId =>
      refine (dispatchOutboxEvent_follows hq ?_).mono fun r q h => ?_
      · rintro e rfl
        exact hcall.elim
      · cases r with
        | ok _ =>
            obtain ⟨e, rfl⟩ := h
            trivial
        | error _ =>
            obtain rfl : q = .idle := h
            trivial

theorem processOutboxBatch_follows (cfg : Config) (service : ℕ) :
    (processOutboxBatch cfg service).Follows (protocol (.poll service)) (fun _ => Stage.Resting)
      .idle := by
  have hpolls : (Call.poll service).Polls := trivial
  exact .expand (fun c _ hq => perform_follows hpolls c hq) (poll cfg service) trivial

/-- A thread that has ended is at a stage from which nothing is awaited; a
dispatch says there how it ended. -/
def Ended : Call → Except Exception Unit → Stage → Prop
  | .dispatch _, r, q => Dispatched r q
  | _, _, q => q.Final

theorem Ended.final {t : Call} {r : Except Exception Unit} {q : Stage} (h : Ended t r q) :
    q.Final := by
  cases t with
  | dispatch e =>
      cases r with
      | ok _ =>
          obtain ⟨e', rfl⟩ := h
          trivial
      | error _ =>
          obtain rfl : q = .idle := h
          trivial
  | _ => exact h

/-- **Every thread makes only the calls its stage allows.** -/
theorem body_follows (cfg : Config) (call : Call) :
    ((system cfg).body call).Follows ((system cfg).protocol call) (Ended call)
      ((system cfg).entry call) := by
  cases call with
  | dispatch e =>
      exact dispatchOutboxEvent_follows (q := .idle) trivial fun e' he =>
        ⟨rfl, Call.dispatch.inj he⟩
  | process d =>
      refine (processDelivery_follows cfg d).mono fun r q h => ?_
      obtain rfl : q = .settled := h
      trivial
  | work job now =>
      refine (runJob_follows cfg job now).mono fun r q h => ?_
      obtain rfl : q = .settled := h
      trivial
  | poll service =>
      refine (processOutboxBatch_follows cfg service).mono fun r q h => ?_
      cases q <;> trivial

end Follows

section Cases

variable {ω : Draw} {c : Command} {w : World} {q : Stage}

theorem found_cases (loaded : Option LoadedDelivery) : Stage.found loaded = .settled ∨
    ∃ phase d e' attempts, Stage.found loaded = .attempting phase d e' attempts := by
  unfold Stage.found
  split
  · exact Or.inl rfl
  · split_ifs
    · exact Or.inl rfl
    · exact Or.inr ⟨_, _, _, _, rfl⟩

theorem failed_cases (d e : Uuid) (attempts : ℕ) (nextRetryAt : Option JsDate) :
    Stage.failed d e attempts nextRetryAt = .retrying d e attempts ∨
      Stage.failed d e attempts nextRetryAt = .recorded e .delivery := by
  unfold Stage.failed
  split
  · exact Or.inl rfl
  · exact Or.inr rfl

/-- Between dispatches every call but the one a dispatch begins with leads to `idle`. -/
theorem next_of_resting (hq : q.Resting) (hnow : c ≠ .dateNow) (hfind : ∀ id, c ≠ .findEvent id)
    (r : Except Exception c.Res) : q.next c r = .idle := by
  cases q with
  | idle =>
      cases r with
      | error _ => rfl
      | ok r => cases c <;> first | rfl | exact absurd rfl hnow | exact absurd rfl (hfind _)
  | returned e =>
      cases r with
      | error _ => rfl
      | ok r => cases c <;> first | rfl | exact absurd rfl hnow | exact absurd rfl (hfind _)
  | _ => exact hq.elim

/-- Where a dispatch goes from its first read. -/
theorem next_findEvent (hq : q.Resting) (id : Uuid) :
    q.next (.findEvent id) (exec ω (.findEvent id) w).1 = .idle ∨
      q.next (.findEvent id) (exec ω (.findEvent id) w).1 = .matching id ∨
      w.outboxEvents.find? id = none ∧
        q.next (.findEvent id) (exec ω (.findEvent id) w).1 = .returned id := by
  cases hr : (exec ω (.findEvent id) w).1 with
  | error _ =>
      refine Or.inl ?_
      cases q <;> first | rfl | exact hq.elim
  | ok found =>
      obtain rfl : w.outboxEvents.find? id = found := Except.ok.inj (exec_of_ok hr ▸ hr)
      have hnext : q.next (.findEvent id) (.ok (w.outboxEvents.find? id)) =
          Stage.rested (.findEvent id) (w.outboxEvents.find? id) := by
        cases q <;> first | rfl | exact hq.elim
      rw [hnext]
      cases hfind : w.outboxEvents.find? id with
      | none => exact Or.inr (Or.inr ⟨rfl, rfl⟩)
      | some event =>
          have hid : event.id = id := (Table.find?_eq_some hfind).2
          exact Or.inr (Or.inl (congrArg Stage.matching hid))

/-- A thread that starts takes at most a job. -/
theorem spawn_eq_some {cfg : Config} {t : Call} {w w' : World}
    (h : (system cfg).spawn t w = some w') :
    w' = w ∨ ∃ job now queue, t = .work job now ∧ w.queue.start? job now = some queue ∧
      w' = { w with queue } := by
  cases t with
  | work job now =>
      obtain ⟨queue, hqueue, rfl⟩ := Option.map_eq_some_iff.1 h
      exact Or.inr ⟨job, now, queue, rfl, hqueue, rfl⟩
  | _ => exact Or.inl (Option.some.inj h).symm

end Cases

/-! ### A small world -/

/-- An event that has been dispatched. -/
def sampleEvent : OutboxEventEntity where
  id := .ofText (js "e")
  aggregateType := js "transaction"
  aggregateId := .ofText (js "t")
  eventType := js "transaction.completed"
  payload := ⟨.ofText (js "t"), .deposit, 5, js "USD", none, none, none⟩
  status := .processing
  retryCount := 0
  nextRetryAt := none
  publishedAt := none
  transactionId := .ofText (js "t")
  createdAt := 0
  updatedAt := 0

/-- The subscription to it. -/
def sampleSubscription : WebhookSubscriptionEntity where
  id := .ofText (js "s")
  targetUrl := js "https://merchant.example/webhook"
  secret := js "secret"
  eventType := js "transaction.completed"
  status := .active

/-- Its delivery, as its dispatch created it. -/
def sampleDelivery : WebhookDeliveryEntity :=
  (newDelivery sampleEvent.id 0 sampleSubscription).row 0 (.ofText (js "d"))

/-- The world in which the job of the delivery waits. -/
def sampleWorld : World where
  subscriptions := ⟨[sampleSubscription], by decide⟩
  outboxEvents := ⟨[sampleEvent], by decide⟩
  deliveries := ⟨⟨[sampleDelivery], by decide⟩, by decide⟩
  queue := JobQueue.empty.add ⟨sampleDelivery.id, 1⟩ .waiting
  polling := []
  posts := []

def sampleConfig : Config := .defaults fun _ secret => secret

/-- A call that meets no fault; the receiver answers with this status. -/
def answering (status : ℕ) : Draw := ⟨none, 0, [], .ok status, .ok []⟩

end Webhooks
end LedgerEngine
