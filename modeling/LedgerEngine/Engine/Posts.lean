/-
# What a delivery knows when it posts

A dispatch inserts deliveries for the subscriptions it has read, and a delivery posts
what it has loaded and records how that went; between these calls others come in.
`Delivering` keeps what a thread of the webhooks has read: with it `webhook_follows` says
which deliveries are inserted, which requests are sent and what is recorded of them,
whoever the thread is, a poll, a dispatch, a job or a delivery.
-/

import LedgerEngine.Engine.System

namespace LedgerEngine
namespace Engine

open Webhooks (Call Config DeliveryPatch LoadedDelivery ServiceCall WebhookDeliveryEntity
  WebhookRequest WebhookSubscriptionEntity missingSubscriptions newDelivery)

/-- What a thread has read and not yet used. -/
inductive Delivering : Type
  | idle
  /-- an event to dispatch -/
  | matching (event : OutboxEventEntity)
  /-- the subscriptions to its type -/
  | reading (event : OutboxEventEntity) (subscriptions : List WebhookSubscriptionEntity)
  /-- those of them that have no delivery -/
  | creating (event : OutboxEventEntity) (missing : List WebhookSubscriptionEntity)
  /-- a delivery to make -/
  | loaded (l : LoadedDelivery)
  /-- a delivery `fetch` was called for, and the status of the response, if there is one -/
  | posted (delivery : WebhookDeliveryEntity) (status : Option ℕ)

/-- The request that delivers an event to a subscription. -/
def requestOf (cfg : Config) (event : OutboxEventEntity) (s : WebhookSubscriptionEntity) :
    WebhookRequest where
  targetUrl := s.targetUrl
  signature := cfg.signWebhookPayload event.payload s.secret
  eventType := event.eventType
  payload := event.payload

/-- What is recorded of an attempt that has failed. -/
structure Failure (cfg : Config) (d : WebhookDeliveryEntity) (p : DeliveryPatch) : Prop where
  attemptCount : p.attemptCount = d.attemptCount + 1
  responseStatus : p.responseStatus = none
  status : p.status = if d.attemptCount + 1 < cfg.webhookMaxAttempts then .pending else .failed
  nextRetryAt : p.nextRetryAt.isSome ↔ d.attemptCount + 1 < cfg.webhookMaxAttempts

/-- What is recorded of an attempt that was answered with a status. -/
structure Success (d : WebhookDeliveryEntity) (s : ℕ) (p : DeliveryPatch) : Prop where
  attemptCount : p.attemptCount = d.attemptCount + 1
  responseStatus : p.responseStatus = some s
  ok : Webhooks.responseOk s = true
  status : p.status = .success
  nextRetryAt : p.nextRetryAt = none

namespace Delivering

/-- What a thread has read once a call has settled. -/
def next : Delivering → (c : Webhooks.Command) → Except Exception c.Res → Delivering
  | q, .dateNow, _ => q
  | _, .findEvent _, .ok (some event) => matching event
  | matching event, .findSubscriptions _, .ok subscriptions => reading event subscriptions
  | reading event subscriptions, .findDeliveries _, .ok existing =>
      creating event (missingSubscriptions subscriptions existing)
  | _, .findDelivery _, .ok (some l) => loaded l
  | loaded l, .fetch _ _, r => posted l.delivery r.toOption
  | posted d status, .responseText _, _ => posted d status
  | posted d status, .updateDelivery _ _, _ => posted d status
  | _, _, _ => idle

/-- An attempt at the delivery may have failed: `fetch` was called, or there is nothing
to post. -/
inductive Tried (d : WebhookDeliveryEntity) : Delivering → Prop
  | posted (status : Option ℕ) : Tried d (posted d status)
  | missing {l : LoadedDelivery} (hd : l.delivery = d)
      (h : l.subscription = none ∨ l.outboxEvent = none) : Tried d (loaded l)

/-- The calls a thread may make with what it has read. -/
def Allows (cfg : Config) (q : Delivering) : Webhooks.Command → Prop
  | .findSubscriptions eventType => ∀ event, q = matching event → eventType = event.eventType
  | .saveDeliveries rows =>
      ∃ event missing now, q = creating event missing ∧
        rows = missing.map (newDelivery event.id now)
  | .fetch deliveryId request =>
      ∃ l event s, q = loaded l ∧ l.outboxEvent = some event ∧ l.subscription = some s ∧
        deliveryId = l.delivery.id ∧ request = requestOf cfg event s
  | .updateDelivery id p =>
      ∃ d : WebhookDeliveryEntity, id = d.id ∧ d.status = .pending ∧
        (q.Tried d ∧ Failure cfg d p ∨ ∃ status, q = posted d (some status) ∧ Success d status p)
  | _ => True

end Delivering

/-- The protocol of a thread of the webhooks. -/
def deliveringProtocol (cfg : Config) :
    Protocol Webhooks.Command Webhooks.Command.Res Exception Delivering where
  next := Delivering.next
  allows := Delivering.Allows cfg

/-- The calls that need nothing to have been read. -/
def free : Webhooks.Command → Bool
  | .findSubscriptions _ | .saveDeliveries _ | .fetch _ _ | .updateDelivery _ _ => false
  | _ => true

section Follows

variable {cfg : Config} {α β : Type}

/-- The program keeps to the protocol whatever has been read. -/
def Free (cfg : Config) (p : Webhooks.Service α) : Prop :=
  ∀ q, p.Follows (deliveringProtocol cfg) (fun _ _ => True) q

theorem allows_of_free {c : Webhooks.Command} (hc : free c = true) (q : Delivering) :
    (deliveringProtocol cfg).allows q c := by
  cases c <;> trivial

theorem free_await {c : Webhooks.Command} (hc : free c = true) :
    Free cfg (Prog.await c : Webhooks.Service c.Res) :=
  fun q => .await (allows_of_free hc q) fun _ => trivial

theorem Free.bind {p : Webhooks.Service α} {f : α → Webhooks.Service β} (hp : Free cfg p)
    (hf : ∀ a, Free cfg (f a)) : Free cfg (p.bind f) :=
  fun q => .bind (hp q) (fun a q' _ => hf a q') fun _ _ _ => trivial

theorem Free.tryCatch {p : Webhooks.Service α} {f : Exception → Webhooks.Service α}
    (hp : Free cfg p) (hf : ∀ e, Free cfg (f e)) : Free cfg (p.tryCatch f) :=
  fun q => .tryCatch _ (hp q) (fun _ _ _ => trivial) fun e q' _ => hf e q'

theorem Free.andThen {p : Webhooks.Service α} {f : Except Exception α → Webhooks.Service β}
    (hp : Free cfg p) (hf : ∀ r, Free cfg (f r)) : Free cfg (p.andThen f) :=
  fun q => .andThen _ (hp q) fun r q' _ => hf r q'

theorem free_settleAll {ps : List (Webhooks.Service Unit)} (h : ∀ p ∈ ps, Free cfg p) :
    Free cfg (Prog.settleAll ps) := by
  induction ps with
  | nil => exact fun _ => trivial
  | cons p ps ih =>
      refine (h p (List.mem_cons_self ..)).andThen fun r => ?_
      refine (ih fun p' hp' => h p' (List.mem_cons_of_mem p hp')).bind fun failed => ?_
      cases r <;> exact fun _ => trivial

theorem free_markPublished (eventId : Uuid) : Free cfg (Webhooks.markPublished eventId) :=
  (free_await rfl).bind fun _ => free_await rfl

theorem free_updateOutboxStatus (eventId : Uuid) :
    Free cfg (Webhooks.updateOutboxStatus eventId) := by
  refine (free_await rfl).bind fun deliveries => ?_
  cases Webhooks.aggregate deliveries with
  | published => exact free_markPublished eventId
  | _ => exact free_await (c := .updateEvent eventId _) rfl

theorem free_enqueuePending (eventId : Uuid) (deliveries : List WebhookDeliveryEntity) :
    Free cfg (Webhooks.enqueuePending eventId deliveries) := by
  unfold Webhooks.enqueuePending
  cases Webhooks.pendingOf deliveries with
  | nil => exact free_updateOutboxStatus eventId
  | cons d ds =>
      refine Free.bind (free_settleAll fun p hp => ?_) fun failed => ?_
      · obtain ⟨d', -, rfl⟩ := List.mem_map.1 hp
        exact free_await rfl
      · cases failed <;> exact fun _ => trivial

/-- **A dispatch inserts deliveries of its event only**, for subscriptions it has read. -/
theorem free_dispatchOutboxEvent (eventId : Uuid) :
    Free cfg (Webhooks.dispatchOutboxEvent eventId) := by
  refine fun q => .await_bind trivial (fun found => ?_) fun _ => trivial
  cases found with
  | none => trivial
  | some event =>
      have hfound : (deliveringProtocol cfg).next q (.findEvent eventId) (.ok (some event)) =
          .matching event := by cases q <;> rfl
      rw [hfound]
      refine .await_bind (fun event' he => ?_) (fun subscriptions => ?_) fun _ => trivial
      · rw [Delivering.matching.inj he]
      refine .await_bind trivial (fun existing => ?_) fun _ => trivial
      show Prog.Follows _ _ _
        (Delivering.creating event (missingSubscriptions subscriptions existing))
      split_ifs
      · exact free_markPublished event.id _
      · have hcreate : (Webhooks.createMissing event.id
            (missingSubscriptions subscriptions existing)).Follows (deliveringProtocol cfg)
            (fun _ _ => True) (.creating event (missingSubscriptions subscriptions existing)) := by
          cases missingSubscriptions subscriptions existing with
          | nil => trivial
          | cons s missing =>
              refine .await_bind trivial (fun now => ?_) fun _ => trivial
              exact .await ⟨event, s :: missing, now, rfl, rfl⟩ fun _ => trivial
        exact .bind hcreate (fun new q' _ => free_enqueuePending _ _ q') fun _ _ _ => trivial

theorem Delivering.Tried.next_dateNow {d : WebhookDeliveryEntity} {q : Delivering} (h : q.Tried d)
    (r : Except Exception Time) : (q.next .dateNow r).Tried d := by
  cases h with
  | posted status => exact .posted status
  | missing hd hmissing => exact .missing hd hmissing

/-- The date of the next attempt: there is one where an attempt is left. -/
theorem nextRetryAt_follows {d : WebhookDeliveryEntity} {q : Delivering} (hq : q.Tried d)
    (attempts : ℕ) :
    (Webhooks.nextRetryAt cfg attempts).Follows (deliveringProtocol cfg)
      (fun r q' => ∀ date, r = .ok date → q'.Tried d ∧
        (date.isSome ↔ attempts < cfg.webhookMaxAttempts)) q := by
  unfold Webhooks.nextRetryAt
  split_ifs with hleft
  · refine .await_bind trivial (fun now date he => ?_) fun e date he => by cases he
    obtain rfl := Except.ok.inj he
    exact ⟨hq.next_dateNow (.ok now), by simp [hleft]⟩
  · intro date he
    obtain rfl := Except.ok.inj he
    exact ⟨hq, by simp [hleft]⟩

/-- **An attempt that has failed is recorded as one more**, with a date for the next as long
as there is to be one. -/
theorem recordFailedAttempt_follows {d : WebhookDeliveryEntity} (hd : d.status = .pending)
    {q : Delivering} (hq : q.Tried d) (e : Exception) :
    (Webhooks.recordFailedAttempt cfg d e).Follows (deliveringProtocol cfg) (fun _ _ => True)
      q := by
  refine .bind (nextRetryAt_follows hq _) (fun date q₁ h => ?_) fun _ _ _ => trivial
  obtain ⟨hq₁, hdate⟩ := h date rfl
  refine .await_bind trivial (fun now => ?_) fun _ => trivial
  refine .await_bind ⟨d, rfl, hd, Or.inl ⟨hq₁.next_dateNow (.ok now), rfl, rfl, rfl, hdate⟩⟩
    (fun _ => ?_)
    fun _ => trivial
  have hretry : Free cfg (Webhooks.enqueueRetry d.id (d.attemptCount + 1) date) := by
    unfold Webhooks.enqueueRetry
    split
    · exact (free_await rfl).bind fun _ => free_await rfl
    · exact fun _ => trivial
  exact hretry _

/-- What an attempt leaves to record, if anything. -/
def Tries (d : WebhookDeliveryEntity) : Except Exception Unit → Delivering → Prop
  | .ok _, _ => True
  | .error _, q => q.Tried d

/-- **A delivery sends what it has loaded**, to the url it has loaded, and a success is
recorded with the status of the response. -/
theorem attemptDelivery_follows {l : LoadedDelivery} (hd : l.delivery.status = .pending) :
    (Webhooks.attemptDelivery cfg l).Follows (deliveringProtocol cfg) (Tries l.delivery)
      (.loaded l) := by
  obtain ⟨delivery, subscription, outboxEvent⟩ := l
  cases outboxEvent with
  | none => exact Delivering.Tried.missing rfl (Or.inr rfl)
  | some event =>
      cases subscription with
      | none => exact Delivering.Tried.missing rfl (Or.inl rfl)
      | some s =>
          refine .await_bind ⟨_, event, s, rfl, rfl, rfl, rfl, rfl⟩ (fun status => ?_)
            fun _ => .posted none
          refine .await_bind trivial (fun responseBody => ?_) fun _ => .posted (some status)
          cases hok : Webhooks.responseOk status with
          | false => exact Delivering.Tried.posted (some status)
          | true =>
              refine .await_bind trivial (fun now => ?_) fun _ => .posted (some status)
              refine .await ⟨delivery, rfl, hd, Or.inr ⟨status, rfl, rfl, rfl, hok, rfl, rfl⟩⟩
                fun r => ?_
              cases r with
              | ok _ => trivial
              | error _ => exact Delivering.Tried.posted (some status)

theorem free_processDelivery (deliveryId : Uuid) :
    Free cfg (Webhooks.processDelivery cfg deliveryId) := by
  refine fun q => .await_bind trivial (fun found => ?_) fun _ => trivial
  cases found with
  | none => trivial
  | some l =>
      have hfound : (deliveringProtocol cfg).next q (.findDelivery deliveryId) (.ok (some l)) =
          .loaded l := by cases q <;> rfl
      rw [hfound]
      dsimp only
      split_ifs with hstatus
      · trivial
      · have hd : l.delivery.status = .pending := Webhooks.WebhookDeliveryStatus.eq_pending hstatus
        have hattempt : ((Webhooks.attemptDelivery cfg l).tryCatch
            (Webhooks.recordFailedAttempt cfg l.delivery)).Follows (deliveringProtocol cfg)
            (fun _ _ => True) (.loaded l) :=
          .tryCatch _ (attemptDelivery_follows hd) (fun _ _ _ => trivial)
            fun e q' hq' => recordFailedAttempt_follows hd hq' e
        exact .bind hattempt (fun _ q' _ => free_updateOutboxStatus _ q') fun _ _ _ => trivial

theorem free_perform (c : ServiceCall) : Free cfg c.perform := by
  cases c with
  | dispatchOutboxEvent eventId => exact free_dispatchOutboxEvent eventId
  | getProcessableEvents limit staleBefore =>
      exact (free_await rfl).bind fun _ => free_await rfl
  | markProcessing eventId => exact free_await (c := .updateEvent eventId _) rfl
  | markFailed eventId retryCount nextRetryAt =>
      exact free_await (c := .updateEvent eventId _) rfl
  | dateNow => exact free_await (c := .dateNow) rfl
  | enterPoll service => exact free_await (c := .enterPoll service) rfl
  | leavePoll service => exact free_await (c := .leavePoll service) rfl

/-- **Every thread of the webhooks keeps to the protocol.** -/
theorem webhook_follows (cfg : Config) (call : Call) :
    ((Webhooks.system cfg).body call).Follows (deliveringProtocol cfg) (fun _ _ => True) .idle := by
  cases call with
  | dispatch eventId => exact free_dispatchOutboxEvent eventId _
  | process deliveryId => exact free_processDelivery deliveryId _
  | work job now =>
      have htry : Free cfg ((Webhooks.processDelivery cfg job.deliveryId).bind fun _ =>
          Prog.await (Webhooks.Command.completeJob job)) :=
        (free_processDelivery job.deliveryId).bind fun _ => free_await rfl
      exact htry.tryCatch (fun _ => free_await (c := .failJob job) rfl) _
  | poll service =>
      exact .expand (I := fun _ => True) (fun c q _ => free_perform c q) _ trivial

end Follows

end Engine
end LedgerEngine
