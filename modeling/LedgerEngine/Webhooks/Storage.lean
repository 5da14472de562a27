/-
# What event dispatch and webhook delivery share

The tables `webhook_subscriptions`, `webhook_deliveries` and `outbox_events`, the
`webhook-delivery` queue, and the calls the services make on them (`Command`):
those of their repositories, of the queue, of a webhook receiver and of the
clock.  `exec` answers them.  What a call meets is drawn with it (`Draw`): the
time, new ids, what the receiver does, and a fault.

The unique `(webhook_subscription_id, outbox_event_id)` is part of the type of
the deliveries.  A statement is refused when its text cannot be stored: a `text`
column takes no U+0000, a `timestamptz` column no invalid date.
-/

import LedgerEngine.Async.Pool
import LedgerEngine.Common.Exceptions
import LedgerEngine.Ledger.Entities
import LedgerEngine.Store.Indexed
import LedgerEngine.Store.JobQueue
import Mathlib.Data.List.Sort

namespace LedgerEngine
namespace Webhooks

inductive WebhookSubscriptionStatus : Type
  | active
  | inactive
  deriving DecidableEq

inductive WebhookDeliveryStatus : Type
  | pending
  | success
  | failed
  deriving DecidableEq

theorem WebhookDeliveryStatus.eq_pending {s : WebhookDeliveryStatus}
    (h : ¬ (s = .success ∨ s = .failed)) : s = .pending := by
  cases s with
  | pending => rfl
  | success => exact absurd (Or.inl rfl) h
  | failed => exact absurd (Or.inr rfl) h

/-- A row of `webhook_subscriptions`. -/
structure WebhookSubscriptionEntity where
  id : Uuid
  targetUrl : JsString
  secret : JsString
  eventType : JsString
  status : WebhookSubscriptionStatus
  deriving DecidableEq

/-- A row of `webhook_deliveries`. -/
structure WebhookDeliveryEntity where
  id : Uuid
  webhookSubscriptionId : Uuid
  outboxEventId : Uuid
  status : WebhookDeliveryStatus
  attemptCount : ℕ
  lastAttemptAt : Option Time
  nextRetryAt : Option Time
  responseStatus : Option ℕ
  responseBody : Option JsString
  createdAt : Time
  updatedAt : Time
  deriving DecidableEq

instance : Keyed WebhookSubscriptionEntity Uuid := ⟨WebhookSubscriptionEntity.id⟩
instance : Keyed WebhookDeliveryEntity Uuid := ⟨WebhookDeliveryEntity.id⟩

/-- `UQ_webhook_deliveries_subscription_outbox`. -/
instance : Indexed WebhookDeliveryEntity (Uuid × Uuid) :=
  ⟨fun d => (d.webhookSubscriptionId, d.outboxEventId)⟩

@[simp] theorem WebhookDeliveryEntity.key_eq (d : WebhookDeliveryEntity) : Keyed.key d = d.id := rfl

/-- A `Date` object: its time value, or none if it is an invalid date. -/
abbrev JsDate := Option Time

/-- `new Date(ms)`: a date within 8.64e15 ms of the epoch. -/
def newDate (ms : ℤ) : JsDate :=
  if -8640000000000000 ≤ ms ∧ ms ≤ 8640000000000000 then some ms else none

/-- A nullable column set to a date that is not invalid. -/
def Storable (date : Option JsDate) : Prop := date ≠ some none

instance (date : Option JsDate) : Decidable (Storable date) :=
  inferInstanceAs (Decidable (date ≠ some none))

/-- What `update` sets of a delivery. -/
structure DeliveryPatch where
  status : WebhookDeliveryStatus
  attemptCount : ℕ
  lastAttemptAt : Time
  nextRetryAt : Option JsDate
  responseStatus : Option ℕ
  responseBody : JsString

def DeliveryPatch.apply (now : Time) (p : DeliveryPatch) (d : WebhookDeliveryEntity) :
    WebhookDeliveryEntity :=
  { d with
    status := p.status
    attemptCount := p.attemptCount
    lastAttemptAt := some p.lastAttemptAt
    nextRetryAt := p.nextRetryAt.join
    responseStatus := p.responseStatus
    responseBody := some p.responseBody
    updatedAt := now }

def DeliveryPatch.change (now : Time) (p : DeliveryPatch) : Change WebhookDeliveryEntity where
  apply := p.apply now
  key_apply _ := rfl
  index_apply _ := rfl

/-- The columns can take the patch. -/
def DeliveryPatch.Fits (p : DeliveryPatch) : Prop := Storable p.nextRetryAt ∧ 0 ∉ p.responseBody

instance (p : DeliveryPatch) : Decidable p.Fits :=
  inferInstanceAs (Decidable (Storable p.nextRetryAt ∧ 0 ∉ p.responseBody))

/-- What `update` sets of an event; `none` leaves the columns alone. -/
structure EventPatch where
  status : OutboxStatus
  publishedAt : Option Time
  retry : Option (ℕ × Option JsDate)

def EventPatch.apply (now : Time) (p : EventPatch) (e : OutboxEventEntity) : OutboxEventEntity :=
  { e with
    status := p.status
    publishedAt := p.publishedAt.or e.publishedAt
    retryCount := (p.retry.map Prod.fst).getD e.retryCount
    nextRetryAt := (p.retry.map fun r => r.2.join).getD e.nextRetryAt
    updatedAt := now }

/-- The columns can take the patch. -/
def EventPatch.Fits (p : EventPatch) : Prop := ∀ r ∈ p.retry, Storable r.2

instance (p : EventPatch) : Decidable p.Fits :=
  inferInstanceAs (Decidable (∀ r ∈ p.retry, Storable r.2))

/-- A delivery to insert. -/
structure NewDelivery where
  webhookSubscriptionId : Uuid
  outboxEventId : Uuid
  status : WebhookDeliveryStatus
  attemptCount : ℕ
  nextRetryAt : Time

def NewDelivery.row (now : Time) (d : NewDelivery) (id : Uuid) : WebhookDeliveryEntity where
  id := id
  webhookSubscriptionId := d.webhookSubscriptionId
  outboxEventId := d.outboxEventId
  status := d.status
  attemptCount := d.attemptCount
  lastAttemptAt := none
  nextRetryAt := some d.nextRetryAt
  responseStatus := none
  responseBody := none
  createdAt := now
  updatedAt := now

/-- The job id `<deliveryId>-attempt-<attempt>`. -/
structure JobId where
  deliveryId : Uuid
  attempt : ℕ
  deriving DecidableEq

/-- The rows the foreign keys of a new delivery point to exist. -/
def NewDelivery.References (subscriptions : Table WebhookSubscriptionEntity)
    (outboxEvents : Table OutboxEventEntity) (d : NewDelivery) : Prop :=
  (subscriptions.find? d.webhookSubscriptionId).isSome ∧
    (outboxEvents.find? d.outboxEventId).isSome

instance (subscriptions : Table WebhookSubscriptionEntity) (outboxEvents : Table OutboxEventEntity)
    (d : NewDelivery) : Decidable (d.References subscriptions outboxEvents) :=
  inferInstanceAs (Decidable (_ ∧ _))

/-- A delivery as `findOne` returns it, with its two relations. -/
structure LoadedDelivery where
  delivery : WebhookDeliveryEntity
  subscription : Option WebhookSubscriptionEntity
  outboxEvent : Option OutboxEventEntity

/-- What `fetch` is called with to deliver an event. -/
structure WebhookRequest where
  targetUrl : JsString
  signature : JsString
  eventType : JsString
  payload : TransactionCompletedPayload

/-- The calls.  `fetch` and `responseText` name the delivery they are made for,
`enterPoll` and `leavePoll` the service instance whose `outboxRunning` they set. -/
inductive Command : Type
  | dateNow
  | findEvent (id : Uuid)
  | findProcessable (limit : ℕ) (now staleBefore : Time)
  | updateEvent (id : Uuid) (p : EventPatch)
  | findSubscriptions (eventType : JsString)
  | findDeliveries (outboxEventId : Uuid)
  | findDelivery (id : Uuid)
  | saveDeliveries (rows : List NewDelivery)
  | updateDelivery (id : Uuid) (p : DeliveryPatch)
  | fetch (deliveryId : Uuid) (request : WebhookRequest)
  | responseText (deliveryId : Uuid)
  | addJob (job : JobId) (delayMs : ℤ)
  | completeJob (job : JobId)
  | failJob (job : JobId)
  | enterPoll (service : ℕ)
  | leavePoll (service : ℕ)

/-- What each call resolves with: of a response, its status. -/
abbrev Command.Res : Command → Type
  | .dateNow => Time
  | .findEvent _ => Option OutboxEventEntity
  | .findProcessable _ _ _ => List OutboxEventEntity
  | .updateEvent _ _ => Unit
  | .findSubscriptions _ => List WebhookSubscriptionEntity
  | .findDeliveries _ => List WebhookDeliveryEntity
  | .findDelivery _ => Option LoadedDelivery
  | .saveDeliveries _ => List WebhookDeliveryEntity
  | .updateDelivery _ _ => Unit
  | .fetch _ _ => ℕ
  | .responseText _ => JsString
  | .addJob _ _ => Unit
  | .completeJob _ => Unit
  | .failJob _ => Unit
  | .enterPoll _ => Bool
  | .leavePoll _ => Unit

/-- What is drawn for one call. -/
structure Draw where
  fault : Option (Fault Exception)
  now : Time
  ids : List Uuid
  response : Except Exception ℕ
  text : Except Exception JsString

/-- The tables, the queue, the services that are polling, and, newest first, the POSTs:
for which delivery and when.  A POST is a call of `fetch`: one for a url that `fetch`
refuses counts, and what it sends again to follow a redirect does not. -/
structure World where
  subscriptions : Table WebhookSubscriptionEntity
  outboxEvents : Table OutboxEventEntity
  deliveries : IndexedTable WebhookDeliveryEntity
  queue : JobQueue JobId
  polling : List ℕ
  posts : List (Uuid × Time)

/-- The deliveries of an event, in the order they were inserted. -/
def World.deliveriesOf (w : World) (outboxEventId : Uuid) : List WebhookDeliveryEntity :=
  w.deliveries.rows.filter fun d => d.outboxEventId = outboxEventId

/-- The rows `getProcessableEvents` asks for. -/
def processable (now staleBefore : Time) (e : OutboxEventEntity) : Bool :=
  match e.status with
  | .pending => e.nextRetryAt.all fun t => t ≤ now
  | .processing => e.updatedAt ≤ staleBefore
  | _ => false

def unstorable : Exception := .queryFailed (js "the value cannot be stored")

def violation : Exception := .queryFailed (js "a row violates a constraint")

/-- `removeOnComplete` and `removeOnFail`. -/
def retention : ℕ := 100

/-- The rows of one `save` of new deliveries, with the ids the server draws. -/
def World.saveDeliveries (w : World) (now : Time) (ids : List Uuid) (rows : List NewDelivery) :
    Option (List WebhookDeliveryEntity × IndexedTable WebhookDeliveryEntity) :=
  let saved := List.zipWith (NewDelivery.row now) rows ids
  if ids.length = rows.length ∧ ∀ d ∈ rows, d.References w.subscriptions w.outboxEvents then
    (w.deliveries.insertAll? saved).map fun deliveries => (saved, deliveries)
  else none

/-- The events with one of them patched; no change where there is none. -/
def World.updateEvent (w : World) (now : Time) (id : Uuid) (p : EventPatch) :
    Table OutboxEventEntity :=
  match w.outboxEvents.find? id with
  | some e => w.outboxEvents.put (p.apply now e)
  | none => w.outboxEvents

/-- A call that meets no fault.  How `fetch` settles is drawn, whether a receiver was
reached or not. -/
def answer (ω : Draw) : (c : Command) → World → Except Exception c.Res × World
  | .dateNow, w => (.ok ω.now, w)
  | .findEvent id, w => (.ok (w.outboxEvents.find? id), w)
  | .findProcessable limit now staleBefore, w =>
      (.ok (((w.outboxEvents.rows.filter (processable now staleBefore)).insertionSort
        fun e e' => e.createdAt ≤ e'.createdAt).take limit), w)
  | .updateEvent id p, w =>
      if p.Fits then (.ok (), { w with outboxEvents := w.updateEvent ω.now id p })
      else (.error unstorable, w)
  | .findSubscriptions eventType, w =>
      (.ok (w.subscriptions.rows.filter fun s => s.eventType = eventType ∧ s.status = .active), w)
  | .findDeliveries outboxEventId, w => (.ok (w.deliveriesOf outboxEventId), w)
  | .findDelivery id, w =>
      (.ok ((w.deliveries.find? id).map fun d =>
        ⟨d, w.subscriptions.find? d.webhookSubscriptionId, w.outboxEvents.find? d.outboxEventId⟩), w)
  | .saveDeliveries rows, w =>
      match w.saveDeliveries ω.now ω.ids rows with
      | some (saved, deliveries) => (.ok saved, { w with deliveries })
      | none => (.error violation, w)
  | .updateDelivery id p, w =>
      if p.Fits then (.ok (), { w with deliveries := w.deliveries.update id (p.change ω.now) })
      else (.error unstorable, w)
  | .fetch deliveryId _, w => (ω.response, { w with posts := (deliveryId, ω.now) :: w.posts })
  | .responseText _, w => (ω.text, w)
  | .addJob job delayMs, w =>
      let state := if delayMs ≤ 0 then .waiting else .delayed (ω.now + delayMs)
      (.ok (), { w with queue := w.queue.add job state })
  | .completeJob job, w => (.ok (), { w with queue := w.queue.complete retention job })
  | .failJob job, w => (.ok (), { w with queue := w.queue.fail retention job })
  | .enterPoll service, w =>
      (.ok (service ∉ w.polling), { w with polling := w.polling.insert service })
  | .leavePoll service, w =>
      (.ok (), { w with polling := w.polling.filter fun s => s ≠ service })

/-- The calls that go to the database. -/
def Command.stores : Command → Bool
  | .findEvent _ | .findProcessable _ _ _ | .updateEvent _ _ | .findSubscriptions _
  | .findDeliveries _ | .findDelivery _ | .saveDeliveries _ | .updateDelivery _ _ => true
  | _ => false

/-- The calls that add a job to the queue. -/
def Command.enqueues : Command → Bool
  | .addJob _ _ => true
  | _ => false

/-- The calls that write deliveries or jobs. -/
def Command.alters : Command → Bool
  | .saveDeliveries _ | .updateDelivery _ _ | .addJob _ _ | .completeJob _ | .failJob _ => true
  | _ => false

/-- A call, with what was drawn for it; only the database and the queue fail
other than by their answer. -/
def exec (ω : Draw) : Prog.Handler Command Command.Res Exception World := fun c =>
  if c.stores || c.enqueues then Prog.Handler.meet (answer ω) ω.fault c else answer ω c

/-! ### What a call can do -/

section Effects

variable {ω : Draw} {c : Command} {w : World}

/-- The events after one is patched. -/
theorem find?_updateEvent (w : World) (now : Time) (e' : Uuid) (p : EventPatch) (e : Uuid) :
    (w.updateEvent now e' p).find? e =
      if e' = e then (w.outboxEvents.find? e).map (p.apply now) else w.outboxEvents.find? e := by
  unfold World.updateEvent
  cases hfind : w.outboxEvents.find? e' with
  | none =>
      split_ifs with he
      · rw [← he, hfind]
        rfl
      · rfl
  | some event =>
      have hid : event.id = e' := (Table.find?_eq_some hfind).2
      dsimp only
      rw [Table.find?_put]
      have hkey : Keyed.key (p.apply now event) = e' := hid
      rw [hkey]
      split_ifs with he
      · rw [← he, hfind]
        rfl
      · rfl

/-- A call that resolves has met no fault. -/
theorem exec_of_ok {r : c.Res} (h : (exec ω c w).1 = .ok r) : exec ω c w = answer ω c w := by
  unfold exec at h ⊢
  split_ifs at h ⊢
  · exact Prog.Handler.meet_of_ok h
  · rfl

/-- A call has its effect or none. -/
theorem exec_world (ω : Draw) (c : Command) (w : World) :
    (exec ω c w).2 = w ∨ (exec ω c w).2 = (answer ω c w).2 := by
  unfold exec
  split_ifs
  · exact Prog.Handler.meet_state (answer ω) ω.fault c w
  · exact Or.inr rfl

/-- A call that meets no fault. -/
theorem exec_of_fault_eq_none (h : ω.fault = none) : exec ω c w = answer ω c w := by
  unfold exec
  rw [h]
  split_ifs <;> rfl

/-- A call that throws has had no effect. -/
def Draw.Clean (ω : Draw) : Prop :=
  match ω.fault with
  | some (.lost _) => False
  | _ => True

instance : (ω : Draw) → Decidable ω.Clean
  | ⟨none, _, _, _, _⟩ | ⟨some (.refused _), _, _, _, _⟩ => inferInstanceAs (Decidable True)
  | ⟨some (.lost _), _, _, _, _⟩ => inferInstanceAs (Decidable False)

/-- A call of the database that throws so has changed nothing. -/
theorem exec_of_error (hω : ω.Clean) (hc : c.stores = true) {e : Exception}
    (h : (exec ω c w).1 = .error e) : (exec ω c w).2 = w := by
  unfold exec at h ⊢
  rw [hc, Bool.true_or, if_pos rfl] at h ⊢
  unfold Draw.Clean at hω
  cases hfault : ω.fault with
  | some fault =>
      rw [hfault] at hω
      cases fault with
      | refused e => rfl
      | lost e => exact hω.elim
  | none =>
      rw [hfault] at h
      simp only [Prog.Handler.meet] at h ⊢
      cases c with
      | saveDeliveries rows =>
          cases hs : w.saveDeliveries ω.now ω.ids rows with
          | none => simp only [answer, hs]
          | some saved => simp [answer, hs] at h
      | updateDelivery d p =>
          by_cases hp : p.Fits
          · simp [answer, hp] at h
          · simp only [answer, hp, if_false]
      | updateEvent id p =>
          by_cases hp : p.Fits
          · simp [answer, hp] at h
          · simp only [answer, hp, if_false]
      | _ => first | rfl | exact absurd hc Bool.false_ne_true

/-- The rows a `save` of deliveries adds. -/
theorem saveDeliveries_eq_some {now : Time} {ids : List Uuid} {rows : List NewDelivery}
    {saved : List WebhookDeliveryEntity} {deliveries : IndexedTable WebhookDeliveryEntity}
    (h : w.saveDeliveries now ids rows = some (saved, deliveries)) :
    w.deliveries.insertAll? saved = some deliveries ∧
      (∀ d ∈ rows, d.References w.subscriptions w.outboxEvents) ∧
      ∀ r ∈ saved, ∃ d ∈ rows, ∃ id, r = d.row now id := by
  unfold World.saveDeliveries at h
  split_ifs at h with hrows
  obtain ⟨deliveries', h', e⟩ := Option.map_eq_some_iff.1 h
  obtain ⟨rfl, rfl⟩ := Prod.mk.inj e
  refine ⟨h', hrows.2, fun r hr => ?_⟩
  obtain ⟨i, hi, rfl⟩ := List.getElem_of_mem hr
  rw [List.length_zipWith, lt_min_iff] at hi
  exact ⟨rows[i], List.getElem_mem _, ids[i], List.getElem_zipWith⟩

/-- A save of deliveries writes nothing else. -/
theorem answer_saveDeliveries (ω : Draw) (rows : List NewDelivery) (w : World) :
    ∃ deliveries, (answer ω (.saveDeliveries rows) w).2 = { w with deliveries } := by
  cases hs : w.saveDeliveries ω.now ω.ids rows with
  | none => exact ⟨w.deliveries, by simp only [answer, hs]⟩
  | some saved => exact ⟨saved.2, by simp only [answer, hs]⟩

/-- Nor does an update of a delivery. -/
theorem answer_updateDelivery (ω : Draw) (d : Uuid) (p : DeliveryPatch) (w : World) :
    ∃ deliveries, (answer ω (.updateDelivery d p) w).2 = { w with deliveries } := by
  by_cases hp : p.Fits
  · exact ⟨w.deliveries.update d (p.change ω.now), by simp only [answer, if_pos hp]⟩
  · exact ⟨w.deliveries, by simp only [answer, if_neg hp]⟩

/-- An update of an event is refused or made. -/
theorem answer_updateEvent (ω : Draw) (e : Uuid) (p : EventPatch) (w : World) :
    (answer ω (.updateEvent e p) w).2 = w ∨
      (answer ω (.updateEvent e p) w).2 = { w with outboxEvents := w.updateEvent ω.now e p } := by
  by_cases hp : p.Fits
  · exact Or.inr (by simp only [answer, if_pos hp])
  · exact Or.inl (by simp only [answer, if_neg hp])

/-- **What a call does to the deliveries**: it adds rows, changes one, or leaves
them alone. -/
inductive DeliveriesEffect (ω : Draw) (w : World) : Command →
    IndexedTable WebhookDeliveryEntity → Prop
  | same (c : Command) : DeliveriesEffect ω w c w.deliveries
  | saved {rows : List NewDelivery} {saved : List WebhookDeliveryEntity}
      {deliveries : IndexedTable WebhookDeliveryEntity}
      (h : w.saveDeliveries ω.now ω.ids rows = some (saved, deliveries)) :
      DeliveriesEffect ω w (.saveDeliveries rows) deliveries
  | updated (d : Uuid) {p : DeliveryPatch} (h : p.Fits) :
      DeliveriesEffect ω w (.updateDelivery d p) (w.deliveries.update d (p.change ω.now))

theorem answer_deliveries (ω : Draw) (c : Command) (w : World) :
    DeliveriesEffect ω w c (answer ω c w).2.deliveries := by
  cases c with
  | saveDeliveries rows =>
      cases h : w.saveDeliveries ω.now ω.ids rows with
      | none => simpa only [answer, h] using .same _
      | some saved => simpa only [answer, h] using .saved h
  | updateDelivery d p =>
      by_cases h : p.Fits
      · simpa only [answer, if_pos h] using .updated d h
      · simpa only [answer, if_neg h] using .same _
  | updateEvent e p =>
      rcases answer_updateEvent ω e p w with h | h
      · rw [h]
        exact .same _
      · rw [h]
        exact .same _
  | _ => exact .same _

theorem exec_deliveries (ω : Draw) (c : Command) (w : World) :
    DeliveriesEffect ω w c (exec ω c w).2.deliveries := by
  rcases exec_world ω c w with h | h
  · rw [h]
    exact .same c
  · rw [h]
    exact answer_deliveries ω c w

/-- What a call does to the queue: it adds a job, finishes one, or leaves it alone. -/
inductive QueueEffect (w : World) : Command → JobQueue JobId → Prop
  | same (c : Command) : QueueEffect w c w.queue
  | added (job : JobId) (delayMs : ℤ) (state : JobState) :
      QueueEffect w (.addJob job delayMs) (w.queue.add job state)
  | completed (job : JobId) : QueueEffect w (.completeJob job) (w.queue.complete retention job)
  | failed (job : JobId) : QueueEffect w (.failJob job) (w.queue.fail retention job)

theorem answer_queue (ω : Draw) (c : Command) (w : World) :
    QueueEffect w c (answer ω c w).2.queue := by
  cases c with
  | addJob job delayMs => exact .added job delayMs _
  | completeJob job => exact .completed job
  | failJob job => exact .failed job
  | saveDeliveries rows =>
      obtain ⟨_, h⟩ := answer_saveDeliveries ω rows w
      rw [h]
      exact .same _
  | updateDelivery d p =>
      obtain ⟨_, h⟩ := answer_updateDelivery ω d p w
      rw [h]
      exact .same _
  | updateEvent e p =>
      rcases answer_updateEvent ω e p w with h | h
      · rw [h]
        exact .same _
      · rw [h]
        exact .same _
  | _ => exact .same _

theorem exec_queue (ω : Draw) (c : Command) (w : World) :
    QueueEffect w c (exec ω c w).2.queue := by
  rcases exec_world ω c w with h | h
  · rw [h]
    exact .same c
  · rw [h]
    exact answer_queue ω c w

/-- Only a call of `fetch` is a POST. -/
theorem exec_posts (ω : Draw) (c : Command) (w : World) :
    (exec ω c w).2.posts = w.posts ∨
      ∃ d request, c = .fetch d request ∧ (exec ω c w).2.posts = (d, ω.now) :: w.posts := by
  rcases exec_world ω c w with h | h
  · exact Or.inl (congrArg World.posts h)
  · rw [h]
    cases c with
    | fetch d request => exact Or.inr ⟨d, request, rfl, rfl⟩
    | saveDeliveries rows =>
        obtain ⟨_, h⟩ := answer_saveDeliveries ω rows w
        rw [h]
        exact Or.inl rfl
    | updateDelivery d p =>
        obtain ⟨_, h⟩ := answer_updateDelivery ω d p w
        rw [h]
        exact Or.inl rfl
    | updateEvent e p =>
        rcases answer_updateEvent ω e p w with h | h
        · rw [h]
          exact Or.inl rfl
        · rw [h]
          exact Or.inl rfl
    | _ => exact Or.inl rfl

/-- Only `updateEvent` changes an event. -/
theorem exec_outboxEvents (ω : Draw) (c : Command) (w : World) :
    (exec ω c w).2.outboxEvents = w.outboxEvents ∨
      ∃ e p, c = .updateEvent e p ∧ (exec ω c w).2.outboxEvents = w.updateEvent ω.now e p := by
  rcases exec_world ω c w with h | h
  · exact Or.inl (congrArg World.outboxEvents h)
  · rw [h]
    cases c with
    | updateEvent e p =>
        rcases answer_updateEvent ω e p w with h | h
        · rw [h]
          exact Or.inl rfl
        · rw [h]
          exact Or.inr ⟨e, p, rfl, rfl⟩
    | saveDeliveries rows =>
        obtain ⟨_, h⟩ := answer_saveDeliveries ω rows w
        rw [h]
        exact Or.inl rfl
    | updateDelivery d p =>
        obtain ⟨_, h⟩ := answer_updateDelivery ω d p w
        rw [h]
        exact Or.inl rfl
    | _ => exact Or.inl rfl

theorem isOk_elim {α : Type} {r : Except Exception α} (h : r.isOk = true) : ∃ a, r = .ok a := by
  cases r with
  | ok a => exact ⟨a, rfl⟩
  | error _ => exact absurd h Bool.false_ne_true

/-- An update of a delivery that resolves has patched the row. -/
theorem exec_updateDelivery {d : Uuid} {p : DeliveryPatch}
    (h : (exec ω (.updateDelivery d p) w).1.isOk = true) :
    (exec ω (.updateDelivery d p) w).1 = .ok () ∧
      (exec ω (.updateDelivery d p) w).2 =
        { w with deliveries := w.deliveries.update d (p.change ω.now) } := by
  obtain ⟨_, hr⟩ := isOk_elim h
  have hexec := exec_of_ok hr
  rw [hexec] at hr ⊢
  by_cases hp : p.Fits
  · simp only [answer, if_pos hp, and_self]
  · simp [answer, if_neg hp] at hr

/-- An update of an event that resolves has patched the row. -/
theorem exec_updateEvent {e' : Uuid} {p : EventPatch}
    (h : (exec ω (.updateEvent e' p) w).1.isOk = true) :
    (exec ω (.updateEvent e' p) w).1 = .ok () ∧
      (exec ω (.updateEvent e' p) w).2 = { w with outboxEvents := w.updateEvent ω.now e' p } := by
  obtain ⟨_, hr⟩ := isOk_elim h
  have hexec := exec_of_ok hr
  rw [hexec] at hr ⊢
  by_cases hp : p.Fits
  · simp only [answer, if_pos hp, and_self]
  · simp [answer, if_neg hp] at hr

/-- The calls that leave the deliveries alone. -/
theorem deliveries_exec (hsave : ∀ rows, c ≠ .saveDeliveries rows)
    (hupdate : ∀ d p, c ≠ .updateDelivery d p) : (exec ω c w).2.deliveries = w.deliveries := by
  have heffect := exec_deliveries ω c w
  generalize (exec ω c w).2.deliveries = deliveries at heffect
  cases heffect with
  | same => rfl
  | saved => exact absurd rfl (hsave _)
  | updated => exact absurd rfl (hupdate _ _)

/-- A `save` that resolves has added its rows. -/
theorem exec_saveDeliveries {rows : List NewDelivery} {new : List WebhookDeliveryEntity}
    (h : (exec ω (.saveDeliveries rows) w).1 = .ok new) :
    ∃ deliveries, w.saveDeliveries ω.now ω.ids rows = some (new, deliveries) ∧
      (exec ω (.saveDeliveries rows) w).2 = { w with deliveries } := by
  have hexec := exec_of_ok h
  rw [hexec] at h ⊢
  cases hs : w.saveDeliveries ω.now ω.ids rows with
  | none => simp [answer, hs] at h
  | some saved =>
      simp only [answer, hs] at h ⊢
      obtain rfl := Except.ok.inj h
      exact ⟨_, rfl, rfl⟩

theorem find?_saved {rows : List NewDelivery} {new : List WebhookDeliveryEntity}
    (h : (exec ω (.saveDeliveries rows) w).1 = .ok new) {r : WebhookDeliveryEntity} (hr : r ∈ new) :
    (exec ω (.saveDeliveries rows) w).2.deliveries.find? r.id = some r := by
  obtain ⟨deliveries, hsave, hw⟩ := exec_saveDeliveries h
  rw [hw]
  refine Table.find?_key (t := deliveries.toTable) ?_
  rw [IndexedTable.rows_insertAll (saveDeliveries_eq_some hsave).1]
  exact List.mem_append_right _ hr

/-- The calls that leave the queue alone. -/
theorem queue_exec (hadd : ∀ job delayMs, c ≠ .addJob job delayMs)
    (hcomplete : ∀ job, c ≠ .completeJob job) (hfail : ∀ job, c ≠ .failJob job) :
    (exec ω c w).2.queue = w.queue := by
  have heffect := exec_queue ω c w
  generalize (exec ω c w).2.queue = queue at heffect
  cases heffect with
  | same => rfl
  | added => exact absurd rfl (hadd _ _)
  | completed => exact absurd rfl (hcomplete _)
  | failed => exact absurd rfl (hfail _)

/-- The other calls leave deliveries and jobs as they were. -/
theorem same_exec (hc : c.alters = false) :
    (exec ω c w).2.deliveries = w.deliveries ∧ (exec ω c w).2.queue = w.queue := by
  have hne {c' : Command} (hc' : c'.alters = true) : c ≠ c' := by
    rintro rfl
    exact Bool.false_ne_true (hc.symm.trans hc')
  constructor
  · exact deliveries_exec (fun _ => hne rfl) fun _ _ => hne rfl
  · exact queue_exec (fun _ _ => hne rfl) (fun _ => hne rfl) fun _ => hne rfl

/-- The subscriptions and the types of the events are as they were. -/
structure World.Kept (w w' : World) : Prop where
  subscriptions : w'.subscriptions = w.subscriptions
  eventType : ∀ e, (w'.outboxEvents.find? e).map OutboxEventEntity.eventType =
    (w.outboxEvents.find? e).map OutboxEventEntity.eventType

theorem World.Kept.refl (w : World) : w.Kept w := ⟨rfl, fun _ => rfl⟩

/-- An event keeps its type. -/
theorem World.Kept.updateEvent {w₀ : World} (h : w₀.Kept w) {e : Uuid} (now : Time)
    (p : EventPatch) : w₀.Kept { w with outboxEvents := w.updateEvent now e p } := by
  refine ⟨h.subscriptions, fun e' => ?_⟩
  rw [← h.eventType e']
  dsimp only
  rw [find?_updateEvent]
  split_ifs
  · cases w.outboxEvents.find? e' <;> rfl
  · rfl

/-- No call changes a subscription or the type of an event. -/
theorem kept_exec (ω : Draw) (c : Command) (w : World) : w.Kept (exec ω c w).2 := by
  rcases exec_world ω c w with h | h
  · rw [h]
    exact .refl w
  · rw [h]
    cases c with
    | updateEvent e p =>
        rcases answer_updateEvent ω e p w with h | h
        · rw [h]
          exact .refl w
        · rw [h]
          exact (World.Kept.refl w).updateEvent ω.now p
    | saveDeliveries rows =>
        obtain ⟨_, h⟩ := answer_saveDeliveries ω rows w
        rw [h]
        exact ⟨rfl, fun _ => rfl⟩
    | updateDelivery d p =>
        obtain ⟨_, h⟩ := answer_updateDelivery ω d p w
        rw [h]
        exact ⟨rfl, fun _ => rfl⟩
    | _ => exact ⟨rfl, fun _ => rfl⟩

/-- An event stays. -/
theorem event_exec {e : Uuid} (h : (w.outboxEvents.find? e).isSome) :
    ((exec ω c w).2.outboxEvents.find? e).isSome := by
  rcases exec_outboxEvents ω c w with hsame | ⟨e', p, -, hnew⟩
  · rwa [hsame]
  · rw [hnew, find?_updateEvent]
    split_ifs
    · rwa [Option.isSome_map]
    · exact h

/-- The rows after a call that may update one. -/
theorem find?_exec_updateDelivery {d' : Uuid} {p : DeliveryPatch} {r' : WebhookDeliveryEntity}
    (h : (exec ω (.updateDelivery d' p) w).2.deliveries.find? d = some r') :
    w.deliveries.find? d = some r' ∨
      d = d' ∧ p.Fits ∧ r'.status = p.status ∧ r'.attemptCount = p.attemptCount := by
  have heffect := exec_deliveries ω (.updateDelivery d' p) w
  generalize (exec ω (.updateDelivery d' p) w).2.deliveries = deliveries at h heffect
  cases heffect with
  | same => exact Or.inl h
  | updated _ hfits =>
      rw [IndexedTable.find?_update, Option.map_eq_some_iff] at h
      obtain ⟨r, hr, rfl⟩ := h
      have hkey : Keyed.key r = d := (Table.find?_eq_some hr).2
      by_cases hd : d = d'
      · rw [IndexedTable.changed_of_eq (hkey.trans hd)]
        exact Or.inr ⟨hd, hfits, rfl, rfl⟩
      · rw [IndexedTable.changed_of_ne (hkey ▸ hd)]
        exact Or.inl hr

end Effects

end Webhooks
end LedgerEngine
