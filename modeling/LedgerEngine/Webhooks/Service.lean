/-
# Dispatching events and delivering them

`WebhooksService` (`src/modules/webhooks/webhooks.service.ts`), the methods of
`OutboxService` it and the poller use (`src/modules/outbox/outbox.service.ts`),
the poller `JobsService.processOutboxBatch` (`src/jobs/jobs.service.ts`) and the
processor of delivery jobs, as programs over `Command`.

The poller is a program over calls of the other two services (`ServiceCall`);
`processOutboxBatch` is that program with each of them carried out.
-/

import LedgerEngine.Webhooks.Storage

namespace LedgerEngine
namespace Webhooks

/-- The settings `queue.*` and the two functions of `node:crypto` that
`signWebhookPayload` composes. -/
structure Config where
  webhookMaxAttempts : ℕ
  webhookBackoffMs : ℕ
  outboxBatchSize : ℕ
  outboxStaleAfterMs : ℕ
  outboxMaxAttempts : ℕ
  outboxBackoffMs : ℕ
  signWebhookPayload : TransactionCompletedPayload → JsString → JsString

/-- The settings of `queue.config.ts` where the environment sets none. -/
def Config.defaults (signWebhookPayload : TransactionCompletedPayload → JsString → JsString) :
    Config where
  webhookMaxAttempts := 5
  webhookBackoffMs := 5000
  outboxBatchSize := 20
  outboxStaleAfterMs := 30000
  outboxMaxAttempts := 5
  outboxBackoffMs := 5000
  signWebhookPayload := signWebhookPayload

abbrev Service := Prog Command Command.Res Exception

def dateNow : Service Time := .await Command.dateNow
def findEvent (id : Uuid) : Service (Option OutboxEventEntity) := .await (Command.findEvent id)
def updateEvent (id : Uuid) (p : EventPatch) : Service Unit := .await (Command.updateEvent id p)
def findDelivery (id : Uuid) : Service (Option LoadedDelivery) := .await (Command.findDelivery id)

def findSubscriptions (eventType : JsString) : Service (List WebhookSubscriptionEntity) :=
  .await (Command.findSubscriptions eventType)

def findDeliveries (outboxEventId : Uuid) : Service (List WebhookDeliveryEntity) :=
  .await (Command.findDeliveries outboxEventId)

def saveDeliveries (rows : List NewDelivery) : Service (List WebhookDeliveryEntity) :=
  .await (Command.saveDeliveries rows)

def updateDelivery (id : Uuid) (p : DeliveryPatch) : Service Unit :=
  .await (Command.updateDelivery id p)

def fetch (deliveryId : Uuid) (request : WebhookRequest) : Service ℕ :=
  .await (Command.fetch deliveryId request)

def responseText (deliveryId : Uuid) : Service JsString := .await (Command.responseText deliveryId)

/-! ### The outbox service -/

def getProcessableEvents (limit : ℕ) (staleBefore : Time) : Service (List OutboxEventEntity) := do
  let now ← dateNow
  .await (Command.findProcessable limit now staleBefore)

def markProcessing (eventId : Uuid) : Service Unit :=
  updateEvent eventId { status := .processing, publishedAt := none, retry := none }

def markPublished (eventId : Uuid) : Service Unit := do
  let publishedAt ← dateNow
  updateEvent eventId { status := .published, publishedAt := some publishedAt, retry := none }

/-- What `markFailed` sets. -/
def failedPatch (retryCount : ℕ) (nextRetryAt : Option JsDate) : EventPatch where
  status := if nextRetryAt.isSome then .pending else .failed
  publishedAt := none
  retry := some (retryCount, nextRetryAt)

def markFailed (eventId : Uuid) (retryCount : ℕ) (nextRetryAt : Option JsDate) : Service Unit :=
  updateEvent eventId (failedPatch retryCount nextRetryAt)

/-! ### The webhooks service -/

/-- The status `updateOutboxStatus` computes from the deliveries it has read. -/
def aggregate (deliveries : List WebhookDeliveryEntity) : OutboxStatus :=
  if deliveries.all fun d => d.status = .success then .published
  else if deliveries.any fun d => d.status = .pending then .processing
  else .failed

/-- The highest `attemptCount`. -/
def maxRetryCount (deliveries : List WebhookDeliveryEntity) : ℕ :=
  (deliveries.map WebhookDeliveryEntity.attemptCount).foldl max 0

def updateOutboxStatus (outboxEventId : Uuid) : Service Unit := do
  let deliveries ← findDeliveries outboxEventId
  match aggregate deliveries with
  | .published => markPublished outboxEventId
  | .failed => markFailed outboxEventId (maxRetryCount deliveries) none
  | _ => updateEvent outboxEventId { status := .processing, publishedAt := none, retry := none }

def enqueueDelivery (deliveryId : Uuid) (delayMs : ℤ) (attempt : ℕ) : Service Unit :=
  .await (Command.addJob ⟨deliveryId, attempt⟩ delayMs)

/-- The subscriptions that have no delivery yet. -/
def missingSubscriptions (subscriptions : List WebhookSubscriptionEntity)
    (existingDeliveries : List WebhookDeliveryEntity) : List WebhookSubscriptionEntity :=
  subscriptions.filter fun s => s.id ∉ existingDeliveries.map (·.webhookSubscriptionId)

/-- The delivery `dispatchOutboxEvent` creates for a subscription. -/
def newDelivery (eventId : Uuid) (nextRetryAt : Time) (s : WebhookSubscriptionEntity) :
    NewDelivery where
  webhookSubscriptionId := s.id
  outboxEventId := eventId
  status := .pending
  attemptCount := 0
  nextRetryAt := nextRetryAt

/-- The deliveries that are missing are created, if there are any. -/
def createMissing (eventId : Uuid) (missing : List WebhookSubscriptionEntity) :
    Service (List WebhookDeliveryEntity) :=
  match missing with
  | [] => return []
  | _ :: _ => do
      let now ← dateNow
      saveDeliveries (missing.map (newDelivery eventId now))

/-- The deliveries a dispatch enqueues. -/
def pendingOf (deliveries : List WebhookDeliveryEntity) : List WebhookDeliveryEntity :=
  deliveries.filter fun d => d.status = .pending

/-- The second half of `dispatchOutboxEvent`, once the missing deliveries exist. -/
def enqueuePending (eventId : Uuid) (deliveries : List WebhookDeliveryEntity) : Service Unit :=
  match pendingOf deliveries with
  | [] => updateOutboxStatus eventId
  | d :: ds =>
      Prog.promiseAll ((d :: ds).map fun delivery =>
        enqueueDelivery delivery.id 0 (delivery.attemptCount + 1))

def dispatchOutboxEvent (eventId : Uuid) : Service Unit := do
  match ← findEvent eventId with
  | none => return ()
  | some event => do
      let subscriptions ← findSubscriptions event.eventType
      let existingDeliveries ← findDeliveries event.id
      if subscriptions = [] ∧ existingDeliveries = [] then markPublished event.id
      else do
        let newDeliveries ← createMissing event.id
          (missingSubscriptions subscriptions existingDeliveries)
        enqueuePending event.id (existingDeliveries ++ newDeliveries)

/-- A property of `null` is read. -/
def typeError : Exception := .error (js "Cannot read properties of null")

/-- The relation of a loaded row, where the code reads a property of it. -/
def relation {α : Type} : Option α → Service α
  | some a => return a
  | none => throw typeError

def responseOk (status : ℕ) : Bool := 200 ≤ status && status ≤ 299

/-- The message of the error thrown for a response that is not ok. -/
def deliveryFailed (status : ℕ) (responseBody : JsString) : Exception :=
  .error (js "Webhook delivery failed with status " ++ js (toString status) ++ js ": " ++
    responseBody)

/-- The `try` block of `processDelivery`. -/
def attemptDelivery (cfg : Config) (loaded : LoadedDelivery) : Service Unit := do
  let delivery := loaded.delivery
  let outboxEvent ← relation loaded.outboxEvent
  let subscription ← relation loaded.subscription
  let status ← fetch delivery.id
    { targetUrl := subscription.targetUrl
      signature := cfg.signWebhookPayload outboxEvent.payload subscription.secret
      eventType := outboxEvent.eventType
      payload := outboxEvent.payload }
  let responseBody ← responseText delivery.id
  if !responseOk status then throw (deliveryFailed status responseBody)
  else do
    let now ← dateNow
    updateDelivery delivery.id
      { status := .success, attemptCount := delivery.attemptCount + 1, lastAttemptAt := now,
        nextRetryAt := none, responseStatus := some status, responseBody }

/-- The backoff after attempt `attempts`. -/
def backoff (backoffMs attempts : ℕ) : ℤ := backoffMs * 2 ^ (attempts - 1)

/-- `nextRetryAt` in the `catch` block: `null` where no attempt is left. -/
def nextRetryAt (cfg : Config) (attempts : ℕ) : Service (Option JsDate) :=
  if attempts < cfg.webhookMaxAttempts then do
    let now ← dateNow
    return some (newDate (now + backoff cfg.webhookBackoffMs attempts))
  else return none

/-- The job of the next attempt, where there is one.  An invalid date does not get
here: the update before has refused it. -/
def enqueueRetry (deliveryId : Uuid) (attempts : ℕ) (nextRetryAt : Option JsDate) : Service Unit :=
  match nextRetryAt with
  | some (some due) => do
      let now ← dateNow
      enqueueDelivery deliveryId (due - now) (attempts + 1)
  | _ => return ()

/-- The `catch` block of `processDelivery`. -/
def recordFailedAttempt (cfg : Config) (delivery : WebhookDeliveryEntity) (error : Exception) :
    Service Unit := do
  let attempts := delivery.attemptCount + 1
  let nextRetryAt ← nextRetryAt cfg attempts
  let now ← dateNow
  updateDelivery delivery.id
    { status := if attempts < cfg.webhookMaxAttempts then .pending else .failed
      attemptCount := attempts
      lastAttemptAt := now
      nextRetryAt
      responseStatus := none
      responseBody := error.messageOr (js "Webhook delivery failed") }
  enqueueRetry delivery.id attempts nextRetryAt

/-- `processDelivery` for a delivery that is not terminal. -/
def processPending (cfg : Config) (loaded : LoadedDelivery) : Service Unit := do
  tryCatch (attemptDelivery cfg loaded) (recordFailedAttempt cfg loaded.delivery)
  updateOutboxStatus loaded.delivery.outboxEventId

def processDelivery (cfg : Config) (deliveryId : Uuid) : Service Unit := do
  match ← findDelivery deliveryId with
  | none => return ()
  | some loaded =>
      if loaded.delivery.status = .success ∨ loaded.delivery.status = .failed then return ()
      else processPending cfg loaded

/-- A worker runs `WebhookDeliveryProcessor.process` for a job and reports how it
went; a job has one attempt. -/
def runJob (cfg : Config) (job : JobId) : Service Unit :=
  tryCatch
    (do
      processDelivery cfg job.deliveryId
      .await (Command.completeJob job))
    fun _ => .await (Command.failJob job)

/-! ### The poller -/

/-- What `processOutboxBatch` awaits of the other services. -/
inductive ServiceCall : Type
  | dateNow
  | enterPoll (service : ℕ)
  | leavePoll (service : ℕ)
  | getProcessableEvents (limit : ℕ) (staleBefore : Time)
  | markProcessing (eventId : Uuid)
  | dispatchOutboxEvent (eventId : Uuid)
  | markFailed (eventId : Uuid) (retryCount : ℕ) (nextRetryAt : Option JsDate)

abbrev ServiceCall.Res : ServiceCall → Type
  | .dateNow => Time
  | .enterPoll _ => Bool
  | .leavePoll _ => Unit
  | .getProcessableEvents _ _ => List OutboxEventEntity
  | .markProcessing _ => Unit
  | .dispatchOutboxEvent _ => Unit
  | .markFailed _ _ _ => Unit

/-- Each call carried out. -/
def ServiceCall.perform : (c : ServiceCall) → Service c.Res
  | .dateNow => Webhooks.dateNow
  | .enterPoll service => .await (Command.enterPoll service)
  | .leavePoll service => .await (Command.leavePoll service)
  | .getProcessableEvents limit staleBefore => Webhooks.getProcessableEvents limit staleBefore
  | .markProcessing eventId => Webhooks.markProcessing eventId
  | .dispatchOutboxEvent eventId => Webhooks.dispatchOutboxEvent eventId
  | .markFailed eventId retryCount nextRetryAt =>
      Webhooks.markFailed eventId retryCount nextRetryAt

abbrev Poller := Prog ServiceCall ServiceCall.Res Exception

def markOutboxEventForRetry (cfg : Config) (eventId : Uuid) (retryCount : ℕ) : Poller Unit := do
  let nextRetryCount := retryCount + 1
  let nextRetryAt : Option JsDate ←
    if nextRetryCount < cfg.outboxMaxAttempts then do
      let now : Time ← .await ServiceCall.dateNow
      pure (some (newDate (now + backoff cfg.outboxBackoffMs nextRetryCount)))
    else pure none
  .await (ServiceCall.markFailed eventId nextRetryCount nextRetryAt)

/-- One pass of the loop of `processOutboxBatch`. -/
def processEvent (cfg : Config) (event : OutboxEventEntity) : Poller Unit :=
  tryCatch
    (do
      .await (ServiceCall.markProcessing event.id)
      .await (ServiceCall.dispatchOutboxEvent event.id))
    fun _ => markOutboxEventForRetry cfg event.id event.retryCount

/-- The loop of `processOutboxBatch`; an error that a pass throws ends it. -/
def processEvents (cfg : Config) : List OutboxEventEntity → Poller Unit
  | [] => return ()
  | event :: events => do
      processEvent cfg event
      processEvents cfg events

/-- The outer `try` block of `processOutboxBatch`. -/
def pollEvents (cfg : Config) : Poller Unit := do
  let now : Time ← .await ServiceCall.dateNow
  let events : List OutboxEventEntity ←
    .await (ServiceCall.getProcessableEvents cfg.outboxBatchSize (now - cfg.outboxStaleAfterMs))
  processEvents cfg events

/-- `processOutboxBatch` of one service instance, over calls of other services. -/
def poll (cfg : Config) (service : ℕ) : Poller Unit := do
  let entered : Bool ← .await (ServiceCall.enterPoll service)
  if entered then do
    tryCatch (pollEvents cfg) fun _ => return ()
    .await (ServiceCall.leavePoll service)
  else return ()

def processOutboxBatch (cfg : Config) (service : ℕ) : Service Unit :=
  (poll cfg service).expand ServiceCall.perform

end Webhooks
end LedgerEngine
