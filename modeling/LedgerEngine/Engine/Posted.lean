/-
# What a receiver is told

Every request that is handed to `fetch` is true, whoever does it, however often and
whatever failed before: it is for the url of an ACTIVE subscription to
`transaction.completed`, it is signed with that subscription's secret, and its payload is
that of a COMPLETED transaction of the ledger (`sent_truthful`).

Between the read of a row and its use others write; what a thread has read stays true of
the rows, since neither subscriptions nor what an event is about ever change.
-/

import LedgerEngine.Engine.Tables

namespace LedgerEngine

namespace Ledger

/-- Every event is of the one type the services write. -/
def OneType (db : Db) : Prop :=
  ∀ v ∈ db.outboxEvents.rows, v.eventType = js "transaction.completed"

theorem OneType.serve {ar : Arith} {db : Db} (h : OneType db) (call : Call) :
    OneType (serve ar call db).2 := by
  have hs := serve_cases ar call db
  cases hr : Ledger.serve ar call db with
  | mk answer db' =>
      rw [hr] at hs
      cases hs with
      | failed => exact h
      | opened => exact h
      | moved _ hacc =>
          intro v hv
          rw [hacc.state] at hv
          rcases (Table.mem_insert hacc.newKeys.event).1 hv with hv | rfl
          · exact h v hv
          · rfl

/-- The payload of an event is that of its transaction. -/
theorem Corresponds.payload {db : Db} (h : Corresponds db) {v : OutboxEventEntity}
    (hv : v ∈ db.outboxEvents.rows) :
    ∃ t ∈ db.transactions.rows, t.status = .completed ∧ v.transactionId = t.id ∧
      v.payload = payloadOf t := by
  obtain ⟨t, ht, hid⟩ := h.events v hv
  obtain ⟨hstatus, -, -, v', hevents, hpayload⟩ := h.recorded t ht
  have hmem : v ∈ eventsOf db t.id := List.mem_filter.2 ⟨hv, by simp [hid]⟩
  rw [hevents] at hmem
  obtain rfl := List.mem_singleton.1 hmem
  exact ⟨t, ht, hstatus, hid, hpayload⟩

end Ledger

namespace Engine

open Ledger (payloadOf)
open Webhooks (Config LoadedDelivery WebhookDeliveryEntity WebhookRequest WebhookSubscriptionEntity)

/-- The event is in the table, as far as it ever stays the same. -/
def Reads (w : Webhooks.World) (event : OutboxEventEntity) : Prop :=
  ∃ v, w.outboxEvents.find? event.id = some v ∧
    (v.eventType, v.payload, v.transactionId) =
      (event.eventType, event.payload, event.transactionId)

/-- The subscription is an ACTIVE one to the type of the event. -/
def Matches (w : Webhooks.World) (event : OutboxEventEntity) (s : WebhookSubscriptionEntity) :
    Prop :=
  w.subscriptions.find? s.id = some s ∧ s.eventType = event.eventType ∧ s.status = .active

/-- What a thread of the webhooks knows of what it has read. -/
def Delivering.Knows (w : Webhooks.World) : Delivering → Prop
  | .idle | .posted _ _ => True
  | .matching event => Reads w event
  | .reading event subscriptions => Reads w event ∧ ∀ s ∈ subscriptions, Matches w event s
  | .creating event missing => Reads w event ∧ ∀ s ∈ missing, Matches w event s
  | .loaded l => (∃ d, w.deliveries.find? l.delivery.id = some d ∧
      (d.webhookSubscriptionId, d.outboxEventId) =
        (l.delivery.webhookSubscriptionId, l.delivery.outboxEventId)) ∧
      (∀ s, l.subscription = some s →
        w.subscriptions.find? l.delivery.webhookSubscriptionId = some s) ∧
      ∀ event, l.outboxEvent = some event → event.id = l.delivery.outboxEventId ∧ Reads w event

/-- The request is for a delivery, to its subscription, about its event. -/
def Addressed (cfg : Config) (w : Webhooks.World) (post : Uuid × WebhookRequest) : Prop :=
  ∃ d s event, w.deliveries.find? post.1 = some d ∧
    w.subscriptions.find? d.webhookSubscriptionId = some s ∧ event.id = d.outboxEventId ∧
      Reads w event ∧ post.2 = requestOf cfg event s

section Knows

variable {w w' : Webhooks.World} {event : OutboxEventEntity} {s : WebhookSubscriptionEntity}
  {q : Delivering}

theorem reads_of_find? {id : Uuid} (h : w.outboxEvents.find? id = some event) : Reads w event := by
  obtain ⟨hmem, -⟩ := Table.find?_eq_some h
  exact ⟨event, Table.find?_key hmem, rfl⟩

theorem Reads.preserved (h : Reads w event) (hw : Webhooks.Preserves w w') : Reads w' event := by
  obtain ⟨v, hv, he⟩ := h
  obtain ⟨v', hv', he'⟩ := hw.events _ v hv
  exact ⟨v', hv', he'.trans he⟩

theorem Matches.preserved (h : Matches w event s) (hw : Webhooks.Preserves w w') :
    Matches w' event s :=
  ⟨hw.subscriptions.find? h.1, h.2⟩

/-- **What a thread has read no call takes away.** -/
theorem Delivering.Knows.preserved (h : q.Knows w) (hw : Webhooks.Preserves w w') :
    q.Knows w' := by
  cases q with
  | idle => trivial
  | posted d status => trivial
  | matching event => exact Reads.preserved h hw
  | reading event subscriptions => exact ⟨h.1.preserved hw, fun s hs => (h.2 s hs).preserved hw⟩
  | creating event missing => exact ⟨h.1.preserved hw, fun s hs => (h.2 s hs).preserved hw⟩
  | loaded l =>
      obtain ⟨⟨d, hd, hids⟩, hsubscription, hevent⟩ := h
      obtain ⟨d', hd', hids'⟩ := hw.deliveries _ d hd
      exact ⟨⟨d', hd', hids'.trans hids⟩,
        fun s hs => hw.subscriptions.find? (hsubscription s hs),
        fun event he => ⟨(hevent event he).1, (hevent event he).2.preserved hw⟩⟩

theorem Addressed.preserved {cfg : Config} {post : Uuid × WebhookRequest}
    (h : Addressed cfg w post) (hw : Webhooks.Preserves w w') : Addressed cfg w' post := by
  obtain ⟨d, s, event, hd, hs, hid, hreads, hpost⟩ := h
  obtain ⟨d', hd', hids⟩ := hw.deliveries _ d hd
  obtain ⟨hsubscription, hevent⟩ := Prod.mk.inj hids
  exact ⟨d', s, event, hd', hsubscription ▸ hw.subscriptions.find? hs, hid.trans hevent.symm,
    hreads.preserved hw, hpost⟩

/-- **What a thread has read is in the tables.** -/
theorem Delivering.Knows.next {ω : Webhooks.Draw} {c : Webhooks.Command} (h : q.Knows w)
    {cfg : Config} (hc : q.Allows cfg c) :
    (q.next c (Webhooks.exec ω c w).1).Knows (Webhooks.exec ω c w).2 := by
  refine Delivering.Knows.preserved ?_ (Webhooks.preserves_exec ω c w)
  cases hx : (Webhooks.exec ω c w).1 with
  | error e =>
      cases c <;> cases q <;> trivial
  | ok r =>
      have hanswer := Webhooks.exec_of_ok hx
      rw [hanswer] at hx
      cases c with
      | dateNow => cases q <;> exact h
      | findEvent id =>
          obtain rfl := Except.ok.inj hx
          cases hfind : w.outboxEvents.find? id with
          | none => cases q <;> trivial
          | some event =>
              have hreads := reads_of_find? hfind
              cases q <;> exact hreads
      | findSubscriptions eventType =>
          obtain rfl := Except.ok.inj hx
          cases q with
          | matching event =>
              refine ⟨h, fun s hs => ?_⟩
              obtain ⟨hmem, hwants⟩ := List.mem_filter.1 hs
              obtain ⟨htype, hactive⟩ := of_decide_eq_true hwants
              exact ⟨Table.find?_key hmem, htype.trans (hc event rfl), hactive⟩
          | _ => trivial
      | findDeliveries id =>
          cases q with
          | reading event subscriptions =>
              exact ⟨h.1, fun s hs => h.2 s (List.mem_of_mem_filter hs)⟩
          | _ => trivial
      | findDelivery id =>
          obtain rfl := Except.ok.inj hx
          cases hfind : w.deliveries.find? id with
          | none => cases q <;> trivial
          | some d =>
              have hid : w.deliveries.find? d.id = some d :=
                Table.find?_key (Table.find?_eq_some hfind).1
              have hloaded : Delivering.Knows w (.loaded ⟨d,
                  w.subscriptions.find? d.webhookSubscriptionId,
                  w.outboxEvents.find? d.outboxEventId⟩) :=
                ⟨⟨d, hid, rfl⟩, fun s hs => hs, fun event he =>
                  ⟨(Table.find?_eq_some he).2, reads_of_find? he⟩⟩
              cases q <;> exact hloaded
      | _ => cases q <;> trivial

end Knows

/-! ### Every call -/

/-- Every delivery is for a subscription that wants its event, and every request was made
for one of them. -/
structure Delivered (cfg : Config) (w : World) : Prop where
  warranted : ∀ d ∈ w.webhooks.deliveries.rows, w.webhooks.Warrants d
  addressed : ∀ post ∈ w.sent, Addressed cfg w.webhooks post

section Delivered

variable {env : Env} {w w' : World}

/-- A delivery with the references of one that is warranted. -/
theorem warrants_of_eq {w w' : Webhooks.World} {d d' : WebhookDeliveryEntity} (h : w.Warrants d)
    (hs : d'.webhookSubscriptionId = d.webhookSubscriptionId)
    (he : d'.outboxEventId = d.outboxEventId) (hw : Webhooks.Preserves w w') : w'.Warrants d' := by
  obtain ⟨s, event, hfind, hevent, htype, hactive⟩ := h
  obtain ⟨event', hevent', he'⟩ := hw.events _ event hevent
  refine ⟨s, event', hs ▸ hw.subscriptions.find? hfind, he ▸ hevent', ?_, hactive⟩
  exact htype.trans (Prod.mk.inj he').1.symm

/-- A new delivery of an event that was read, for a subscription that was read. -/
theorem warrants_of_matches {w : Webhooks.World} {event : OutboxEventEntity}
    {s : WebhookSubscriptionEntity} (hevent : Reads w event) (hs : Matches w event s)
    {d : WebhookDeliveryEntity} (hsubscription : d.webhookSubscriptionId = s.id)
    (hid : d.outboxEventId = event.id) : w.Warrants d := by
  obtain ⟨v, hv, he⟩ := hevent
  refine ⟨s, v, hsubscription ▸ hs.1, hid ▸ hv, ?_, hs.2.2⟩
  exact hs.2.1.trans (Prod.mk.inj he).1.symm

/-- **A call of a thread of the webhooks** inserts deliveries that are warranted and sends
what it has loaded. -/
theorem Delivered.webhooks {q : Delivering} {c : Webhooks.Command} (h : Delivered env.webhooks w)
    (hq : q.Knows w.webhooks) (hc : q.Allows env.webhooks c) (ω : Draw) :
    Delivered env.webhooks (exec env ω (.webhooks (.command c)) w).2 := by
  have hpreserves := Webhooks.preserves_exec ω.webhooks c w.webhooks
  refine ⟨fun d hd => ?_, fun post hpost => ?_⟩
  · rcases Webhooks.mem_storageExec_deliveries hd with
      ⟨old, hold, hs, he⟩ | ⟨rows, new, hnew, hcommand, -, hs, he⟩
    · exact warrants_of_eq (h.warranted old hold) hs he hpreserves
    · obtain rfl := Webhooks.StorageCall.command.inj hcommand
      obtain ⟨event, missing, now, rfl, rfl⟩ := hc
      obtain ⟨s, hmissing, rfl⟩ := List.mem_map.1 hnew
      exact warrants_of_matches (hq.1.preserved hpreserves)
        ((hq.2 s hmissing).preserved hpreserves) hs he
  · rcases List.mem_append.1 hpost with hpost | hpost
    · cases c with
      | fetch deliveryId request =>
          obtain rfl := List.mem_singleton.1 hpost
          obtain ⟨l, event, s, rfl, hevent, hs, rfl, rfl⟩ := hc
          obtain ⟨⟨d, hd, hids⟩, hsubscription, hreads⟩ := hq
          obtain ⟨hsid, heid⟩ := Prod.mk.inj hids
          have haddressed : Addressed env.webhooks w.webhooks
              (l.delivery.id, requestOf env.webhooks event s) :=
            ⟨d, s, event, hd, hsid ▸ hsubscription s hs, (hreads event hevent).1.trans heid.symm,
              (hreads event hevent).2, rfl⟩
          exact haddressed.preserved hpreserves
      | _ => exact absurd hpost List.not_mem_nil
    · exact (h.addressed post hpost).preserved hpreserves

/-- The other calls leave the deliveries alone and send nothing. -/
theorem Delivered.same (h : Delivered env.webhooks w) (hw : w.Grows w')
    (hdeliveries : ∀ d ∈ w'.webhooks.deliveries.rows, d ∈ w.webhooks.deliveries.rows)
    (hsent : w'.sent = w.sent) : Delivered env.webhooks w' :=
  ⟨fun d hd => warrants_of_eq (h.warranted d (hdeliveries d hd)) rfl rfl hw.webhooks,
    fun post hpost => (h.addressed post (hsent ▸ hpost)).preserved hw.webhooks⟩

end Delivered

/-! ### Every run -/

/-- What a thread of the webhooks knows. -/
def Stage.Read (w : World) : Stage → Prop
  | .webhook q => q.Knows w.webhooks
  | _ => True

/-- The contract of the threads of the webhooks. -/
def posting (env : Env) : Pool.Contract (system env) where
  world := Delivered env.webhooks
  knows _ q w := q.Read w
  change := World.Grows
  stable _ q _ _ h hw := by
    cases q with
    | webhook q => exact Delivering.Knows.preserved h hw.webhooks
    | _ => trivial
  spawn task w w' h hspawn := by
    have hs := spawned_spawn hspawn
    refine ⟨h.same hs.grows (fun d hd => hs.deliveries ▸ hd) hs.sent, hs.grows, ?_⟩
    cases task <;> trivial
  call task q c ω w h hq hallows := by
    have hgrows := grows_exec env ω c w
    cases hallows with
    | record hc hop => exact ⟨h.same hgrows (fun _ hd => hd) rfl, hgrows, trivial⟩
    | @operate r id request hrequest =>
        refine ⟨h.same hgrows (fun d hd => ?_) ?_, hgrows, ?_⟩
        · exact deliveries_operation env ω request w ▸ hd
        · cases request <;> rfl
        · cases request <;> trivial
    | webhook hc => exact ⟨h.webhooks hq hc ω, hgrows, Delivering.Knows.next hq hc⟩
    | reconcile hc => exact ⟨h.same hgrows (fun _ hd => hd) rfl, hgrows, trivial⟩

theorem delivered_after (env : Env) (labels : List (Label Task Draw)) :
    Delivered env.webhooks (after env labels).world := by
  have hstart : (posting env).world .empty :=
    ⟨fun _ h => absurd h List.not_mem_nil, fun _ h => absurd h List.not_mem_nil⟩
  exact (Pool.rely_guarantee (posting env) (system_follows env) hstart labels).2.1

theorem oneType_after (env : Env) (labels : List (Label Task Draw)) :
    Ledger.OneType (after env labels).world.db := by
  refine db_induction (J := Ledger.OneType) (fun _ h => absurd h List.not_mem_nil)
    (fun call _ h => h.serve call) (fun w db now e p hw h v hv => ?_) labels
  change v ∈ (w.updateEvent now e p).rows at hv
  rw [Webhooks.rows_updateEvent, hw] at hv
  obtain ⟨v, hold, rfl⟩ := List.mem_map.1 hv
  split_ifs <;> exact h v hold

/-- What a request says is so: it is for an ACTIVE subscription and tells it of a COMPLETED
transaction. -/
def Genuine (cfg : Config) (w : World) (request : WebhookRequest) : Prop :=
  ∃ s ∈ w.webhooks.subscriptions.rows, ∃ t ∈ w.transactions.rows,
    s.status = .active ∧ s.eventType = js "transaction.completed" ∧ t.status = .completed ∧
      request = {
        targetUrl := s.targetUrl
        signature := cfg.signWebhookPayload (payloadOf t) s.secret
        eventType := js "transaction.completed"
        payload := payloadOf t }

/-- **Every request that is handed to `fetch` is true**: it is for a delivery that exists,
and tells an ACTIVE subscription of a COMPLETED transaction. -/
theorem sent_truthful (env : Env) (labels : List (Label Task Draw)) :
    ∀ post ∈ (after env labels).world.sent,
      (∃ d ∈ (after env labels).world.webhooks.deliveries.rows, d.id = post.1) ∧
        Genuine env.webhooks (after env labels).world post.2 := by
  intro post hpost
  have hdelivered := delivered_after env labels
  obtain ⟨d, s, event, hd, hs, hid, ⟨v, hv, he⟩, hrequest⟩ := hdelivered.addressed post hpost
  obtain ⟨htype, hpayload⟩ := Prod.mk.inj he
  have hpayload := (Prod.mk.inj hpayload).1
  obtain ⟨hmem, hkey⟩ := Table.find?_eq_some hd
  refine ⟨⟨d, hmem, hkey⟩, ?_⟩
  -- the delivery is for an active subscription to the type of its event
  obtain ⟨s', v', hs', hv', hwants, hactive⟩ := hdelivered.warranted d hmem
  obtain rfl := Option.some.inj (hs.symm.trans hs')
  rw [← hid] at hv'
  obtain rfl := Option.some.inj (hv.symm.trans hv')
  have hevent : v ∈ (after env labels).world.db.outboxEvents.rows := (Table.find?_eq_some hv).1
  have hone := oneType_after env labels v hevent
  obtain ⟨t, ht, hstatus, -, hof⟩ := (corresponds_after env labels).payload hevent
  refine ⟨s, (Table.find?_eq_some hs).1, t, ht, hactive, hwants.trans hone, hstatus, ?_⟩
  rw [hrequest, requestOf, ← hpayload, ← htype, hof, hone]

theorem sent_truthful_notified : ∃ post ∈ (after sampleEnv notified).world.sent,
    post.2.targetUrl = js "https://example.com/hook" ∧ post.2.payload.amount = 5000 ∧
      (∃ d ∈ (after sampleEnv notified).world.webhooks.deliveries.rows, d.id = post.1) ∧
      Genuine sampleEnv.webhooks (after sampleEnv notified).world post.2 := by
  have hsent : ∃ post ∈ (after sampleEnv notified).world.sent,
      post.2.targetUrl = js "https://example.com/hook" ∧ post.2.payload.amount = 5000 := by
    decide +kernel
  obtain ⟨post, hpost, hurl, hamount⟩ := hsent
  exact ⟨post, hpost, hurl, hamount, sent_truthful sampleEnv notified post hpost⟩

end Engine
end LedgerEngine
