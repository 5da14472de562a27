/-
# Dispatches and registrations at the same time

`dispatchOutboxEvent` reads the subscriptions of the event's type, reads the
deliveries of the event and inserts the ones that are missing, in three calls
and without a lock.  Between them other dispatches of the event insert the same
deliveries, and `registerWebhook` adds subscriptions.  `operations` is the pool
of any number of both.

Nothing these programs call changes or removes a subscription, the type of an
event or a delivery (`World.Extends`), so what a dispatch has read stays true
(`Progress.Sound.mono`).  A delivery is therefore inserted only for an ACTIVE
subscription to its event, and once the insert has resolved every subscription
the dispatch has read has a delivery: those it did not insert it had found.
-/

import LedgerEngine.Webhooks.Service

namespace LedgerEngine
namespace Webhooks

/-! ### Registrations -/

/-- The body of a registration; `status` may be left out. -/
structure RegisterWebhookDto where
  targetUrl : JsString
  eventType : JsString
  secret : JsString
  status : Option WebhookSubscriptionStatus

/-- A subscription to insert. -/
structure NewSubscription where
  targetUrl : JsString
  eventType : JsString
  secret : JsString
  status : WebhookSubscriptionStatus

def NewSubscription.row (s : NewSubscription) (id : Uuid) : WebhookSubscriptionEntity where
  id := id
  targetUrl := s.targetUrl
  secret := s.secret
  eventType := s.eventType
  status := s.status

/-- The text columns can take it. -/
def NewSubscription.Fits (s : NewSubscription) : Prop :=
  0 ∉ s.targetUrl ∧ 0 ∉ s.eventType ∧ 0 ∉ s.secret

instance (s : NewSubscription) : Decidable s.Fits := inferInstanceAs (Decidable (_ ∧ _))

/-- A subscription as `save` returns it. -/
structure SavedSubscription where
  row : WebhookSubscriptionEntity
  createdAt : Time

/-- The calls of dispatches and of registrations. -/
inductive StorageCall : Type
  | command (c : Command)
  | saveSubscription (s : NewSubscription)

abbrev StorageCall.Res : StorageCall → Type
  | .command c => c.Res
  | .saveSubscription _ => SavedSubscription

/-- What `registerWebhook` returns. -/
structure RegisteredWebhook where
  id : Uuid
  targetUrl : JsString
  eventType : JsString
  status : WebhookSubscriptionStatus
  createdAt : Time

def registerWebhook (dto : RegisterWebhookDto) :
    Prog StorageCall StorageCall.Res Exception RegisteredWebhook := do
  let subscription : NewSubscription :=
    { targetUrl := dto.targetUrl
      eventType := dto.eventType
      secret := dto.secret
      status := dto.status.getD .active }
  let savedSubscription : SavedSubscription ← .await (StorageCall.saveSubscription subscription)
  return {
    id := savedSubscription.row.id
    targetUrl := savedSubscription.row.targetUrl
    eventType := savedSubscription.row.eventType
    status := savedSubscription.row.status
    createdAt := savedSubscription.createdAt }

/-- The insert of a subscription, under the id the server draws. -/
def insertSubscription (ω : Draw) :
    Prog.Handler NewSubscription (fun _ => SavedSubscription) Exception World := fun s w =>
  if s.Fits then
    match ω.ids with
    | [id] =>
        if (w.subscriptions.find? id).isSome then (.error violation, w)
        else (.ok ⟨s.row id, ω.now⟩, { w with subscriptions := w.subscriptions.insert (s.row id) })
    | _ => (.error violation, w)
  else (.error unstorable, w)

/-- A call, with what was drawn for it. -/
def storageExec (ω : Draw) : Prog.Handler StorageCall StorageCall.Res Exception World
  | .command c => exec ω c
  | .saveSubscription s => Prog.Handler.meet (insertSubscription ω) ω.fault s

/-! ### The pool -/

/-- What a thread runs. -/
inductive Operation : Type
  | dispatchOutboxEvent (eventId : Uuid)
  | registerWebhook (dto : RegisterWebhookDto)

/-- What a thread is about to do, with what it has read. -/
inductive Progress : Type
  /-- find the event -/
  | starting
  /-- find the subscriptions of the event -/
  | matching (event : OutboxEventEntity)
  /-- find the deliveries of the event -/
  | reading (event : OutboxEventEntity) (subscriptions : List WebhookSubscriptionEntity)
  /-- insert the deliveries that are missing -/
  | creating (event : OutboxEventEntity) (subscriptions missing : List WebhookSubscriptionEntity)
  /-- add jobs or write the status of the event; or nothing -/
  | finishing (event : OutboxEventEntity) (subscriptions : List WebhookSubscriptionEntity)
  /-- nothing: there is no such event -/
  | absent
  /-- nothing: a call before the jobs and the status has failed -/
  | thrown
  /-- insert the subscription, or nothing -/
  | registering

namespace Progress

/-- The stage once it is known which subscriptions have no delivery yet. -/
def completing (event : OutboxEventEntity) (subscriptions : List WebhookSubscriptionEntity) :
    List WebhookSubscriptionEntity → Progress
  | [] => finishing event subscriptions
  | s :: missing => creating event subscriptions (s :: missing)

/-- The stage after a call that resolved. -/
def advance : Progress → (c : Command) → c.Res → Progress
  | starting, .findEvent _, some event => matching event
  | starting, .findEvent _, none => absent
  | matching event, .findSubscriptions _, subscriptions => reading event subscriptions
  | reading event subscriptions, .findDeliveries _, existing =>
      completing event subscriptions (missingSubscriptions subscriptions existing)
  | creating event subscriptions _, .saveDeliveries _, _ => finishing event subscriptions
  | q, _, _ => q

/-- The stage after a call has settled; what follows the insert may fail without
an end to the jobs that are added. -/
def next : Progress → (c : StorageCall) → Except Exception c.Res → Progress
  | finishing event subscriptions, _, _ => finishing event subscriptions
  | registering, _, _ => registering
  | q, .command c, .ok r => q.advance c r
  | _, _, _ => thrown

/-- The calls a thread may make at a stage. -/
inductive Allows (op : Operation) : Progress → StorageCall → Prop
  | findEvent {eventId : Uuid} (h : op = .dispatchOutboxEvent eventId) :
      Allows op starting (.command (.findEvent eventId))
  | findSubscriptions (event : OutboxEventEntity) :
      Allows op (matching event) (.command (.findSubscriptions event.eventType))
  | findDeliveries (event : OutboxEventEntity) (subscriptions : List WebhookSubscriptionEntity) :
      Allows op (reading event subscriptions) (.command (.findDeliveries event.id))
  | now (event : OutboxEventEntity) (subscriptions missing : List WebhookSubscriptionEntity) :
      Allows op (creating event subscriptions missing) (.command .dateNow)
  | create (event : OutboxEventEntity) (subscriptions missing : List WebhookSubscriptionEntity)
      (now : Time) : Allows op (creating event subscriptions missing)
        (.command (.saveDeliveries (missing.map (newDelivery event.id now))))
  | finish (event : OutboxEventEntity) (subscriptions : List WebhookSubscriptionEntity)
      {c : Command} (hsave : ∀ rows, c ≠ .saveDeliveries rows)
      (hupdate : ∀ d p, c ≠ .updateDelivery d p) :
      Allows op (finishing event subscriptions) (.command c)
  | save (s : NewSubscription) : Allows op registering (.saveSubscription s)

end Progress

/-- The protocol of a thread. -/
def progress (op : Operation) : Protocol StorageCall StorageCall.Res Exception Progress where
  next := Progress.next
  allows := Progress.Allows op

/-- The pool of dispatches and registrations. -/
def operations : System Operation StorageCall StorageCall.Res Exception Unit World Draw Progress
    where
  exec := storageExec
  body
    | .dispatchOutboxEvent eventId =>
        (dispatchOutboxEvent eventId).expand fun c => .await (StorageCall.command c)
    | .registerWebhook dto => do
        let _ ← registerWebhook dto
        return ()
  spawn _ w := some w
  entry
    | .dispatchOutboxEvent _ => .starting
    | .registerWebhook _ => .registering
  protocol := progress

section Follows

variable {op : Operation}

/-- Where a dispatch that returns ends. -/
def Dispatches : Except Exception Unit → Progress → Prop
  | .ok _, q => q = .absent ∨ ∃ event subscriptions, q = .finishing event subscriptions
  | .error _, _ => True

/-- The thread goes on adding jobs or writing the status, or stops. -/
def Finishes {α : Type} (event : OutboxEventEntity)
    (subscriptions : List WebhookSubscriptionEntity) : Except Exception α → Progress → Prop :=
  fun _ q => q = .finishing event subscriptions

theorem Finishes.dispatches {event : OutboxEventEntity}
    {subscriptions : List WebhookSubscriptionEntity} {r : Except Exception Unit} {q : Progress}
    (h : Finishes event subscriptions r q) : Dispatches r q := by
  cases r with
  | ok _ => exact Or.inr ⟨event, subscriptions, h⟩
  | error _ => trivial

/-- Calls of one kind after the insert. -/
theorem await_finishes {event : OutboxEventEntity} {subscriptions : List WebhookSubscriptionEntity}
    {c : Command} (hsave : ∀ rows, c ≠ .saveDeliveries rows)
    (hupdate : ∀ d p, c ≠ .updateDelivery d p) :
    (Prog.await c : Service c.Res).Follows ((progress op).comap .command)
      (Finishes event subscriptions) (.finishing event subscriptions) :=
  .await (.finish event subscriptions hsave hupdate) fun _ => rfl

theorem bind_finishes {α β : Type} {event : OutboxEventEntity}
    {subscriptions : List WebhookSubscriptionEntity} {p : Service α} {f : α → Service β}
    (hp : p.Follows ((progress op).comap .command) (Finishes event subscriptions)
      (.finishing event subscriptions))
    (hf : ∀ a, (f a).Follows ((progress op).comap .command) (Finishes event subscriptions)
      (.finishing event subscriptions)) :
    (p.bind f).Follows ((progress op).comap .command) (Finishes event subscriptions)
      (.finishing event subscriptions) := by
  refine .bind hp (fun a q hq => ?_) fun _ _ h => h
  obtain rfl : q = _ := hq
  exact hf a

theorem markPublished_finishes (event : OutboxEventEntity)
    (subscriptions : List WebhookSubscriptionEntity) (eventId : Uuid) :
    (markPublished eventId).Follows ((progress op).comap .command) (Finishes event subscriptions)
      (.finishing event subscriptions) :=
  bind_finishes (await_finishes (by simp) (by simp)) fun _ => await_finishes (by simp) (by simp)

theorem updateOutboxStatus_finishes (event : OutboxEventEntity)
    (subscriptions : List WebhookSubscriptionEntity) (eventId : Uuid) :
    (updateOutboxStatus eventId).Follows ((progress op).comap .command)
      (Finishes event subscriptions) (.finishing event subscriptions) := by
  refine bind_finishes (await_finishes (by simp) (by simp)) fun deliveries => ?_
  cases aggregate deliveries with
  | published => exact markPublished_finishes event subscriptions eventId
  | failed => exact await_finishes (by simp) (by simp)
  | pending => exact await_finishes (by simp) (by simp)
  | processing => exact await_finishes (by simp) (by simp)

theorem settleAll_finishes (event : OutboxEventEntity)
    (subscriptions : List WebhookSubscriptionEntity) (ds : List WebhookDeliveryEntity) :
    (Prog.settleAll (ds.map fun delivery =>
        enqueueDelivery delivery.id 0 (delivery.attemptCount + 1))).Follows
      ((progress op).comap .command) (Finishes event subscriptions)
      (.finishing event subscriptions) := by
  induction ds with
  | nil => exact rfl
  | cons d ds ih =>
      refine .andThen (Finishes event subscriptions) (await_finishes (by simp) (by simp))
        fun r q hq => ?_
      obtain rfl : q = _ := hq
      refine bind_finishes ih fun failed => ?_
      cases r <;> exact rfl

theorem enqueuePending_finishes (event : OutboxEventEntity)
    (subscriptions : List WebhookSubscriptionEntity) (eventId : Uuid)
    (deliveries : List WebhookDeliveryEntity) :
    (enqueuePending eventId deliveries).Follows ((progress op).comap .command)
      (Finishes event subscriptions) (.finishing event subscriptions) := by
  unfold enqueuePending
  cases pendingOf deliveries with
  | nil => exact updateOutboxStatus_finishes event subscriptions eventId
  | cons d ds =>
      refine bind_finishes (settleAll_finishes event subscriptions (d :: ds)) fun failed => ?_
      cases failed <;> exact rfl

/-- Where the insert of the missing deliveries leads. -/
def Completed (event : OutboxEventEntity) (subscriptions : List WebhookSubscriptionEntity) :
    Except Exception (List WebhookDeliveryEntity) → Progress → Prop
  | .ok _, q => q = .finishing event subscriptions
  | .error _, _ => True

theorem createMissing_completes (event : OutboxEventEntity)
    (subscriptions missing : List WebhookSubscriptionEntity) :
    (createMissing event.id missing).Follows ((progress op).comap .command)
      (Completed event subscriptions) (.completing event subscriptions missing) := by
  cases missing with
  | nil => exact rfl
  | cons s missing =>
      refine .await_bind (.now ..) (fun now => ?_) fun _ => trivial
      refine .await (.create event subscriptions (s :: missing) now) fun r => ?_
      cases r with
      | ok _ => exact rfl
      | error _ => trivial

theorem dispatchOutboxEvent_dispatches {eventId : Uuid}
    (h : op = .dispatchOutboxEvent eventId) :
    (dispatchOutboxEvent eventId).Follows ((progress op).comap .command) Dispatches .starting := by
  refine .await_bind (.findEvent h) (fun found => ?_) fun _ => trivial
  cases found with
  | none => exact Or.inl rfl
  | some event =>
      refine .await_bind (.findSubscriptions event) (fun subscriptions => ?_) fun _ => trivial
      refine .await_bind (.findDeliveries event subscriptions) (fun existing => ?_)
        fun _ => trivial
      show Prog.Follows _ _ _
        (Progress.completing event subscriptions (missingSubscriptions subscriptions existing))
      split_ifs with hnone
      · rw [hnone.1]
        exact (markPublished_finishes event [] event.id).mono fun _ _ h => h.dispatches
      · refine .bind (createMissing_completes event subscriptions _) (fun new q hq => ?_)
          fun _ _ _ => trivial
        obtain rfl : q = _ := hq
        exact (enqueuePending_finishes event subscriptions event.id _).mono
          fun _ _ h => h.dispatches

/-- Where a thread ends. -/
def OperationEnds : Operation → Except Exception Unit → Progress → Prop
  | .dispatchOutboxEvent _, r, q => Dispatches r q
  | .registerWebhook _, _, _ => True

/-- **Every thread makes only the calls its stage allows.** -/
theorem operations_follow (op : Operation) :
    (operations.body op).Follows (operations.protocol op) (OperationEnds op)
      (operations.entry op) := by
  cases op with
  | dispatchOutboxEvent eventId => exact (dispatchOutboxEvent_dispatches rfl).expand_await
  | registerWebhook dto =>
      have hregister : (registerWebhook dto).Follows (progress (.registerWebhook dto))
          (fun _ _ => True) .registering :=
        .await_bind (.save _) (fun _ => trivial) fun _ => trivial
      exact .bind hregister (fun _ _ _ => trivial) fun _ _ _ => trivial

end Follows

/-! ### What stays true -/

/-- No subscription, no type of an event and no delivery is changed or removed. -/
structure World.Extends (w w' : World) : Prop where
  subscription : ∀ id s, w.subscriptions.find? id = some s → w'.subscriptions.find? id = some s
  eventType : ∀ e, (w'.outboxEvents.find? e).map OutboxEventEntity.eventType =
    (w.outboxEvents.find? e).map OutboxEventEntity.eventType
  deliveries : w.deliveries.rows <+: w'.deliveries.rows

/-- The type of the event is as it was read. -/
def World.Types (w : World) (event : OutboxEventEntity) : Prop :=
  (w.outboxEvents.find? event.id).map OutboxEventEntity.eventType = some event.eventType

/-- The subscription is an ACTIVE one to the type of the event. -/
def World.Wants (w : World) (event : OutboxEventEntity) (s : WebhookSubscriptionEntity) : Prop :=
  w.subscriptions.find? s.id = some s ∧ s.eventType = event.eventType ∧ s.status = .active

/-- There is a delivery of the event to the subscription. -/
def World.Delivers (w : World) (event subscription : Uuid) : Prop :=
  ∃ d ∈ w.deliveries.rows, d.outboxEventId = event ∧ d.webhookSubscriptionId = subscription

/-- The delivery is for an ACTIVE subscription to the type of its event. -/
def World.Warrants (w : World) (d : WebhookDeliveryEntity) : Prop :=
  ∃ s event, w.subscriptions.find? d.webhookSubscriptionId = some s ∧
    w.outboxEvents.find? d.outboxEventId = some event ∧
      s.eventType = event.eventType ∧ s.status = .active

section Extends

variable {w w' w'' : World} {event : OutboxEventEntity}

theorem World.Extends.refl (w : World) : w.Extends w :=
  ⟨fun _ _ h => h, fun _ => rfl, List.prefix_rfl⟩

theorem World.Extends.trans (h : w.Extends w') (h' : w'.Extends w'') : w.Extends w'' where
  subscription id s hs := h'.subscription id s (h.subscription id s hs)
  eventType e := (h'.eventType e).trans (h.eventType e)
  deliveries := h.deliveries.trans h'.deliveries

theorem World.Types.mono (h : w.Types event) (hw : w.Extends w') : w'.Types event :=
  (hw.eventType event.id).trans h

theorem World.Wants.mono {s : WebhookSubscriptionEntity} (h : w.Wants event s)
    (hw : w.Extends w') : w'.Wants event s :=
  ⟨hw.subscription _ _ h.1, h.2⟩

theorem World.Delivers.mono {e s : Uuid} (h : w.Delivers e s) (hw : w.Extends w') :
    w'.Delivers e s := by
  obtain ⟨d, hd, hids⟩ := h
  exact ⟨d, hw.deliveries.subset hd, hids⟩

theorem World.Warrants.mono {d : WebhookDeliveryEntity} (h : w.Warrants d) (hw : w.Extends w') :
    w'.Warrants d := by
  obtain ⟨s, event, hs, hevent, htype, hactive⟩ := h
  have hkept := hw.eventType d.outboxEventId
  rw [hevent, Option.map_some, Option.map_eq_some_iff] at hkept
  obtain ⟨event', hevent', htype'⟩ := hkept
  exact ⟨s, event', hw.subscription _ _ hs, hevent', htype.trans htype'.symm, hactive⟩

/-- A delivery for a subscription that wants the event is warranted. -/
theorem World.Wants.warrants {s : WebhookSubscriptionEntity} (h : w.Wants event s)
    (htype : w.Types event) (now nextRetryAt : Time) (id : Uuid) :
    w.Warrants ((newDelivery event.id nextRetryAt s).row now id) := by
  obtain ⟨event', hevent', htype'⟩ := Option.map_eq_some_iff.1 htype
  exact ⟨s, event', h.1, hevent', h.2.1.trans htype'.symm, h.2.2⟩

end Extends

section Calls

variable {ω : Draw} {w : World}

/-- An insert of a subscription is made under a new id or not at all. -/
theorem insertSubscription_world (ω : Draw) (s : NewSubscription) (w : World) :
    (insertSubscription ω s w).2 = w ∨ ∃ id, w.subscriptions.find? id = none ∧
      (insertSubscription ω s w).2 =
        { w with subscriptions := w.subscriptions.insert (s.row id) } := by
  unfold insertSubscription
  split_ifs
  · split
    · rename_i id _
      split_ifs with htaken
      · exact Or.inl rfl
      · exact Or.inr ⟨id, by simpa using htaken, rfl⟩
    · exact Or.inl rfl
  · exact Or.inl rfl

/-- A registration adds its subscription, or it does nothing. -/
theorem storageExec_save (ω : Draw) (s : NewSubscription) (w : World) :
    (storageExec ω (.saveSubscription s) w).2 = w ∨ ∃ id, w.subscriptions.find? id = none ∧
      (storageExec ω (.saveSubscription s) w).2 =
        { w with subscriptions := w.subscriptions.insert (s.row id) } := by
  rcases Prog.Handler.meet_state (insertSubscription ω) ω.fault s w with h | h
  · exact Or.inl h
  · rw [show (storageExec ω (.saveSubscription s) w).2 = (insertSubscription ω s w).2 from h]
    exact insertSubscription_world ω s w

theorem extends_save (ω : Draw) (s : NewSubscription) (w : World) :
    w.Extends (storageExec ω (.saveSubscription s) w).2 := by
  rcases storageExec_save ω s w with h | ⟨id, hfree, h⟩
  · rw [h]
    exact .refl w
  · rw [h]
    refine ⟨fun id' r hr => ?_, fun _ => rfl, List.prefix_rfl⟩
    have hne : Keyed.key (s.row id) ≠ id' := by
      rintro rfl
      exact absurd (hfree.symm.trans hr) (by simp)
    rw [Table.find?_insert, if_neg hne, hr]

/-- A call that updates no delivery extends the world. -/
theorem extends_exec {c : Command} (h : ∀ d p, c ≠ .updateDelivery d p) :
    w.Extends (exec ω c w).2 := by
  have hkept := kept_exec ω c w
  refine ⟨fun id s hs => by rwa [hkept.subscriptions], hkept.eventType, ?_⟩
  have heffect := exec_deliveries ω c w
  generalize (exec ω c w).2.deliveries = deliveries at heffect
  cases heffect with
  | same => exact List.prefix_rfl
  | saved hsave =>
      rw [IndexedTable.rows_insertAll (saveDeliveries_eq_some hsave).1]
      exact List.prefix_append _ _
  | updated => exact absurd rfl (h _ _)

/-- **No call of these threads takes anything back.** -/
theorem extends_storageExec {op : Operation} {q : Progress} {c : StorageCall}
    (hc : q.Allows op c) : w.Extends (storageExec ω c w).2 := by
  cases hc with
  | finish event subscriptions hsave hupdate => exact extends_exec hupdate
  | save s => exact extends_save ω s w
  | _ => exact extends_exec (by simp)

/-- An insert that resolves has a delivery for each of its rows. -/
theorem delivers_of_saved {rows : List NewDelivery} {new : List WebhookDeliveryEntity}
    (h : (exec ω (.saveDeliveries rows) w).1 = .ok new) {d : NewDelivery} (hd : d ∈ rows) :
    (exec ω (.saveDeliveries rows) w).2.Delivers d.outboxEventId d.webhookSubscriptionId := by
  obtain ⟨deliveries, hsave, hw⟩ := exec_saveDeliveries h
  rw [hw]
  obtain ⟨i, hi, rfl⟩ := List.getElem_of_mem hd
  have hnew : new = List.zipWith (NewDelivery.row ω.now) rows ω.ids ∧
      ω.ids.length = rows.length := by
    unfold World.saveDeliveries at hsave
    split_ifs at hsave with hrows
    obtain ⟨_, -, e⟩ := Option.map_eq_some_iff.1 hsave
    exact ⟨(Prod.mk.inj e).1.symm, hrows.1⟩
  have hlen : i < new.length := by
    rw [hnew.1, List.length_zipWith, hnew.2, Nat.min_self]
    exact hi
  refine ⟨new[i], ?_, ?_⟩
  · rw [IndexedTable.rows_insertAll (saveDeliveries_eq_some hsave).1]
    exact List.mem_append_right _ (List.getElem_mem hlen)
  · simp only [hnew.1, List.getElem_zipWith]
    exact ⟨rfl, rfl⟩

end Calls

/-! ### What the threads have read -/

/-- The thread dispatches the event it has read. -/
def World.Dispatched (w : World) (op : Operation) (event : OutboxEventEntity) : Prop :=
  op = .dispatchOutboxEvent event.id ∧ w.Types event

/-- What a thread has read still holds.  Each subscription it has read either has
a delivery or is one the thread is about to insert a delivery for. -/
def Progress.Sound (w : World) (op : Operation) : Progress → Prop
  | matching event => w.Dispatched op event
  | reading event subscriptions =>
      w.Dispatched op event ∧ ∀ s ∈ subscriptions, w.Wants event s
  | creating event subscriptions missing =>
      w.Dispatched op event ∧ (∀ s ∈ missing, w.Wants event s) ∧
        ∀ s ∈ subscriptions, s ∈ missing ∨ w.Delivers event.id s.id
  | finishing event subscriptions =>
      w.Dispatched op event ∧ ∀ s ∈ subscriptions, w.Delivers event.id s.id
  | absent => ∀ e, op = .dispatchOutboxEvent e → w.outboxEvents.find? e = none
  | _ => True

section Sound

variable {ω : Draw} {w w' : World} {op : Operation} {event : OutboxEventEntity}

theorem World.Dispatched.mono (h : w.Dispatched op event) (hw : w.Extends w') :
    w'.Dispatched op event :=
  ⟨h.1, h.2.mono hw⟩

theorem Progress.Sound.mono {q : Progress} (h : q.Sound w op) (hw : w.Extends w') :
    q.Sound w' op := by
  cases q with
  | matching event => exact World.Dispatched.mono h hw
  | reading event subscriptions => exact ⟨h.1.mono hw, fun s hs => (h.2 s hs).mono hw⟩
  | creating event subscriptions missing =>
      exact ⟨h.1.mono hw, fun s hs => (h.2.1 s hs).mono hw,
        fun s hs => (h.2.2 s hs).imp_right fun hd => hd.mono hw⟩
  | finishing event subscriptions => exact ⟨h.1.mono hw, fun s hs => (h.2 s hs).mono hw⟩
  | absent =>
      intro e he
      have hkept := hw.eventType e
      rw [h e he] at hkept
      exact Option.map_eq_none_iff.1 hkept
  | _ => trivial

/-- Once the deliveries of the event are read, each subscription has one of them
or is missing. -/
theorem sound_completing {subscriptions missing : List WebhookSubscriptionEntity}
    (hevent : w.Dispatched op event) (hwants : ∀ s ∈ missing, w.Wants event s)
    (hcover : ∀ s ∈ subscriptions, s ∈ missing ∨ w.Delivers event.id s.id) :
    (Progress.completing event subscriptions missing).Sound w op := by
  cases missing with
  | nil => exact ⟨hevent, fun s hs => (hcover s hs).resolve_left List.not_mem_nil⟩
  | cons s missing => exact ⟨hevent, hwants, hcover⟩

/-- The subscriptions that are not missing have a delivery among those read. -/
theorem missing_or_delivers (e : Uuid) {subscriptions : List WebhookSubscriptionEntity}
    {s : WebhookSubscriptionEntity} (hs : s ∈ subscriptions) :
    s ∈ missingSubscriptions subscriptions (w.deliveriesOf e) ∨ w.Delivers e s.id := by
  by_cases hfound : s.id ∈ (w.deliveriesOf e).map (·.webhookSubscriptionId)
  · obtain ⟨d, hd, hid⟩ := List.mem_map.1 hfound
    obtain ⟨hrow, he⟩ := List.mem_filter.1 hd
    exact Or.inr ⟨d, hrow, by simpa using he, hid⟩
  · refine Or.inl (List.mem_filter.2 ⟨hs, ?_⟩)
    simpa using hfound

/-- The rule for a call up to the insert: an error ends the thread. -/
theorem sound_command {q : Progress} {c : Command}
    (hok : ∀ r, q.next (.command c) (.ok r) = q.advance c r)
    (herror : ∀ e, q.next (.command c) (.error e) = .thrown)
    (h : ∀ r, (exec ω c w).1 = .ok r → answer ω c w = (.ok r, (exec ω c w).2) →
      (q.advance c r).Sound (exec ω c w).2 op) :
    (q.next (.command c) (storageExec ω (.command c) w).1).Sound
      (storageExec ω (.command c) w).2 op := by
  show (q.next (.command c) (exec ω c w).1).Sound (exec ω c w).2 op
  cases hr : (exec ω c w).1 with
  | error e =>
      rw [herror e]
      trivial
  | ok r =>
      rw [hok r]
      refine h r hr ?_
      rw [← exec_of_ok hr, ← hr]

/-- **What the calling thread has read after its call.** -/
theorem Progress.Sound.next {q : Progress} {c : StorageCall} (h : q.Sound w op) (hc : q.Allows op c) :
    (q.next c (storageExec ω c w).1).Sound (storageExec ω c w).2 op := by
  have hw : w.Extends (storageExec ω c w).2 := extends_storageExec hc
  cases hc with
  | @findEvent eventId hop =>
      refine sound_command (fun _ => rfl) (fun _ => rfl) fun found _ hanswer => ?_
      obtain ⟨hfound, hsame⟩ := Prod.mk.inj hanswer
      obtain rfl := Except.ok.inj hfound
      rw [← hsame]
      cases hfind : w.outboxEvents.find? eventId with
      | none =>
          intro e he
          obtain rfl := Operation.dispatchOutboxEvent.inj (hop.symm.trans he)
          exact hfind
      | some event =>
          have hid : event.id = eventId := (Table.find?_eq_some hfind).2
          refine ⟨hid ▸ hop, ?_⟩
          unfold World.Types
          rw [hid, hfind]
          rfl
  | findSubscriptions event =>
      refine sound_command (fun _ => rfl) (fun _ => rfl) fun subscriptions _ hanswer => ?_
      obtain ⟨hread, -⟩ := Prod.mk.inj hanswer
      obtain rfl := Except.ok.inj hread
      refine ⟨World.Dispatched.mono h hw, fun s hs => World.Wants.mono ?_ hw⟩
      obtain ⟨hrow, hwanted⟩ := List.mem_filter.1 hs
      have hwanted : s.eventType = event.eventType ∧ s.status = .active := by simpa using hwanted
      exact ⟨Table.find?_key hrow, hwanted⟩
  | findDeliveries event subscriptions =>
      refine sound_command (fun _ => rfl) (fun _ => rfl) fun existing _ hanswer => ?_
      obtain ⟨hread, -⟩ := Prod.mk.inj hanswer
      obtain rfl := Except.ok.inj hread
      refine sound_completing (h.1.mono hw) (fun s hs => ?_) fun s hs => ?_
      · exact (h.2 s (List.mem_of_mem_filter hs)).mono hw
      · exact (missing_or_delivers event.id hs).imp_right fun hd => hd.mono hw
  | now event subscriptions missing =>
      exact sound_command (fun _ => rfl) (fun _ => rfl) fun _ _ _ => h.mono hw
  | create event subscriptions missing now =>
      refine sound_command (fun _ => rfl) (fun _ => rfl) fun new hnew _ => ?_
      refine ⟨h.1.mono hw, fun s hs => ?_⟩
      rcases h.2.2 s hs with hmissing | hd
      · exact delivers_of_saved hnew (List.mem_map_of_mem hmissing)
      · exact hd.mono hw
  | finish event subscriptions hsave hupdate => exact h.mono hw
  | save s => trivial

/-- **Every delivery a call adds is warranted.** -/
theorem warrants_next {q : Progress} {c : StorageCall} (h : q.Sound w op) (hc : q.Allows op c)
    {d : WebhookDeliveryEntity} (hd : d ∈ (storageExec ω c w).2.deliveries.rows) :
    d ∈ w.deliveries.rows ∨ (storageExec ω c w).2.Warrants d := by
  have hw : w.Extends (storageExec ω c w).2 := extends_storageExec hc
  have hsame {c' : Command} (hsave : ∀ rows, c' ≠ .saveDeliveries rows)
      (hupdate : ∀ d p, c' ≠ .updateDelivery d p) (hd : d ∈ (exec ω c' w).2.deliveries.rows) :
      d ∈ w.deliveries.rows ∨ (exec ω c' w).2.Warrants d := by
    rw [deliveries_exec hsave hupdate] at hd
    exact Or.inl hd
  cases hc with
  | create event subscriptions missing now =>
      have heffect := exec_deliveries ω (.saveDeliveries (missing.map (newDelivery event.id now))) w
      change d ∈ (exec ω (.saveDeliveries _) w).2.deliveries.rows at hd
      generalize (exec ω (.saveDeliveries _) w).2.deliveries = deliveries at hd heffect
      cases heffect with
      | same => exact Or.inl hd
      | saved hsave =>
          obtain ⟨hinsert, -, hnew⟩ := saveDeliveries_eq_some hsave
          rw [IndexedTable.rows_insertAll hinsert, List.mem_append] at hd
          refine hd.imp_right fun hd => ?_
          obtain ⟨row, hrow, id, rfl⟩ := hnew d hd
          obtain ⟨s, hs, rfl⟩ := List.mem_map.1 hrow
          exact ((h.2.1 s hs).warrants h.1.2 ω.now now id).mono hw
  | save s =>
      refine Or.inl ?_
      rcases storageExec_save ω s w with h' | ⟨id, -, h'⟩ <;> rwa [h'] at hd
  | finish event subscriptions hsave hupdate => exact hsame hsave hupdate hd
  | _ => exact hsame (by simp) (by simp) hd

end Sound

/-! ### Runs -/

/-- What holds between the steps of dispatches and registrations that started in
`w₀`. -/
structure Steady (w₀ w : World) (ts : List (Operation × Progress)) : Prop where
  extended : w₀.Extends w
  matched : ∀ d ∈ w.deliveries.rows, (d ∈ w₀.deliveries.rows → w₀.Warrants d) → w.Warrants d
  sound : ∀ t ∈ ts, t.2.Sound w t.1

theorem steady_start (w : World) : Steady w w [] :=
  ⟨.refl w, fun _ hd h => h hd, fun _ h => absurd h List.not_mem_nil⟩

theorem Steady.spawn {w₀ w : World} {ts : List (Operation × Progress)} (h : Steady w₀ w ts)
    (op : Operation) : Steady w₀ w (ts ++ [(op, operations.entry op)]) := by
  refine ⟨h.extended, h.matched, fun t ht => ?_⟩
  rcases List.mem_append.1 ht with ht | ht
  · exact h.sound t ht
  · obtain rfl := List.mem_singleton.1 ht
    cases op <;> trivial

/-- **A step of a thread.** -/
theorem Steady.call {w₀ w : World} {ts : List (Operation × Progress)} (h : Steady w₀ w ts) {i : ℕ}
    {op : Operation} {q : Progress} (hi : ts[i]? = some (op, q)) {c : StorageCall}
    (hc : q.Allows op c) (ω : Draw) :
    Steady w₀ (storageExec ω c w).2 (ts.set i (op, q.next c (storageExec ω c w).1)) := by
  have hw : w.Extends (storageExec ω c w).2 := extends_storageExec hc
  have hq : q.Sound w op := h.sound _ (List.mem_of_getElem? hi)
  refine ⟨h.extended.trans hw, fun d hd hold => ?_, fun t ht => ?_⟩
  · rcases warrants_next hq hc hd with hd | hnew
    · exact (h.matched d hd hold).mono hw
    · exact hnew
  · rcases List.mem_or_eq_of_mem_set ht with ht | rfl
    · exact (h.sound t ht).mono hw
    · exact hq.next hc

/-- **Every run keeps what its threads have read.** -/
theorem steady_run {w₀ : World} {P : Pool Operation StorageCall StorageCall.Res Exception Unit
      World Progress} (htracked : P.Tracked operations OperationEnds)
    (hP : Steady w₀ P.world P.stages) (labels : List (Label Operation Draw)) :
    (Pool.run operations P labels).Tracked operations OperationEnds ∧
      Steady w₀ (Pool.run operations P labels).world (Pool.run operations P labels).stages := by
  have hall : P.Along operations (fun _ _ => True) labels :=
    Pool.along_of_forall (fun _ _ => trivial) P labels
  refine Pool.invariant operations_follow (fun P op s h _ hs => ?_)
    (fun P i op q c ω h _ hi _ hc => h.call hi hc ω) hall htracked hP
  obtain rfl := Option.some.inj hs
  exact h.spawn op

/-- Nothing is taken back by whatever runs on. -/
theorem extends_run {P : Pool Operation StorageCall StorageCall.Res Exception Unit World Progress}
    (htracked : P.Tracked operations OperationEnds)
    (hsound : ∀ t ∈ P.stages, t.2.Sound P.world t.1) (labels : List (Label Operation Draw)) :
    P.world.Extends (Pool.run operations P labels).world :=
  (steady_run htracked ⟨.refl P.world, fun _ hd h => h hd, hsound⟩ labels).2.extended

section Run

variable {w : World} {labels : List (Label Operation Draw)}

theorem steady_of_start (w : World) (labels : List (Label Operation Draw)) :
    (Pool.run operations (.start w) labels).Tracked operations OperationEnds ∧
      Steady w (Pool.run operations (.start w) labels).world
        (Pool.run operations (.start w) labels).stages :=
  steady_run (Pool.tracked_start _ w) (steady_start w) labels

/-- Where a dispatch has returned there is no such event, or each subscription it
has read has a delivery. -/
theorem returned_delivers
    {th : Thread Operation StorageCall StorageCall.Res Exception Unit Progress}
    (hth : th ∈ (Pool.run operations (.start w) labels).threads) {e : Uuid}
    (htag : th.tag = .dispatchOutboxEvent e) (hrest : th.rest = .ret ()) :
    (Pool.run operations (.start w) labels).world.outboxEvents.find? e = none ∨
      ∃ event subscriptions, th.stage = .finishing event subscriptions ∧
        (Pool.run operations (.start w) labels).world.Dispatched th.tag event ∧
          ∀ s ∈ subscriptions, (Pool.run operations (.start w) labels).world.Delivers e s.id := by
  obtain ⟨htracked, hsteady⟩ := steady_of_start w labels
  have hends := htracked th hth
  have hsound : th.stage.Sound _ th.tag :=
    hsteady.sound (th.tag, th.stage) (List.mem_map_of_mem hth)
  rw [hrest, htag] at hends
  rw [htag] at hsound ⊢
  rcases hends with hstage | ⟨event, subscriptions, hstage⟩
  · rw [hstage] at hsound
    exact Or.inl (hsound e rfl)
  · rw [hstage] at hsound
    obtain ⟨hevent, hcover⟩ := hsound
    obtain rfl := Operation.dispatchOutboxEvent.inj hevent.1
    exact Or.inr ⟨event, subscriptions, hstage, hevent, hcover⟩

/-- **Dispatches neither lose nor duplicate deliveries.**  After any run of
dispatches and registrations there is at most one delivery of an event to a
subscription; each delivery is warranted, unless it was there before and was not; where
a dispatch has returned, there is no such event or a delivery for every
subscription it has read; and the deliveries there are stay as they are in
whatever runs on. -/
theorem dispatches_deliver_once (w : World) (labels labels' : List (Label Operation Draw)) :
    let P := Pool.run operations (.start w) labels
    (∀ d ∈ P.world.deliveries.rows, ∀ d' ∈ P.world.deliveries.rows,
      d.webhookSubscriptionId = d'.webhookSubscriptionId → d.outboxEventId = d'.outboxEventId →
        d = d') ∧
    (∀ d ∈ P.world.deliveries.rows, (d ∈ w.deliveries.rows → w.Warrants d) → P.world.Warrants d) ∧
    (∀ th ∈ P.threads, ∀ e, th.tag = .dispatchOutboxEvent e → th.rest = .ret () →
      P.world.outboxEvents.find? e = none ∨
        ∃ event subscriptions, th.stage = .finishing event subscriptions ∧
          P.world.Dispatched th.tag event ∧ ∀ s ∈ subscriptions, P.world.Delivers e s.id) ∧
    P.world.deliveries.rows <+: (Pool.run operations P labels').world.deliveries.rows := by
  intro P
  obtain ⟨htracked, hsteady⟩ := steady_of_start w labels
  refine ⟨fun d hd d' hd' hs he => ?_, hsteady.matched,
    fun th hth e htag hrest => returned_delivers hth htag hrest, ?_⟩
  · exact IndexedTable.eq_of_index_eq hd hd' (Prod.ext hs he)
  · exact (extends_run htracked hsteady.sound labels').deliveries

/-- The dispatch has read all subscriptions that wanted its event in `w₁`. -/
def Progress.Knows (w₁ : World) : Progress → Prop
  | reading event subscriptions => ∀ s, w₁.Wants event s → s ∈ subscriptions
  | creating event subscriptions _ => ∀ s, w₁.Wants event s → s ∈ subscriptions
  | finishing event subscriptions => ∀ s, w₁.Wants event s → s ∈ subscriptions
  | _ => True

theorem Progress.Knows.next {w₁ : World} {op : Operation} {q : Progress} {c : StorageCall} {ω : Draw}
    (hw : w₁.Extends w) (h : q.Knows w₁) (hc : q.Allows op c) :
    (q.next c (storageExec ω c w).1).Knows w₁ := by
  cases hc with
  | findEvent hop =>
      cases (storageExec ω _ w).1 with
      | ok found => cases found <;> trivial
      | error _ => trivial
  | findSubscriptions event =>
      cases hr : (storageExec ω (.command (.findSubscriptions event.eventType)) w).1 with
      | ok subscriptions =>
          have hanswer : (exec ω (.findSubscriptions event.eventType) w).1 = .ok subscriptions := hr
          rw [exec_of_ok hanswer] at hanswer
          obtain rfl := Except.ok.inj hanswer
          intro s hs
          obtain ⟨hfind, hwanted⟩ := hs.mono hw
          exact List.mem_filter.2 ⟨(Table.find?_eq_some hfind).1, by simpa using hwanted⟩
      | error _ => trivial
  | findDeliveries event subscriptions =>
      cases (storageExec ω _ w).1 with
      | ok existing =>
          show (Progress.completing event subscriptions _).Knows w₁
          cases missingSubscriptions subscriptions existing <;> exact h
      | error _ => trivial
  | now | create =>
      cases (storageExec ω _ w).1 with
      | ok _ => exact h
      | error _ => trivial
  | finish event subscriptions hsave hupdate => exact h
  | save s => trivial

/-- The threads after the first `n` have read what the world was before them. -/
theorem knows_run {w₁ : World} {n : ℕ} {P : Pool Operation StorageCall StorageCall.Res Exception
      Unit World Progress} (htracked : P.Tracked operations OperationEnds)
    (hw : w₁.Extends P.world) (hn : P.stages.length = n) (labels : List (Label Operation Draw)) :
    ∀ i op q, n ≤ i → (Pool.run operations P labels).stages[i]? = some (op, q) → q.Knows w₁ := by
  have hall : P.Along operations (fun _ _ => True) labels :=
    Pool.along_of_forall (fun _ _ => trivial) P labels
  let J : World → List (Operation × Progress) → Prop := fun w ts =>
    w₁.Extends w ∧ ∀ i op q, n ≤ i → ts[i]? = some (op, q) → q.Knows w₁
  have hstart : J P.world P.stages := by
    refine ⟨hw, fun i op q hle hi => ?_⟩
    rw [List.getElem?_eq_none (hn.trans_le hle)] at hi
    cases hi
  have hrun : J (Pool.run operations P labels).world (Pool.run operations P labels).stages := by
    refine (Pool.invariant operations_follow (fun P op s h _ hs => ?_)
      (fun P i op q c ω h _ hi _ hc => ?_) hall htracked hstart).2
    · obtain rfl := Option.some.inj hs
      refine ⟨h.1, fun j op' q' hle hj => ?_⟩
      rcases getElem?_append_some hj with hj | ⟨-, hj⟩
      · exact h.2 j op' q' hle hj
      · obtain ⟨-, rfl⟩ := Prod.mk.inj hj
        cases op <;> trivial
    · refine ⟨h.1.trans (extends_storageExec hc), fun j op' q' hle hj => ?_⟩
      rcases getElem?_set_some hj with ⟨rfl, hcalled⟩ | ⟨-, hj⟩
      · obtain ⟨-, rfl⟩ := Prod.mk.inj hcalled
        exact (h.2 j op q hle hi).next h.1 hc
      · exact h.2 j op' q' hle hj
  exact hrun.2

/-- **A dispatch serves every subscription there was when it started**: where it
has returned there is a delivery for each. -/
theorem returned_delivers_wanted (w : World) (labels labels' : List (Label Operation Draw)) :
    let P := Pool.run operations (.start w) labels
    let P' := Pool.run operations P labels'
    ∀ i th, P.threads.length ≤ i → P'.threads[i]? = some th →
      ∀ event, P.world.outboxEvents.find? event.id = some event →
        th.tag = .dispatchOutboxEvent event.id → th.rest = .ret () →
          ∀ s, P.world.Wants event s → P'.world.Delivers event.id s.id := by
  intro P P' i th hle hi event hevent htag hrest s hs
  obtain ⟨htracked, hsteady⟩ := steady_of_start w labels
  have hrun : P' = Pool.run operations (.start w) (labels ++ labels') :=
    (Pool.run_append labels labels').symm
  have hext : P.world.Extends P'.world := extends_run htracked hsteady.sound labels'
  have hth : th ∈ P'.threads := List.mem_of_getElem? hi
  have htypes : P'.world.Types event := World.Types.mono (congrArg (Option.map _) hevent) hext
  rw [hrun] at hth htypes ⊢
  rcases returned_delivers hth htag hrest with
    hnone | ⟨event', subscriptions, hstage, hread, hcover⟩
  · rw [World.Types, hnone] at htypes
    cases htypes
  · have hknows := knows_run htracked (.refl P.world) (List.length_map _) labels' i th.tag
      th.stage hle (by simp only [Pool.stages, List.getElem?_map]; rw [hi]; rfl)
    rw [hstage] at hknows
    have hid : event.id = event'.id :=
      Operation.dispatchOutboxEvent.inj (htag.symm.trans hread.1)
    have htype : event.eventType = event'.eventType := by
      rw [World.Types, hid] at htypes
      exact Option.some.inj (htypes.symm.trans hread.2)
    exact hcover s (hknows s ⟨hs.1, hs.2.1.trans htype, hs.2.2⟩)

end Run

end Webhooks
end LedgerEngine
