/-
# What a job and a dispatch do when no call fails

Here every call to the database and to the queue resolves (`Resolves`); the receiver
answers as it likes.  A job of a PENDING delivery then makes one POST and records what
came of it (`runJob_tallies`): SUCCESS if the receiver answered with a 2xx status and
a body; else FAILED if no attempt is left, or PENDING with a job for the next one.  A
dispatch creates the deliveries that are missing and adds the next job of each that is
PENDING (`dispatchOutboxEvent_returns`).

Each function of the service has one lemma, which says that it returns and what it has
changed when it does (`Completes`); only an attempt may throw.
-/

import LedgerEngine.Webhooks.Lost

namespace LedgerEngine
namespace Webhooks

/-! ### Calls that resolve -/

/-- The call resolves, if it goes to the database or the queue. -/
def Resolves (ω : Draw) (c : Command) (w : World) : Prop :=
  (c.stores || c.enqueues) = true → (exec ω c w).1.isOk = true

instance (ω : Draw) (c : Command) (w : World) : Decidable (Resolves ω c w) :=
  inferInstanceAs (Decidable (_ → _))

/-- From a world in `pre` the program ends in `post`, if its calls resolve. -/
abbrev Leads {α : Type} (script : Script) (pre : World → Prop) (p : Service α)
    (post : Except Exception α → World → Prop) : Prop :=
  Prog.Triple (scripted script) (fun c s => Resolves (script s.2) c s.1) (fun s => pre s.1) p
    fun r s => post r s.1

/-- From a world in `pre` the program returns, if its calls resolve, and what it returns
and the world are in `post`. -/
abbrev Completes {α : Type} (script : Script) (pre : World → Prop) (p : Service α)
    (post : α → World → Prop) : Prop :=
  Leads script pre p fun r w => ∃ a, r = .ok a ∧ post a w

section Rules

variable {α β : Type} {script : Script} {pre : World → Prop}

/-- A program that returns, and what it leads to. -/
theorem Completes.bind {p : Service α} {f : α → Service β} {mid : α → World → Prop}
    {post : Except Exception β → World → Prop} (hp : Completes script pre p mid)
    (hf : ∀ a, Leads script (mid a) (f a) post) : Leads script pre (p.bind f) post := by
  refine Prog.Triple.bind _ hp (fun a s hs hmeets => ?_) fun e s hs => ?_
  · obtain ⟨a', ha, hmid⟩ := hs
    obtain rfl := Except.ok.inj ha
    exact hf a s hmid hmeets
  · obtain ⟨a', ha, -⟩ := hs
    exact absurd ha (by simp)

/-- Nothing is caught of a program that returns. -/
theorem Completes.tryCatch {p : Service α} {f : Exception → Service α} {post : α → World → Prop}
    (hp : Completes script pre p post) : Completes script pre (p.tryCatch f) post := by
  refine Prog.Triple.tryCatch _ hp (fun _ _ hs => hs) fun e s hs => ?_
  obtain ⟨_, hr, -⟩ := hs
  exact absurd hr (by simp)

theorem Completes.ret {a : α} {post : α → World → Prop} (h : ∀ w, pre w → post a w) :
    Completes script pre (.ret a) post :=
  Prog.Triple.ret fun s hs => ⟨a, rfl, h s.1 hs⟩

theorem Completes.await {c : Command} {post : c.Res → World → Prop}
    (h : ∀ n w, pre w → Resolves (script n) c w →
      ∃ r, (exec (script n) c w).1 = .ok r ∧ post r (exec (script n) c w).2) :
    Completes script pre (.await c) post :=
  Prog.Triple.await fun s hs hok => h s.2 s.1 hs hok

/-- What is known of the world before, with a fact that does not depend on it. -/
theorem Leads.exists {ι : Sort*} {pre : ι → World → Prop} {p : Service α}
    {post : Except Exception α → World → Prop} (h : ∀ i, Leads script (pre i) p post) :
    Leads script (fun w => ∃ i, pre i w) p post :=
  fun s ⟨i, hi⟩ hmeets => h i s hi hmeets

theorem Leads.of_fact {φ : Prop} {p : Service α} {post : Except Exception α → World → Prop}
    (h : φ → Leads script pre p post) : Leads script (fun w => φ ∧ pre w) p post :=
  fun s hs hmeets => h hs.1 s hs.2 hmeets

end Rules

section Calls

variable {ω : Draw} {c : Command} {w : World} {script : Script} {pre : World → Prop} {e d : Uuid}

/-- A call that resolves has met no fault. -/
theorem Resolves.exec (h : Resolves ω c w) (hc : (c.stores || c.enqueues) = true) :
    exec ω c w = answer ω c w := by
  obtain ⟨r, hr⟩ := isOk_elim (h hc)
  exact exec_of_ok hr

/-- What is read is what there is. -/
theorem Completes.read {c : Command} (found : World → c.Res) (hc : c.stores = true)
    (hfound : ∀ ω w, answer ω c w = (.ok (found w), w)) {post : c.Res → World → Prop}
    (h : ∀ w, pre w → post (found w) w) : Completes script pre (.await c) post := by
  refine .await fun n w hw hok => ?_
  rw [hok.exec (by rw [hc]; rfl), hfound]
  exact ⟨found w, rfl, h w hw⟩

theorem dateNow_returns : Completes script pre dateNow fun _ => pre :=
  .await fun _ _ hw _ => ⟨_, rfl, hw⟩

/-- An update of an event, for what no update of an event changes. -/
theorem updateEvent_returns {p : EventPatch}
    (h : ∀ w now, pre w → pre { w with outboxEvents := w.updateEvent now e p }) :
    Completes script pre (updateEvent e p) fun _ => pre := by
  refine .await fun n w hw hok => ?_
  obtain ⟨hr, hnew⟩ := exec_updateEvent (hok rfl)
  rw [hr, hnew]
  exact ⟨(), rfl, h w (script n).now hw⟩

/-- The patch of an update that resolves fits. -/
theorem fits_of_resolves {p : DeliveryPatch} (h : Resolves ω (.updateDelivery d p) w) :
    p.Fits := by
  have hok := h rfl
  rw [h.exec rfl] at hok
  by_contra hfits
  simp only [answer, if_neg hfits] at hok
  exact absurd hok Bool.false_ne_true

theorem updateDelivery_returns {p : DeliveryPatch} {post : Unit → World → Prop}
    (h : ∀ w now, pre w → p.Fits →
      post () { w with deliveries := w.deliveries.update d (p.change now) }) :
    Completes script pre (updateDelivery d p) post := by
  refine .await fun n w hw hok => ?_
  obtain ⟨hr, hnew⟩ := exec_updateDelivery (hok rfl)
  rw [hr, hnew]
  exact ⟨(), rfl, h w (script n).now hw (fits_of_resolves hok)⟩

/-- The job that is added waits, or is delayed if there is a delay. -/
theorem enqueueDelivery_returns {delayMs : ℤ} {attempt : ℕ} {post : Unit → World → Prop}
    (h : ∀ w state, pre w → state ≠ .active → (delayMs ≤ 0 → state = .waiting) →
      post () { w with queue := w.queue.add ⟨d, attempt⟩ state }) :
    Completes script pre (enqueueDelivery d delayMs attempt) post := by
  refine .await fun n w hw hok => ?_
  rw [hok.exec rfl]
  refine ⟨(), rfl, h w _ hw ?_ fun hdelay => if_pos hdelay⟩
  split_ifs <;> simp

/-- A job that is done is taken out of the queue. -/
theorem completeJob_returns {job : JobId} {post : Unit → World → Prop}
    (h : ∀ w, pre w → post () { w with queue := w.queue.complete retention job }) :
    Completes script pre (.await (Command.completeJob job)) post :=
  .await fun _ w hw _ => ⟨(), rfl, h w hw⟩

/-- The status of the event is recomputed, for what no update of an event changes. -/
theorem updateOutboxStatus_returns
    (h : ∀ w now p, pre w → pre { w with outboxEvents := w.updateEvent now e p }) :
    Completes script pre (updateOutboxStatus e) fun _ => pre := by
  have hupdate (p : EventPatch) : Completes script pre (updateEvent e p) fun _ => pre :=
    updateEvent_returns fun w now => h w now p
  have hread : Completes script pre (findDeliveries e) fun _ => pre :=
    .read (fun w => w.deliveriesOf e) rfl (fun _ _ => rfl) fun _ hw => hw
  refine hread.bind fun deliveries => ?_
  cases aggregate deliveries with
  | published => exact dateNow_returns.bind fun _ => hupdate _
  | failed => exact hupdate _
  | processing => exact hupdate _
  | pending => exact hupdate _

end Calls

/-! ### A job -/

/-- What the receiver does with one POST. -/
structure Receiver where
  response : Except Exception ℕ
  text : Except Exception JsString

/-- It answers with a 2xx status and a body. -/
def Receiver.delivered (receiver : Receiver) : Bool :=
  match receiver.response, receiver.text with
  | .ok status, .ok _ => responseOk status
  | _, _ => false

/-- The POST of a call is answered by the receiver. -/
def Receiver.script (receiver : Receiver) (script : Script) : Script :=
  fun n => { script n with response := receiver.response, text := receiver.text }

/-- A POST has been made for the delivery, and nothing else has happened. -/
def World.Posted (d : Uuid) (w w' : World) : Prop := ∃ t, w' = { w with posts := (d, t) :: w.posts }

/-- The status of a delivery after attempt `attempts`. -/
def statusAfter (cfg : Config) (attempts : ℕ) (delivered : Bool) : WebhookDeliveryStatus :=
  if delivered then .success else if attempts < cfg.webhookMaxAttempts then .pending else .failed

/-- An attempt on the delivery has been made and the patch records it. -/
structure Tallied (cfg : Config) (r : WebhookDeliveryEntity) (delivered : Bool)
    (p : DeliveryPatch) (w w' : World) : Prop where
  count : p.attemptCount = r.attemptCount + 1
  status : p.status = statusAfter cfg p.attemptCount delivered
  due : p.nextRetryAt.join = none ↔ p.status ≠ .pending
  posts : ∃ t, w'.posts = (r.id, t) :: w.posts
  deliveries : ∃ now, w'.deliveries = w.deliveries.update r.id (p.change now)
  again : p.status = .pending →
    ∃ state, state ≠ .active ∧ w'.queue = w.queue.add ⟨r.id, p.attemptCount + 1⟩ state
  ended : p.status ≠ .pending → w'.queue = w.queue
  kept : w.Kept w'

/-- What a `try` block leaves: the attempt that succeeded is recorded, or the POST has
been made. -/
def TryLeaves (cfg : Config) (r : WebhookDeliveryEntity) (receiver : Receiver) (w : World) :
    Except Exception Unit → World → Prop
  | .ok _, w' => receiver.delivered = true ∧ ∃ p, Tallied cfg r true p w w'
  | .error _, w' => receiver.delivered = false ∧ w.Posted r.id w'

section Job

variable {cfg : Config} {w₀ : World} {script : Script} {receiver : Receiver}
  {r : WebhookDeliveryEntity} {e : Uuid}

theorem Tallied.updateEvent {delivered : Bool} {p : DeliveryPatch} {w : World}
    (h : Tallied cfg r delivered p w₀ w) (now : Time) (p' : EventPatch) :
    Tallied cfg r delivered p w₀ { w with outboxEvents := w.updateEvent now e p' } :=
  { h with kept := h.kept.updateEvent now p' }

theorem relation_returns {α : Type} {pre : World → Prop} (a : α) :
    Completes script pre (relation (some a)) fun a' w => a' = a ∧ pre w :=
  .ret fun _ hw => ⟨rfl, hw⟩

theorem fetch_leads (request : WebhookRequest) :
    Leads (receiver.script script) (fun w => w = w₀) (fetch r.id request) fun response w =>
      response = receiver.response ∧ w₀.Posted r.id w := by
  refine Prog.Triple.await fun s hs _ => ⟨rfl, (script s.2).now, ?_⟩
  subst hs
  rfl

theorem responseText_leads {pre : World → Prop} :
    Leads (receiver.script script) pre (responseText r.id) fun text w =>
      text = receiver.text ∧ pre w :=
  Prog.Triple.await fun _ hs _ => ⟨rfl, hs⟩

theorem tallied_of_eq {delivered : Bool} {p : DeliveryPatch} {w : World} {t now : Time}
    {queue : JobQueue JobId} (hw : w = { w₀ with
      posts := (r.id, t) :: w₀.posts
      deliveries := w₀.deliveries.update r.id (p.change now)
      queue })
    (hcount : p.attemptCount = r.attemptCount + 1)
    (hstatus : p.status = statusAfter cfg p.attemptCount delivered)
    (hdue : p.nextRetryAt.join = none ↔ p.status ≠ .pending)
    (hagain : p.status = .pending →
      ∃ state, state ≠ .active ∧ queue = w₀.queue.add ⟨r.id, p.attemptCount + 1⟩ state)
    (hover : p.status ≠ .pending → queue = w₀.queue) : Tallied cfg r delivered p w₀ w := by
  subst hw
  exact ⟨hcount, hstatus, hdue, ⟨t, rfl⟩, ⟨now, rfl⟩, hagain, hover, rfl, fun _ => rfl⟩

/-- The row is updated once the POST has been made. -/
theorem updateDelivery_records {φ : Prop} {p : DeliveryPatch} (h : p.Fits → φ) :
    Completes script (w₀.Posted r.id) (updateDelivery r.id p) fun _ w =>
      φ ∧ ∃ t now, w = { w₀ with
        posts := (r.id, t) :: w₀.posts
        deliveries := w₀.deliveries.update r.id (p.change now) } := by
  refine updateDelivery_returns ?_
  rintro w now ⟨t, rfl⟩ hfits
  exact ⟨h hfits, t, now, rfl⟩

/-- **The `try` block**: one POST, recorded if it was delivered. -/
theorem attemptDelivery_leads (s : WebhookSubscriptionEntity) (event : OutboxEventEntity) :
    Leads (receiver.script script) (fun w => w = w₀)
      (attemptDelivery cfg ⟨r, some s, some event⟩) (TryLeaves cfg r receiver w₀) := by
  unfold attemptDelivery
  refine (relation_returns event).bind fun _ => Leads.of_fact ?_
  rintro rfl
  refine (relation_returns s).bind fun _ => Leads.of_fact ?_
  rintro rfl
  refine Prog.Triple.bind _ (fetch_leads _) (fun status => ?_) fun error w hw => ?_
  · refine Leads.of_fact fun hstatus => ?_
    refine Prog.Triple.bind _ responseText_leads (fun body => ?_) fun error w hw => ?_
    · refine Leads.of_fact fun hbody => ?_
      have hdelivered : receiver.delivered = responseOk status := by
        rw [Receiver.delivered, ← hstatus, ← hbody]
      cases hok : responseOk status with
      | false =>
          exact fun w hw _ => ⟨hdelivered.trans hok, hw⟩
      | true =>
          refine dateNow_returns.bind fun now => ?_
          refine (updateDelivery_records fun _ => trivial).mono (fun _ hw => hw) fun _ s hs => ?_
          obtain ⟨_, rfl, -, t, now', hw⟩ := hs
          exact ⟨hdelivered.trans hok, _, tallied_of_eq hw rfl rfl (by simp) (by simp)
            fun _ => rfl⟩
    · refine ⟨?_, hw.2⟩
      rw [Receiver.delivered, ← hstatus, ← hw.1]
  · refine ⟨?_, hw.2⟩
    rw [Receiver.delivered, ← hw.1]

/-- A date is computed while an attempt is left. -/
theorem nextRetryAt_returns {pre : World → Prop} (attempts : ℕ) :
    Completes script pre (nextRetryAt cfg attempts) fun date w =>
      (date.isSome = true ↔ attempts < cfg.webhookMaxAttempts) ∧ pre w := by
  unfold nextRetryAt
  split_ifs with hleft
  · exact dateNow_returns.bind fun now => Completes.ret fun _ hw =>
      ⟨⟨fun _ => hleft, fun _ => rfl⟩, hw⟩
  · exact Completes.ret fun _ hw => ⟨⟨fun h => absurd h (by simp), fun h => absurd h hleft⟩, hw⟩

/-- **The `catch` block**: the attempt is recorded, with the next one if it is left. -/
theorem recordFailedAttempt_returns (error : Exception) :
    Completes script (w₀.Posted r.id) (recordFailedAttempt cfg r error) fun _ w =>
      ∃ p, Tallied cfg r false p w₀ w := by
  refine (nextRetryAt_returns _).bind fun date => Leads.of_fact fun hdate => ?_
  refine dateNow_returns.bind fun now => ?_
  refine (updateDelivery_records fun hfits => hfits.1).bind fun _ =>
    Leads.of_fact fun hstorable => ?_
  · refine Leads.exists fun t => Leads.exists fun now' => ?_
    match date with
    | none =>
        have hlast : ¬ r.attemptCount + 1 < cfg.webhookMaxAttempts := fun h =>
          absurd (hdate.2 h) (by simp)
        refine Completes.ret fun w hw => ⟨_, tallied_of_eq hw rfl ?_ ?_ ?_ fun _ => rfl⟩
        · simp [statusAfter]
        · simp [hlast]
        · simp [hlast]
    | some none => exact absurd rfl hstorable
    | some (some due) =>
        have hleft : r.attemptCount + 1 < cfg.webhookMaxAttempts := hdate.1 rfl
        refine dateNow_returns.bind fun now => enqueueDelivery_returns ?_
        rintro w state rfl hstate -
        refine ⟨_, tallied_of_eq rfl rfl ?_ ?_ (fun _ => ⟨state, hstate, rfl⟩) ?_⟩
        · simp [statusAfter]
        · simp [hleft]
        · simp [hleft]

/-- **An attempt is recorded**, and the status of the event is recomputed. -/
theorem processPending_tallies (s : WebhookSubscriptionEntity) (event : OutboxEventEntity) :
    Completes (receiver.script script) (fun w => w = w₀)
      (processPending cfg ⟨r, some s, some event⟩) fun _ w =>
        ∃ p, Tallied cfg r receiver.delivered p w₀ w := by
  have hattempt : Completes (receiver.script script) (fun w => w = w₀)
      (Prog.tryCatch (attemptDelivery cfg ⟨r, some s, some event⟩) (recordFailedAttempt cfg r))
      fun _ w => ∃ p, Tallied cfg r receiver.delivered p w₀ w := by
    refine Prog.Triple.tryCatch _ (attemptDelivery_leads s event) (fun a s hs => ?_) fun error => ?_
    · obtain ⟨hdelivered, htallied⟩ := hs
      rw [hdelivered]
      exact ⟨a, rfl, htallied⟩
    · rintro s ⟨hdelivered, hposted⟩ hmeets
      rw [hdelivered]
      exact recordFailedAttempt_returns error s hposted hmeets
  refine hattempt.bind fun _ => updateOutboxStatus_returns fun w now p hw => ?_
  obtain ⟨p', htallied⟩ := hw
  exact ⟨p', htallied.updateEvent now p⟩

/-- The delivery is PENDING, and its relations exist. -/
structure World.Attemptable (w : World) (r : WebhookDeliveryEntity) : Prop where
  found : w.deliveries.find? r.id = some r
  pending : r.status = .pending
  subscription : (w.subscriptions.find? r.webhookSubscriptionId).isSome = true
  outboxEvent : (w.outboxEvents.find? r.outboxEventId).isSome = true

theorem processDelivery_tallies (h : w₀.Attemptable r) :
    Completes (receiver.script script) (fun w => w = w₀) (processDelivery cfg r.id) fun _ w =>
      ∃ p, Tallied cfg r receiver.delivered p w₀ w := by
  obtain ⟨s, hs⟩ := Option.isSome_iff_exists.1 h.subscription
  obtain ⟨event, hevent⟩ := Option.isSome_iff_exists.1 h.outboxEvent
  have hfind : Completes (receiver.script script) (fun w => w = w₀) (findDelivery r.id)
      fun found w => found = some ⟨r, some s, some event⟩ ∧ w = w₀ := by
    refine .read (fun w => (w.deliveries.find? r.id).map fun d =>
      ⟨d, w.subscriptions.find? d.webhookSubscriptionId, w.outboxEvents.find? d.outboxEventId⟩)
      rfl (fun _ _ => rfl) ?_
    rintro w rfl
    simp only [h.found, Option.map_some, hs, hevent, and_self]
  unfold processDelivery
  refine hfind.bind fun found => Leads.of_fact ?_
  rintro rfl
  have hopen : ¬ (r.status = .success ∨ r.status = .failed) := by simp [h.pending]
  dsimp only
  rw [if_neg hopen]
  exact processPending_tallies s event

/-- **A job of a PENDING delivery makes one attempt.** -/
theorem runJob_tallies {attempt : ℕ} (h : w₀.Attemptable r) :
    Completes (receiver.script script) (fun w => w = w₀) (runJob cfg ⟨r.id, attempt⟩) fun _ w =>
      ∃ p w', Tallied cfg r receiver.delivered p w₀ w' ∧
        w = { w' with queue := w'.queue.complete retention ⟨r.id, attempt⟩ } := by
  refine Completes.tryCatch ?_
  refine (processDelivery_tallies h).bind fun _ => completeJob_returns fun w hw => ?_
  obtain ⟨p, htallied⟩ := hw
  exact ⟨p, w, htallied, rfl⟩

end Job

/-! ### A dispatch -/

/-- The subscriptions a dispatch of the event finds. -/
def World.matching (w : World) (event : OutboxEventEntity) : List WebhookSubscriptionEntity :=
  w.subscriptions.rows.filter fun s => s.eventType = event.eventType ∧ s.status = .active

/-- The job of the next attempt. -/
def WebhookDeliveryEntity.nextJob (r : WebhookDeliveryEntity) : JobId := ⟨r.id, r.attemptCount + 1⟩

/-- The delivery of the event is as a dispatch creates it. -/
structure WebhookDeliveryEntity.Fresh (e : Uuid) (r : WebhookDeliveryEntity) : Prop where
  event : r.outboxEventId = e
  pending : r.status = .pending
  count : r.attemptCount = 0
  due : r.nextRetryAt ≠ none

/-- `new` are deliveries of the event to these subscriptions, and have been added. -/
structure Inserted (e : Uuid) (subscriptions : List WebhookSubscriptionEntity)
    (new : List WebhookDeliveryEntity) (w w' : World) : Prop where
  subscribed : new.map (·.webhookSubscriptionId) = subscriptions.map (·.id)
  fresh : ∀ r ∈ new, r.Fresh e
  rows : w.deliveries.insertAll? new = some w'.deliveries

/-- What a dispatch of the event leaves: the deliveries it has created, and the next
job of each delivery that is PENDING. -/
structure Supplied (event : OutboxEventEntity) (new : List WebhookDeliveryEntity)
    (w w' : World) : Prop where
  inserted : Inserted event.id
    (missingSubscriptions (w.matching event) (w.deliveriesOf event.id)) new w w'
  queue : w'.queue = w.queue.addAll
    ((pendingOf (w.deliveriesOf event.id ++ new)).map (·.nextJob)) .waiting
  posts : w'.posts = w.posts
  kept : w.Kept w'

section Dispatch

variable {cfg : Config} {w₀ : World} {script : Script} {e : Uuid}

/-- The jobs of a list of deliveries are added. -/
theorem enqueueAll_returns (deliveries : List WebhookDeliveryEntity) :
    Completes script (fun w => w = w₀)
      (Prog.promiseAll (deliveries.map fun delivery =>
        enqueueDelivery delivery.id 0 (delivery.attemptCount + 1)))
      fun _ w =>
        w = { w₀ with queue := w₀.queue.addAll (deliveries.map (·.nextJob)) .waiting } := by
  -- what is still to be added leads from the queue as it is to the queue in the end
  let todo (ds : List WebhookDeliveryEntity) (w : World) : Prop :=
    w = { w₀ with queue := w.queue } ∧ w.queue.addAll (ds.map (·.nextJob)) .waiting =
      w₀.queue.addAll (deliveries.map (·.nextJob)) .waiting
  have hone (d : WebhookDeliveryEntity) (ds : List WebhookDeliveryEntity) :
      Completes script (todo (d :: ds)) (enqueueDelivery d.id 0 (d.attemptCount + 1))
        fun _ => todo ds := by
    refine enqueueDelivery_returns fun w state hw _ hstate => ?_
    obtain ⟨hworld, hqueue⟩ := hw
    obtain rfl := hstate le_rfl
    refine ⟨?_, hqueue⟩
    rw [hworld]
  refine (Prog.Triple.promiseAll_ok (J := fun ds s => todo ds s.1) (fun d ds => ?_)
    deliveries).mono ?_ fun result s hs => ?_
  · refine (hone d ds).mono (fun _ hs => hs) fun result s hs => ?_
    obtain ⟨_, rfl, hw⟩ := hs
    exact ⟨rfl, hw⟩
  · rintro s rfl
    exact ⟨rfl, rfl⟩
  · obtain ⟨rfl, hw, hqueue⟩ := hs
    exact ⟨(), rfl, hqueue ▸ hw⟩

/-- **The second half of a dispatch** changes the queue, and of the events what an
update changes. -/
theorem enqueuePending_returns (w₀ : World) (deliveries : List WebhookDeliveryEntity) :
    Completes script (fun w => w = w₀) (enqueuePending e deliveries) fun _ w =>
      w.queue = w₀.queue.addAll ((pendingOf deliveries).map (·.nextJob)) .waiting ∧
        w.deliveries = w₀.deliveries ∧ w.posts = w₀.posts ∧ w₀.Kept w := by
  unfold enqueuePending
  split
  · rename_i hnone
    rw [hnone]
    let same (w : World) : Prop :=
      w.queue = w₀.queue ∧ w.deliveries = w₀.deliveries ∧ w.posts = w₀.posts ∧ w₀.Kept w
    have hupdate : Completes script same (updateOutboxStatus e) fun _ => same := by
      refine updateOutboxStatus_returns fun w now p hw => ?_
      obtain ⟨hqueue, hdeliveries, hposts, hkept⟩ := hw
      exact ⟨hqueue, hdeliveries, hposts, hkept.updateEvent now p⟩
    refine hupdate.mono ?_ fun _ _ hs => hs
    rintro s rfl
    exact ⟨rfl, rfl, rfl, .refl _⟩
  · rename_i d ds hpending
    rw [hpending]
    refine (enqueueAll_returns (d :: ds)).mono (fun _ hs => hs) fun result s hs => ?_
    obtain ⟨a, hresult, hw⟩ := hs
    refine ⟨a, hresult, ?_⟩
    rw [hw]
    exact ⟨rfl, rfl, rfl, rfl, fun _ => rfl⟩

/-- The rows of one `save` are for the subscriptions of the new deliveries. -/
theorem subscriptions_of_rows {now : Time} : ∀ {rows : List NewDelivery} {ids : List Uuid},
    ids.length = rows.length →
      (List.zipWith (NewDelivery.row now) rows ids).map (·.webhookSubscriptionId) =
        rows.map (·.webhookSubscriptionId)
  | [], _, _ => rfl
  | _ :: _, [], h => absurd h (by simp)
  | d :: rows, id :: ids, h => by
      rw [List.zipWith_cons_cons, List.map_cons, List.map_cons,
        subscriptions_of_rows (Nat.succ.inj h)]
      rfl

/-- **The missing deliveries are created.** -/
theorem createMissing_returns (missing : List WebhookSubscriptionEntity) :
    Completes script (fun w => w = w₀) (createMissing e missing) fun new w =>
      Inserted e missing new w₀ w ∧ w = { w₀ with deliveries := w.deliveries } := by
  cases missing with
  | nil =>
      refine Completes.ret ?_
      rintro w rfl
      exact ⟨⟨rfl, fun _ hr => absurd hr List.not_mem_nil, rfl⟩, rfl⟩
  | cons s missing =>
      unfold createMissing
      refine dateNow_returns.bind fun now => Completes.await fun n w hw hok => ?_
      subst hw
      obtain ⟨new, hnew⟩ := isOk_elim (hok rfl)
      obtain ⟨deliveries, hsave, hworld⟩ := exec_saveDeliveries hnew
      obtain ⟨hinsert, -, hrows⟩ := saveDeliveries_eq_some hsave
      refine ⟨new, hnew, ?_⟩
      rw [hworld]
      refine ⟨⟨?_, fun r hr => ?_, hinsert⟩, rfl⟩
      · unfold World.saveDeliveries at hsave
        split_ifs at hsave with hids
        obtain ⟨_, -, h⟩ := Option.map_eq_some_iff.1 hsave
        obtain ⟨rfl, -⟩ := Prod.mk.inj h
        rw [subscriptions_of_rows hids.1, List.map_map]
        rfl
      · obtain ⟨d, hd, id, rfl⟩ := hrows r hr
        obtain ⟨subscription, -, rfl⟩ := List.mem_map.1 hd
        exact ⟨rfl, rfl, rfl, by simp [NewDelivery.row]⟩

/-- **What a dispatch does.** -/
theorem dispatchOutboxEvent_returns {event : OutboxEventEntity}
    (hevent : w₀.outboxEvents.find? e = some event) :
    Completes script (fun w => w = w₀) (dispatchOutboxEvent e) fun _ w =>
      ∃ new, Supplied event new w₀ w := by
  obtain rfl : event.id = e := (Table.find?_eq_some hevent).2
  have hfind : Completes script (fun w => w = w₀) (findEvent event.id)
      fun found w => found = some event ∧ w = w₀ :=
    .read (fun w => w.outboxEvents.find? event.id) rfl (fun _ _ => rfl)
      fun w hw => ⟨by rw [hw, hevent], hw⟩
  have hsubscriptions : Completes script (fun w => w = w₀) (findSubscriptions event.eventType)
      fun found w => found = w₀.matching event ∧ w = w₀ :=
    .read (fun w => w.matching event) rfl (fun _ _ => rfl) fun w hw => ⟨by rw [hw], hw⟩
  have hdeliveries : Completes script (fun w => w = w₀) (findDeliveries event.id)
      fun found w => found = w₀.deliveriesOf event.id ∧ w = w₀ :=
    .read (fun w => w.deliveriesOf event.id) rfl (fun _ _ => rfl)
      fun w hw => ⟨by rw [hw], hw⟩
  unfold dispatchOutboxEvent
  refine hfind.bind fun found => Leads.of_fact ?_
  rintro rfl
  refine hsubscriptions.bind fun subscriptions => Leads.of_fact ?_
  rintro rfl
  refine hdeliveries.bind fun existing => Leads.of_fact ?_
  rintro rfl
  split_ifs with hnone
  · have hcreated (w : World) (hw : w.deliveries = w₀.deliveries) : Inserted event.id
        (missingSubscriptions (w₀.matching event) (w₀.deliveriesOf event.id)) [] w₀ w := by
      rw [hnone.1]
      exact ⟨rfl, fun _ hr => absurd hr List.not_mem_nil, congrArg some hw.symm⟩
    have hpublish : Completes script (fun w => Supplied event [] w₀ w) (markPublished event.id)
        fun _ w => Supplied event [] w₀ w :=
      dateNow_returns.bind fun now => updateEvent_returns fun w now hw =>
        ⟨hcreated _ (Option.some.inj hw.inserted.rows).symm, hw.queue, hw.posts,
          hw.kept.updateEvent now _⟩
    refine hpublish.mono ?_ fun _ _ hs => ?_
    · rintro s rfl
      refine ⟨hcreated _ rfl, ?_, rfl, .refl _⟩
      rw [hnone.2]
      rfl
    · obtain ⟨a, hresult, hw⟩ := hs
      exact ⟨a, hresult, [], hw⟩
  · refine (createMissing_returns _).bind fun new s hs hmeets => ?_
    obtain ⟨hinserted, hw⟩ := hs
    obtain ⟨a, hresult, hqueue, hrows, hposts, hkept⟩ := enqueuePending_returns s.1 _ s rfl hmeets
    refine ⟨a, hresult, new, ⟨hinserted.subscribed, hinserted.fresh, ?_⟩, ?_, ?_, ?_⟩
    · rw [hrows]
      exact hinserted.rows
    · rw [hqueue, hw]
    · rw [hposts, hw]
    · rw [hw] at hkept
      exact ⟨hkept.subscriptions, hkept.eventType⟩

end Dispatch

/-! ### Whole calls -/

section Whole

variable {cfg : Config} {w w' : World} {script : Script} {receiver : Receiver}
  {r : WebhookDeliveryEntity} {delivered : Bool} {p : DeliveryPatch}

/-- **A dispatch of an event that exists**, from its start to its end. -/
theorem perform_dispatch (cfg : Config) {e : Uuid} {event : OutboxEventEntity}
    (hevent : w.outboxEvents.find? e = some event)
    (hmeets : (dispatchOutboxEvent e).Meets (scripted script)
      (fun c s => Resolves (script s.2) c s.1) (w, 0)) :
    ∃ new, Supplied event new w (perform cfg w (.dispatch e, script)) := by
  obtain ⟨_, -, hsupplied⟩ := dispatchOutboxEvent_returns hevent (w, 0) rfl hmeets
  exact hsupplied

/-- **A worker that has taken a job of a PENDING delivery**, to its end. -/
theorem perform_work {attempt : ℕ} {now : Time} {queue : JobQueue JobId}
    (hstart : w.queue.start? ⟨r.id, attempt⟩ now = some queue) (h : w.Attemptable r)
    (hmeets : (runJob cfg ⟨r.id, attempt⟩).Meets (scripted (receiver.script script))
      (fun c s => Resolves (receiver.script script s.2) c s.1) ({ w with queue }, 0)) :
    ∃ p w', Tallied cfg r receiver.delivered p { w with queue } w' ∧
      perform cfg w (.work ⟨r.id, attempt⟩ now, receiver.script script) =
        { w' with queue := w'.queue.complete retention ⟨r.id, attempt⟩ } := by
  have hspawn : (system cfg).spawn (.work ⟨r.id, attempt⟩ now) w = some { w with queue } := by
    show (w.queue.start? _ _).map _ = _
    rw [hstart, Option.map_some]
  have hattempt : World.Attemptable { w with queue } r :=
    ⟨h.found, h.pending, h.subscription, h.outboxEvent⟩
  obtain ⟨_, -, htallied⟩ := runJob_tallies hattempt ({ w with queue }, 0) rfl hmeets
  unfold perform
  rw [hspawn]
  exact htallied

/-- A worker that finds its job gone or not due does nothing. -/
theorem perform_work_none {job : JobId} {now : Time} (h : w.queue.start? job now = none) :
    perform cfg w (.work job now, script) = w := by
  have hspawn : (system cfg).spawn (.work job now) w = none := by
    show (w.queue.start? _ _).map _ = _
    rw [h, Option.map_none]
  unfold perform
  rw [hspawn]

/-! The jobs after an attempt is recorded. -/

theorem Tallied.finished (h : Tallied cfg r delivered p w w') (j : JobId) :
    w'.queue.Finished j ↔ w.queue.Finished j := by
  by_cases hp : p.status = .pending
  · obtain ⟨state, -, hqueue⟩ := h.again hp
    rw [hqueue]
    exact JobQueue.finished_add state
  · rw [h.ended hp]

theorem Tallied.isLive (h : Tallied cfg r delivered p w w')
    (hnew : ¬ w.queue.Finished ⟨r.id, p.attemptCount + 1⟩) (j : JobId) :
    w'.queue.IsLive j ↔
      w.queue.IsLive j ∨ p.status = .pending ∧ j = ⟨r.id, p.attemptCount + 1⟩ := by
  by_cases hp : p.status = .pending
  · obtain ⟨state, -, hqueue⟩ := h.again hp
    rw [hqueue, JobQueue.isLive_add]
    simp only [hp, hnew, not_false_eq_true, and_true, true_and]
  · simp only [h.ended hp, hp, false_and, or_false]

theorem Tallied.mem_live (h : Tallied cfg r delivered p w w') {job : LiveJob JobId}
    (hjob : job ∈ w'.queue.live) :
    job ∈ w.queue.live ∨ job.state ≠ .active ∧ job.id.deliveryId = r.id := by
  by_cases hp : p.status = .pending
  · obtain ⟨state, hstate, hqueue⟩ := h.again hp
    rw [hqueue] at hjob
    rcases JobQueue.mem_live_add hjob with hold | rfl
    · exact Or.inl hold
    · exact Or.inr ⟨hstate, rfl⟩
  · rw [h.ended hp] at hjob
    exact Or.inl hjob

end Whole

end Webhooks
end LedgerEngine
