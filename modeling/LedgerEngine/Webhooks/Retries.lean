/-
# The retries of an event's deliveries

An event is dispatched; then its jobs are run one at a time, in any order, with stale
dispatches of the event in between, and no call to the database or the queue fails
(`Move`, `Episode`).  Beside the world an episode records, newest first, each attempt
and whether the receiver answered it with a 2xx status.

The outcomes of the attempts at one delivery are a course of `LedgerEngine.Common.Retry`
and determine its row and its job (`OnCourse`): the status is the `verdict` on them, and
a PENDING delivery has the job of its next attempt and no other.  So a dispatch after
the first one changes neither deliveries nor jobs (`Underway.dispatch`), a job makes one
attempt (`Underway.work`), and `n` deliveries take at most `n` times the limit of them
(`retries_conform`).
-/

import LedgerEngine.Common.Retry
import LedgerEngine.Webhooks.Attempts
import LedgerEngine.Webhooks.Finality

namespace LedgerEngine
namespace Webhooks

open Retry (outcomesOf Course Open)

/-! ### Episodes -/

/-- What happens to the event: it is dispatched, or a worker takes a job, if it is due,
and the receiver answers its POST. -/
inductive Move : Type
  | dispatch (script : Script)
  | work (job : JobId) (now : Time) (receiver : Receiver) (script : Script)

/-- The whole call of a move. -/
def Move.call (e : Uuid) : Move → Call × Script
  | .dispatch script => (.dispatch e, script)
  | .work job now receiver script => (.work job now, receiver.script script)

/-- The world, and newest first the attempts: at which delivery, and whether it was
answered with a 2xx status. -/
structure Episode where
  world : World
  attempts : List (Uuid × Bool)

/-- One move. -/
def Episode.move (cfg : Config) (e : Uuid) (E : Episode) (m : Move) : Episode where
  world := perform cfg E.world (m.call e)
  attempts :=
    match m with
    | .dispatch _ => E.attempts
    | .work job now receiver _ =>
        if (E.world.queue.start? job now).isSome then
          (job.deliveryId, receiver.delivered) :: E.attempts
        else E.attempts

/-- One move after the other. -/
def Episode.run (cfg : Config) (e : Uuid) (E : Episode) (moves : List Move) : Episode :=
  moves.foldl (Episode.move cfg e) E

/-- No call to the database or the queue fails in any of the moves. -/
def Smooth (cfg : Config) (e : Uuid) (w : World) (moves : List Move) : Prop :=
  AllMeet cfg (fun _ => Resolves) w (moves.map (Move.call e))

instance (cfg : Config) (e : Uuid) (w : World) (moves : List Move) :
    Decidable (Smooth cfg e w moves) :=
  inferInstanceAs (Decidable (AllMeet ..))

/-- The event has no delivery, no job is live, and the jobs that are remembered and the
POSTs that were made are of deliveries that exist. -/
structure World.Undispatched (w : World) (e : Uuid) : Prop where
  none : w.deliveriesOf e = []
  idle : w.queue.live = []
  finished : ∀ job, w.queue.Finished job → (w.deliveries.find? job.deliveryId).isSome = true
  posted : ∀ post ∈ w.posts, (w.deliveries.find? post.1).isSome = true

/-- The ids of the live jobs of a delivery. -/
def World.jobsOf (w : World) (d : Uuid) : List JobId :=
  (w.queue.live.map LiveJob.id).filter fun job => job.deliveryId = d

/-- **What the retries of an event keep to** between any two moves.  The event has `n`
deliveries; `attempts` are those that were made at them. -/
structure Conforms (cfg : Config) (e : Uuid) (n : ℕ) (E : Episode) : Prop where
  deliveries : (E.world.deliveriesOf e).length = n
  /-- The attempts are counted, and there are at most as many as there may be. -/
  counted : ∀ r ∈ E.world.deliveriesOf e,
    r.attemptCount = (E.world.postsFor r.id).length ∧ r.attemptCount ≤ cfg.webhookMaxAttempts
  /-- A PENDING delivery has the job of its next attempt, a terminal one has none. -/
  jobs : ∀ r ∈ E.world.deliveriesOf e,
    E.world.jobsOf r.id = if r.status = .pending then [⟨r.id, r.attemptCount + 1⟩] else []
  /-- It is SUCCESS once an attempt was answered with a 2xx status. -/
  success : ∀ r ∈ E.world.deliveriesOf e, r.status = .success ↔ true ∈ outcomesOf E.attempts r.id
  /-- It is FAILED once the last attempt there may be has failed. -/
  failed : ∀ r ∈ E.world.deliveriesOf e,
    r.status = .failed ↔ (outcomesOf E.attempts r.id).count false = cfg.webhookMaxAttempts
  due : ∀ r ∈ E.world.deliveriesOf e, r.nextRetryAt = none ↔ r.status ≠ .pending
  /-- Each live job can be taken some time. -/
  startable : ∀ job ∈ E.world.queue.live, ∃ now, (E.world.queue.start? job.id now).isSome = true
  bounded : E.attempts.length ≤ n * cfg.webhookMaxAttempts
  /-- While a job is live, an attempt is left. -/
  unfinished : E.world.queue.live ≠ [] → E.attempts.length < n * cfg.webhookMaxAttempts

/-! ### One delivery -/

/-- The status of a delivery whose attempts had these outcomes. -/
def verdict (limit : ℕ) (outcomes : List Bool) : WebhookDeliveryStatus :=
  if true ∈ outcomes then .success
  else if outcomes.length < limit then .pending else .failed

/-- The attempts at a delivery had these outcomes; its row and its job say so. -/
structure OnCourse (cfg : Config) (outcomes : List Bool) (w : World) (r : WebhookDeliveryEntity) :
    Prop where
  course : Course cfg.webhookMaxAttempts outcomes
  count : r.attemptCount = outcomes.length
  status : r.status = verdict cfg.webhookMaxAttempts outcomes
  due : r.nextRetryAt = none ↔ r.status ≠ .pending
  posts : (w.postsFor r.id).length = r.attemptCount
  live : ∀ k, w.queue.IsLive ⟨r.id, k⟩ ↔ r.status = .pending ∧ k = r.attemptCount + 1
  finished : ∀ k, w.queue.Finished ⟨r.id, k⟩ → k ≤ r.attemptCount

section Course

variable {cfg : Config} {limit : ℕ} {outcomes : List Bool} {w w' : World}
  {r x : WebhookDeliveryEntity} {delivered : Bool} {p : DeliveryPatch}

theorem verdict_eq_pending : verdict limit outcomes = .pending ↔ Open limit outcomes := by
  unfold verdict Open
  split_ifs <;> simp_all

theorem verdict_eq_success : verdict limit outcomes = .success ↔ true ∈ outcomes := by
  unfold verdict
  split_ifs <;> simp_all

theorem verdict_eq_failed : verdict limit outcomes = .failed ↔
    true ∉ outcomes ∧ ¬ outcomes.length < limit := by
  unfold verdict
  split_ifs <;> simp_all

/-- What an attempt makes of the verdict. -/
theorem verdict_cons (h : Open cfg.webhookMaxAttempts outcomes) (delivered : Bool) :
    verdict cfg.webhookMaxAttempts (delivered :: outcomes) =
      statusAfter cfg (outcomes.length + 1) delivered := by
  unfold verdict statusAfter
  cases delivered with
  | true => simp
  | false => simp [h.1]

/-- A delivery that was just created. -/
theorem OnCourse.fresh {e : Uuid} (hmax : 0 < cfg.webhookMaxAttempts) (h : r.Fresh e)
    (hposts : w.postsFor r.id = []) (hlive : ∀ k, w.queue.IsLive ⟨r.id, k⟩ ↔ k = 1)
    (hfinished : ∀ k, ¬ w.queue.Finished ⟨r.id, k⟩) : OnCourse cfg [] w r where
  course := trivial
  count := h.count
  status := h.pending.trans (verdict_eq_pending.2 ⟨List.not_mem_nil, hmax⟩).symm
  due := ⟨fun hdue => absurd hdue h.due, fun hs => absurd h.pending hs⟩
  posts := by rw [hposts, h.count, List.length_nil]
  live k := by rw [hlive, h.count, and_iff_right h.pending]
  finished k hk := absurd hk (hfinished k)

/-- A delivery that nothing has happened to. -/
theorem OnCourse.mono (h : OnCourse cfg outcomes w x)
    (hposts : w'.postsFor x.id = w.postsFor x.id)
    (hlive : ∀ k, w'.queue.IsLive ⟨x.id, k⟩ ↔ w.queue.IsLive ⟨x.id, k⟩)
    (hfinished : ∀ k, w'.queue.Finished ⟨x.id, k⟩ → w.queue.Finished ⟨x.id, k⟩) :
    OnCourse cfg outcomes w' x where
  course := h.course
  count := h.count
  status := h.status
  due := h.due
  posts := hposts ▸ h.posts
  live k := (hlive k).trans (h.live k)
  finished k hk := h.finished k (hfinished k hk)

/-- The world after the attempt of a PENDING delivery. -/
theorem Tallied.isLive_complete (h : Tallied cfg r delivered p w w')
    (hr : OnCourse cfg outcomes w r) (j : JobId) :
    (w'.queue.complete retention r.nextJob).IsLive j ↔
      (w.queue.IsLive j ∨ p.status = .pending ∧ j = ⟨r.id, p.attemptCount + 1⟩) ∧
        j ≠ r.nextJob := by
  have hnew : ¬ w.queue.Finished ⟨r.id, p.attemptCount + 1⟩ := fun hfinished => by
    have hle := hr.finished _ hfinished
    have hcount := h.count
    omega
  rw [JobQueue.isLive_complete, h.isLive hnew]

/-- **The attempt of a delivery is the next step of its course.** -/
theorem OnCourse.attempt (hr : OnCourse cfg outcomes w r) (hs : r.status = .pending)
    (h : Tallied cfg r delivered p w w') (now : Time) :
    OnCourse cfg (delivered :: outcomes)
      { w' with queue := w'.queue.complete retention r.nextJob } (p.apply now r) := by
  have hopen : Open cfg.webhookMaxAttempts outcomes := verdict_eq_pending.1 (hr.status ▸ hs)
  have hcount : p.attemptCount = outcomes.length + 1 := by rw [h.count, hr.count]
  obtain ⟨t, hposts⟩ := h.posts
  refine ⟨⟨hopen, hr.course⟩, hcount, ?_, h.due, ?_, fun k => ?_, fun k hk => ?_⟩
  · show p.status = _
    rw [verdict_cons hopen, h.status, hcount]
  · show (List.filter _ w'.posts).length = p.attemptCount
    rw [hposts, List.filter_cons_of_pos (by simp [DeliveryPatch.apply]), List.length_cons, h.count]
    exact congrArg (· + 1) hr.posts
  · refine (h.isLive_complete hr _).trans ?_
    have hid : (p.apply now r).id = r.id := rfl
    have hnext : (p.apply now r).attemptCount = p.attemptCount := rfl
    have hagain : (p.apply now r).status = p.status := rfl
    have hk : (⟨r.id, k⟩ : JobId) = r.nextJob ↔ k = r.attemptCount + 1 := by
      simp [WebhookDeliveryEntity.nextJob]
    have hk' : (⟨r.id, k⟩ : JobId) = ⟨r.id, p.attemptCount + 1⟩ ↔ k = p.attemptCount + 1 := by
      simp
    rw [hid, hnext, hagain, hr.live, Ne, hk, hk', h.count]
    constructor
    · rintro ⟨⟨-, heq⟩ | hnext, hne⟩
      · exact absurd heq hne
      · exact hnext
    · rintro ⟨hp, rfl⟩
      exact ⟨Or.inr ⟨hp, rfl⟩, by omega⟩
  · show k ≤ p.attemptCount
    rcases JobQueue.finished_complete hk with hold | heq
    · have hle := hr.finished k ((h.finished _).1 hold)
      have hcount := h.count
      omega
    · obtain ⟨-, rfl⟩ := JobId.mk.inj heq
      rw [h.count]

/-- The attempt of one delivery leaves the others alone. -/
theorem OnCourse.other {others : List Bool} (hx : OnCourse cfg others w x) (hne : x.id ≠ r.id)
    (hr : OnCourse cfg outcomes w r) (h : Tallied cfg r delivered p w w') :
    OnCourse cfg others { w' with queue := w'.queue.complete retention r.nextJob } x := by
  obtain ⟨t, hposts⟩ := h.posts
  refine hx.mono ?_ (fun k => ?_) fun k hk => ?_
  · show List.filter _ w'.posts = _
    rw [hposts, List.filter_cons_of_neg (by simpa using Ne.symm hne)]
    rfl
  · refine (h.isLive_complete hr _).trans ?_
    simp [WebhookDeliveryEntity.nextJob, hne]
  · rcases JobQueue.finished_complete hk with hold | heq
    · exact (h.finished _).1 hold
    · exact absurd (congrArg JobId.deliveryId heq) hne

end Course

/-! ### All deliveries of the event -/

/-- The event has been dispatched: each of these subscriptions has its delivery, each
delivery is on course, and all live jobs and all attempts are of these deliveries. -/
structure Underway (cfg : Config) (e : Uuid) (subscriptions : List WebhookSubscriptionEntity)
    (E : Episode) : Prop where
  matching : ∃ event, E.world.outboxEvents.find? e = some event ∧
    E.world.matching event = subscriptions
  subscribed : (E.world.deliveriesOf e).map (·.webhookSubscriptionId) = subscriptions.map (·.id)
  courses : ∀ r ∈ E.world.deliveriesOf e, OnCourse cfg (outcomesOf E.attempts r.id) E.world r
  jobs : ∀ job ∈ E.world.queue.live, job.state ≠ .active ∧
    ∃ r ∈ E.world.deliveriesOf e, r.id = job.id.deliveryId
  attempted : ∀ a ∈ E.attempts, ∃ r ∈ E.world.deliveriesOf e, r.id = a.1

section Underway

variable {cfg : Config} {e : Uuid} {subscriptions : List WebhookSubscriptionEntity} {E : Episode}
  {w w' : World} {event : OutboxEventEntity} {new : List WebhookDeliveryEntity}

theorem World.Kept.matching (h : w.Kept w') (hevent : w.outboxEvents.find? e = some event) :
    ∃ event', w'.outboxEvents.find? e = some event' ∧ w'.matching event' = w.matching event := by
  have htype := h.eventType e
  rw [hevent] at htype
  obtain ⟨event', hevent', heq⟩ := Option.map_eq_some_iff.1 htype
  refine ⟨event', hevent', ?_⟩
  unfold World.matching
  rw [h.subscriptions, heq]

/-- A subscription with a delivery is not missing. -/
theorem missingSubscriptions_eq_nil {existing : List WebhookDeliveryEntity}
    (h : existing.map (·.webhookSubscriptionId) = subscriptions.map (·.id)) :
    missingSubscriptions subscriptions existing = [] := by
  unfold missingSubscriptions
  rw [h]
  exact List.filter_eq_nil_iff.2 fun s hs => by simpa using ⟨s, hs, rfl⟩

/-- **The first dispatch** creates the deliveries and their first jobs. -/
theorem Supplied.underway (hmax : 0 < cfg.webhookMaxAttempts)
    (hevent : w.outboxEvents.find? event.id = some event) (hw : w.Undispatched event.id)
    (h : Supplied event new w w') :
    Underway cfg event.id (w.matching event) ⟨w', []⟩ := by
  have hfree {r : WebhookDeliveryEntity} (hr : r ∈ new) : w.deliveries.find? r.id = none :=
    IndexedTable.find?_of_insertAll h.inserted.rows hr
  have hrows : w'.deliveriesOf event.id = new := by
    unfold World.deliveriesOf
    rw [IndexedTable.rows_insertAll h.inserted.rows, List.filter_append]
    have hnew : (new.filter fun d => d.outboxEventId = event.id) = new :=
      List.filter_eq_self.2 fun r hr => decide_eq_true (h.inserted.fresh r hr).event
    rw [hnew]
    exact congrArg (· ++ new) hw.none
  have hpending : pendingOf (w.deliveriesOf event.id ++ new) = new := by
    rw [hw.none, List.nil_append]
    exact List.filter_eq_self.2 fun r hr => decide_eq_true (h.inserted.fresh r hr).pending
  have hqueue := h.queue
  rw [hpending] at hqueue
  have hunfinished {r : WebhookDeliveryEntity} (hr : r ∈ new) (k : ℕ) :
      ¬ w.queue.Finished ⟨r.id, k⟩ := fun hfinished => by
    have hsome := hw.finished _ hfinished
    rw [hfree hr] at hsome
    exact absurd hsome Bool.false_ne_true
  refine ⟨h.kept.matching hevent, ?_, fun r hr => ?_, fun job hjob => ?_,
    fun a ha => absurd ha List.not_mem_nil⟩
  · show (w'.deliveriesOf event.id).map _ = _
    rw [hrows, h.inserted.subscribed, hw.none]
    simp [missingSubscriptions]
  · replace hr : r ∈ new := hrows ▸ hr
    refine OnCourse.fresh hmax (h.inserted.fresh r hr) ?_ (fun k => ?_) fun k => ?_
    · show List.filter _ w'.posts = []
      rw [h.posts]
      refine List.filter_eq_nil_iff.2 fun post hpost hid => ?_
      have hsome := hw.posted post hpost
      rw [of_decide_eq_true hid, hfree hr] at hsome
      exact absurd hsome Bool.false_ne_true
    · show w'.queue.IsLive _ ↔ _
      rw [hqueue, JobQueue.isLive_addAll, JobQueue.IsLive, hw.idle]
      constructor
      · rintro (hlive | ⟨hnext, -⟩)
        · exact absurd hlive List.not_mem_nil
        · obtain ⟨x, hx, heq⟩ := List.mem_map.1 hnext
          obtain ⟨-, hk⟩ := JobId.mk.inj heq
          rw [← hk, (h.inserted.fresh x hx).count]
      · rintro rfl
        refine Or.inr ⟨List.mem_map.2 ⟨r, hr, ?_⟩, hunfinished hr 1⟩
        rw [WebhookDeliveryEntity.nextJob, (h.inserted.fresh r hr).count]
    · show ¬ w'.queue.Finished _
      rw [hqueue, JobQueue.finished_addAll]
      exact hunfinished hr k
  · replace hjob : job ∈ w'.queue.live := hjob
    rw [hqueue] at hjob
    rcases JobQueue.mem_live_addAll hjob with hold | ⟨hnext, hstate⟩
    · rw [hw.idle] at hold
      exact absurd hold List.not_mem_nil
    · obtain ⟨r, hr, heq⟩ := List.mem_map.1 hnext
      exact ⟨by simp [hstate], r, hrows.symm ▸ hr, congrArg JobId.deliveryId heq⟩

/-- **A stale dispatch changes neither the deliveries nor the jobs.** -/
theorem Supplied.same (hE : Underway cfg event.id subscriptions E)
    (hmatching : E.world.matching event = subscriptions) (h : Supplied event new E.world w') :
    w'.deliveries = E.world.deliveries ∧ w'.queue = E.world.queue := by
  have hmissing := missingSubscriptions_eq_nil hE.subscribed
  have hsubscribed := h.inserted.subscribed
  rw [hmatching, hmissing] at hsubscribed
  obtain rfl : new = [] := List.map_eq_nil_iff.1 hsubscribed
  refine ⟨(Option.some.inj h.inserted.rows).symm, ?_⟩
  rw [h.queue, List.append_nil]
  -- each PENDING delivery has the job it is enqueued for
  refine JobQueue.addAll_of_has fun job hjob => ?_
  obtain ⟨r, hr, rfl⟩ := List.mem_map.1 hjob
  obtain ⟨hr, hs⟩ := List.mem_filter.1 hr
  exact Or.inl (((hE.courses r hr).live _).2 ⟨of_decide_eq_true hs, rfl⟩)

/-- A call that changes neither the deliveries nor the jobs, and makes no POST. -/
theorem Underway.idle (hE : Underway cfg e subscriptions E)
    (hdeliveries : w'.deliveries = E.world.deliveries) (hqueue : w'.queue = E.world.queue)
    (hposts : w'.posts = E.world.posts) (hkept : E.world.Kept w') :
    Underway cfg e subscriptions ⟨w', E.attempts⟩ := by
  obtain ⟨event, hevent, hmatching⟩ := hE.matching
  obtain ⟨event', hevent', hmatching'⟩ := hkept.matching hevent
  have hrows : w'.deliveriesOf e = E.world.deliveriesOf e := by
    unfold World.deliveriesOf
    rw [hdeliveries]
  refine ⟨⟨event', hevent', hmatching'.trans hmatching⟩, ?_, fun r hr => ?_, fun job hjob => ?_,
    fun a ha => ?_⟩
  · exact (congrArg _ hrows).trans hE.subscribed
  · refine (hE.courses r (hrows ▸ hr)).mono (congrArg (List.filter _) hposts) (fun k => ?_)
      fun k hk => ?_
    · rw [hqueue]
    · rwa [hqueue] at hk
  · obtain ⟨hstate, r, hr, hid⟩ := hE.jobs job (hqueue ▸ hjob)
    exact ⟨hstate, r, hrows.symm ▸ hr, hid⟩
  · obtain ⟨r, hr, hid⟩ := hE.attempted a ha
    exact ⟨r, hrows.symm ▸ hr, hid⟩

theorem Underway.dispatch {script : Script} (hE : Underway cfg e subscriptions E)
    (hmeets : (dispatchOutboxEvent e).Meets (scripted script)
      (fun c s => Resolves (script s.2) c s.1) (E.world, 0)) :
    Underway cfg e subscriptions (E.move cfg e (.dispatch script)) := by
  obtain ⟨event, hevent, hmatching⟩ := hE.matching
  obtain rfl : event.id = e := (Table.find?_eq_some hevent).2
  obtain ⟨new, hsupplied⟩ := perform_dispatch cfg hevent hmeets
  obtain ⟨hdeliveries, hqueue⟩ := hsupplied.same hE hmatching
  exact hE.idle hdeliveries hqueue hsupplied.posts hsupplied.kept

/-- A live job is that of the next attempt at a PENDING delivery of the event. -/
theorem Underway.job (hE : Underway cfg e subscriptions E) {job : JobId}
    (hjob : E.world.queue.IsLive job) :
    ∃ r ∈ E.world.deliveriesOf e, r.status = .pending ∧ job = r.nextJob := by
  obtain ⟨job', hjob', rfl⟩ := List.mem_map.1 hjob
  obtain ⟨-, r, hr, hid⟩ := hE.jobs job' hjob'
  have hsame : job'.id = ⟨r.id, job'.id.attempt⟩ := by rw [hid]
  rw [hsame] at hjob
  obtain ⟨hs, hattempt⟩ := ((hE.courses r hr).live _).1 hjob
  refine ⟨r, hr, hs, ?_⟩
  rw [hsame, hattempt]
  rfl

/-- A delivery that is PENDING can be attempted. -/
theorem Underway.attemptable (hE : Underway cfg e subscriptions E) {r : WebhookDeliveryEntity}
    (hr : r ∈ E.world.deliveriesOf e) (hs : r.status = .pending) : E.world.Attemptable r := by
  obtain ⟨event, hevent, rfl⟩ := hE.matching
  obtain ⟨hmem, he⟩ := List.mem_filter.1 hr
  refine ⟨Table.find?_key hmem, hs, ?_, ?_⟩
  · have hsubscribed : r.webhookSubscriptionId ∈ (E.world.matching event).map (·.id) :=
      hE.subscribed ▸ List.mem_map_of_mem hr
    obtain ⟨s, hmatch, hid⟩ := List.mem_map.1 hsubscribed
    have hfind : E.world.subscriptions.find? s.id = some s :=
      Table.find?_key (List.mem_filter.1 hmatch).1
    rw [← hid, hfind]
    rfl
  · rw [of_decide_eq_true he, hevent]
    rfl

/-- **A job makes the next attempt at its delivery.** -/
theorem Underway.tallied (hE : Underway cfg e subscriptions E) {r : WebhookDeliveryEntity}
    {delivered : Bool} {p : DeliveryPatch} {queue : JobQueue JobId} {now : Time}
    (hr : r ∈ E.world.deliveriesOf e) (hs : r.status = .pending)
    (hstart : E.world.queue.start? r.nextJob now = some queue)
    (h : Tallied cfg r delivered p { E.world with queue } w') :
    Underway cfg e subscriptions
      ⟨{ w' with queue := w'.queue.complete retention r.nextJob },
        (r.id, delivered) :: E.attempts⟩ := by
  obtain ⟨event, hevent, hmatching⟩ := hE.matching
  obtain ⟨event', hevent', hmatching'⟩ := h.kept.matching hevent
  obtain ⟨now', hdeliveries⟩ := h.deliveries
  obtain ⟨-, hlive, hfinished⟩ := JobQueue.start?_eq_some hstart
  obtain ⟨-, hactive⟩ := JobQueue.live_start? hstart
  have hfind : E.world.deliveries.find? r.id = some r := Table.find?_key (List.mem_filter.1 hr).1
  have hstarted {x : WebhookDeliveryEntity} (hx : x ∈ E.world.deliveriesOf e) :
      OnCourse cfg (outcomesOf E.attempts x.id) { E.world with queue } x :=
    (hE.courses x hx).mono rfl (fun k => hlive _) fun k => (hfinished _).1
  have hrows : w'.deliveriesOf e =
      (E.world.deliveriesOf e).map (IndexedTable.changed r.id (p.change now')) := by
    rw [← deliveriesOf_update, World.deliveriesOf, hdeliveries]
  have hrow {id : Uuid} (hid : ∃ x ∈ E.world.deliveriesOf e, x.id = id) :
      ∃ x ∈ w'.deliveriesOf e, x.id = id := by
    obtain ⟨x, hx, rfl⟩ := hid
    exact ⟨_, hrows.symm ▸ List.mem_map_of_mem hx, IndexedTable.key_changed r.id _ x⟩
  refine ⟨⟨event', hevent', hmatching'.trans hmatching⟩, ?_, fun x hx => ?_, fun job hjob => ?_,
    fun a ha => hrow ?_⟩
  · show (w'.deliveriesOf e).map _ = _
    rw [hrows, List.map_map, ← hE.subscribed]
    refine List.map_congr_left fun x _ => ?_
    show (IndexedTable.changed r.id (p.change now') x).webhookSubscriptionId = _
    unfold IndexedTable.changed
    split_ifs <;> rfl
  · replace hx : x ∈ w'.deliveriesOf e := hx
    rw [hrows] at hx
    obtain ⟨y, hy, rfl⟩ := List.mem_map.1 hx
    by_cases hid : y.id = r.id
    · obtain ⟨rfl, -⟩ := eq_of_mem_deliveriesOf hfind hy hid
      have hchanged : IndexedTable.changed y.id (p.change now') y = p.apply now' y :=
        IndexedTable.changed_of_eq rfl _
      rw [hchanged]
      show OnCourse cfg (outcomesOf ((y.id, delivered) :: E.attempts) y.id) _ _
      rw [Retry.outcomesOf_cons_self]
      exact (hstarted hy).attempt hs h now'
    · rw [IndexedTable.changed_of_ne hid]
      show OnCourse cfg (outcomesOf ((r.id, delivered) :: E.attempts) y.id) _ _
      rw [Retry.outcomesOf_cons_of_ne (Ne.symm hid)]
      exact (hstarted hy).other hid (hstarted hr) h
  · obtain ⟨hjob, hne⟩ := List.mem_filter.1 hjob
    rcases h.mem_live hjob with hold | ⟨hstate, hid⟩
    · replace hold : job ∈ queue.live := hold
      rw [hactive] at hold
      obtain ⟨job, hjob', rfl⟩ := List.mem_map.1 hold
      split_ifs at hne ⊢ with hsame
      · exact absurd hsame (of_decide_eq_true hne)
      · exact ⟨(hE.jobs job hjob').1, hrow (hE.jobs job hjob').2⟩
    · exact ⟨hstate, hrow ⟨r, hr, hid.symm⟩⟩
  · rcases List.mem_cons.1 ha with rfl | ha
    · exact ⟨r, hr, rfl⟩
    · exact hE.attempted a ha

theorem Underway.work {job : JobId} {now : Time} {receiver : Receiver} {script : Script}
    (hE : Underway cfg e subscriptions E)
    (hmeets : ∀ w' ∈ (system cfg).spawn (.work job now) E.world,
      (runJob cfg job).Meets (scripted (receiver.script script))
        (fun c s => Resolves (receiver.script script s.2) c s.1) (w', 0)) :
    Underway cfg e subscriptions (E.move cfg e (.work job now receiver script)) := by
  unfold Episode.move
  dsimp only [Move.call]
  cases hstart : E.world.queue.start? job now with
  | none =>
      rw [perform_work_none hstart]
      exact hE
  | some queue =>
      obtain ⟨r, hr, hs, rfl⟩ := hE.job (JobQueue.start?_eq_some hstart).1
      have hspawn : (system cfg).spawn (.work r.nextJob now) E.world =
          some { E.world with queue } := by
        show (E.world.queue.start? _ _).map _ = _
        rw [hstart, Option.map_some]
      obtain ⟨p, w', htallied, hperform⟩ :=
        perform_work hstart (hE.attemptable hr hs) (hmeets _ hspawn)
      replace hperform : perform cfg E.world (.work r.nextJob now, receiver.script script) = _ :=
        hperform
      rw [hperform]
      exact hE.tallied hr hs hstart htallied

/-- The jobs of a delivery that is on course. -/
theorem OnCourse.jobsOf {outcomes : List Bool} {r : WebhookDeliveryEntity}
    (h : OnCourse cfg outcomes w r) :
    w.jobsOf r.id = if r.status = .pending then [⟨r.id, r.attemptCount + 1⟩] else [] := by
  have hmem (job : JobId) : job ∈ w.jobsOf r.id ↔ r.status = .pending ∧ job = r.nextJob := by
    obtain ⟨d, k⟩ := job
    unfold World.jobsOf
    rw [List.mem_filter, decide_eq_true_eq]
    constructor
    · rintro ⟨hlive, rfl⟩
      obtain ⟨hs, rfl⟩ := (h.live k).1 hlive
      exact ⟨hs, rfl⟩
    · rintro ⟨hs, heq⟩
      obtain ⟨rfl, rfl⟩ := JobId.mk.inj heq
      exact ⟨(h.live _).2 ⟨hs, rfl⟩, rfl⟩
  split_ifs with hs
  · have hnodup : (w.jobsOf r.id).Nodup := w.queue.nodup.sublist List.filter_sublist
    refine List.perm_singleton.1 ((List.perm_ext_iff_of_nodup hnodup (List.nodup_singleton _)).2
      fun job => ?_)
    rw [hmem, and_iff_right hs, List.mem_singleton]
    rfl
  · exact List.eq_nil_iff_forall_not_mem.2 fun job hjob => hs ((hmem job).1 hjob).1

/-- **What holds of an event that is under way.** -/
theorem Underway.conforms (hE : Underway cfg e subscriptions E) :
    Conforms cfg e subscriptions.length E := by
  have hlength : (E.world.deliveriesOf e).length = subscriptions.length := by
    rw [← List.length_map (f := fun r : WebhookDeliveryEntity => r.webhookSubscriptionId),
      hE.subscribed, List.length_map]
  let tasks : Finset Uuid := ((E.world.deliveriesOf e).map (·.id)).toFinset
  have htasks {d : Uuid} : d ∈ tasks ↔ ∃ r ∈ E.world.deliveriesOf e, r.id = d := by
    simp [tasks]
  have hcard : tasks.card * cfg.webhookMaxAttempts ≤
      subscriptions.length * cfg.webhookMaxAttempts := by
    refine Nat.mul_le_mul_right _ ((List.toFinset_card_le _).trans ?_)
    rw [List.length_map, hlength]
  have hattempted : ∀ a ∈ E.attempts, a.1 ∈ tasks := fun a ha => htasks.2 (hE.attempted a ha)
  have hcourse : ∀ d ∈ tasks, Course cfg.webhookMaxAttempts (outcomesOf E.attempts d) := by
    intro d hd
    obtain ⟨r, hr, rfl⟩ := htasks.1 hd
    exact (hE.courses r hr).course
  constructor
  case deliveries => exact hlength
  case counted =>
    intro r hr
    have h := hE.courses r hr
    exact ⟨h.posts.symm, h.count ▸ h.course.length_le⟩
  case jobs => exact fun r hr => (hE.courses r hr).jobsOf
  case success =>
    intro r hr
    rw [(hE.courses r hr).status]
    exact verdict_eq_success
  case failed =>
    intro r hr
    have h := hE.courses r hr
    rw [h.status, h.course.count_false_iff]
    exact verdict_eq_failed
  case due => exact fun r hr => (hE.courses r hr).due
  case startable =>
    intro job hjob
    obtain ⟨now, hready⟩ := JobState.exists_ready (hE.jobs job hjob).1
    exact ⟨now, JobQueue.start?_isSome hjob hready⟩
  case bounded => exact (Retry.length_le hattempted hcourse).trans hcard
  case unfinished =>
    intro hlive
    obtain ⟨job, hjob⟩ := List.exists_mem_of_ne_nil _ hlive
    obtain ⟨r, hr, hs, -⟩ := hE.job (List.mem_map_of_mem hjob)
    have hopen : Open cfg.webhookMaxAttempts (outcomesOf E.attempts r.id) :=
      verdict_eq_pending.1 ((hE.courses r hr).status ▸ hs)
    exact (Retry.length_lt hattempted hcourse (htasks.2 ⟨r, hr, rfl⟩) hopen).trans_le hcard

/-! ### Runs -/

/-- **One move keeps an event under way.** -/
theorem Underway.move (hE : Underway cfg e subscriptions E) (m : Move)
    (hmeets : ∀ w' ∈ (system cfg).spawn (m.call e).1 E.world,
      ((system cfg).body (m.call e).1).Meets (scripted (m.call e).2)
        (fun c s => Resolves ((m.call e).2 s.2) c s.1) (w', 0)) :
    Underway cfg e subscriptions (E.move cfg e m) := by
  cases m with
  | dispatch script => exact hE.dispatch (hmeets _ rfl)
  | work job now receiver script => exact hE.work hmeets

/-- Any number of moves do. -/
theorem underway_run (hE : Underway cfg e subscriptions E) (moves : List Move)
    (h : Smooth cfg e E.world moves) : Underway cfg e subscriptions (E.run cfg e moves) := by
  induction moves generalizing E with
  | nil => exact hE
  | cons m moves ih => exact ih (hE.move m h.1) h.2

/-- **The retries of an event.**  An event without deliveries is dispatched; then its
jobs are run one at a time, in any order and with any answers of the receivers, with
dispatches of the event in between, and no call to the database or the queue fails.
After each of these moves its deliveries, one for each matching subscription, and their
jobs are as `Conforms` says. -/
theorem retries_conform (cfg : Config) (hmax : 0 < cfg.webhookMaxAttempts) (w : World)
    (event : OutboxEventEntity) (hevent : w.outboxEvents.find? event.id = some event)
    (hw : w.Undispatched event.id) (script : Script) (moves : List Move)
    (h : Smooth cfg event.id w (.dispatch script :: moves)) :
    Conforms cfg event.id (w.matching event).length
      (Episode.run cfg event.id ⟨w, []⟩ (.dispatch script :: moves)) := by
  obtain ⟨hfirst, hmoves⟩ := h
  obtain ⟨new, hsupplied⟩ := perform_dispatch cfg hevent (hfirst _ rfl)
  exact (underway_run (hsupplied.underway hmax hevent hw) moves hmoves).conforms

end Underway

/-! ### Two deliveries whose jobs interleave -/

/-- A second subscription to the event. -/
def secondSubscription : WebhookSubscriptionEntity :=
  { sampleSubscription with id := .ofText (js "s2") }

theorem subscribedTwice_nodup : ([sampleSubscription, secondSubscription].map Keyed.key).Nodup := by
  decide

def subscribedTwice : World :=
  { undispatched with subscriptions := ⟨_, subscribedTwice_nodup⟩ }

/-- No fault; the ids are for two deliveries. -/
def drawingTwo : Draw := { drawing with ids := [sampleDelivery.id, .ofText (js "d2")] }

/-- The first attempt at each delivery is answered with 500; the event is dispatched again
before the second ones are due, which are answered with 200, that of the second delivery
first. -/
def failingOnce : List Move :=
  [.work ⟨sampleDelivery.id, 1⟩ 0 ⟨.ok 500, .ok []⟩ fun _ => drawing,
    .work ⟨.ofText (js "d2"), 1⟩ 0 ⟨.ok 500, .ok []⟩ fun _ => drawing,
    .dispatch fun _ => drawing,
    .work ⟨.ofText (js "d2"), 2⟩ 5000 ⟨.ok 200, .ok []⟩ fun _ => drawing,
    .work ⟨sampleDelivery.id, 2⟩ 5000 ⟨.ok 200, .ok []⟩ fun _ => drawing]

theorem retries_conform_failingOnce :
    Conforms sampleConfig sampleEvent.id 2
      (Episode.run sampleConfig sampleEvent.id ⟨subscribedTwice, []⟩
        (.dispatch (fun _ => drawingTwo) :: failingOnce)) :=
  retries_conform sampleConfig (by decide) subscribedTwice sampleEvent (by decide)
    ⟨rfl, rfl,
      fun _ h => by simp [subscribedTwice, undispatched, JobQueue.Finished, JobQueue.empty] at h,
      fun _ h => by simp [subscribedTwice, undispatched, sampleWorld] at h⟩
    (fun _ => drawingTwo) failingOnce (by decide)

end Webhooks
end LedgerEngine
