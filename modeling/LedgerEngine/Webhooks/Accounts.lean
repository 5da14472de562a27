/-
# What the queue knows of the deliveries

The queue remembers the ids of jobs that have finished, and a job's id is that of
its delivery with the number of an attempt.  As long as the jobs that are live are
for no later attempt than the next of their delivery, and those that are remembered
for attempts it has had (`World.Sound`), the next attempt of a PENDING delivery can
be enqueued.  Threads keep it so if outcomes are recorded in the order of the
attempts and a worker finishes its job only once it is spent; `knows_next` follows
what a thread knows of that at each stage.
-/

import LedgerEngine.Webhooks.Stages

namespace LedgerEngine
namespace Webhooks

/-- The job a worker was started for. -/
def Call.job : Call → Option JobId
  | .work job _ => some job
  | _ => none

/-- An error here ends a delivery before its attempt is recorded. -/
def Stage.decisive : Stage → Bool
  | .starting _ | .attempting .failing _ _ _ => true
  | _ => false

/-- The delivery of the job is terminal or has recorded the attempt. -/
def World.Tried (w : World) (job : JobId) : Prop :=
  ∀ r ∈ w.deliveries.find? job.deliveryId, r.status = .pending → job.attempt ≤ r.attemptCount

instance (w : World) (job : JobId) : Decidable (w.Tried job) :=
  inferInstanceAs (Decidable (∀ r ∈ w.deliveries.find? job.deliveryId, _))

/-- The highest attempt a job of the delivery can be for. -/
def WebhookDeliveryEntity.ceiling (r : WebhookDeliveryEntity) : ℕ :=
  if r.status = .pending then r.attemptCount + 1 else r.attemptCount

theorem WebhookDeliveryEntity.ceiling_of_pending {r : WebhookDeliveryEntity}
    (h : r.status = .pending) : r.ceiling = r.attemptCount + 1 := if_pos h

theorem WebhookDeliveryEntity.ceiling_of_ne {r : WebhookDeliveryEntity}
    (h : r.status ≠ .pending) : r.ceiling = r.attemptCount := if_neg h

/-- The delivery of the job exists, and the job is for no later attempt than its next. -/
def World.Known (w : World) (job : JobId) : Prop :=
  ∃ r, w.deliveries.find? job.deliveryId = some r ∧ job.attempt ≤ r.ceiling

/-- The delivery of the job has had the attempt. -/
def World.Spent (w : World) (job : JobId) : Prop :=
  ∃ r, w.deliveries.find? job.deliveryId = some r ∧ job.attempt ≤ r.attemptCount

/-- The events of the deliveries exist, and the queue does not run ahead of the
deliveries. -/
structure World.Sound (w : World) : Prop where
  event : ∀ d r, w.deliveries.find? d = some r → (w.outboxEvents.find? r.outboxEventId).isSome
  known : ∀ job, w.queue.IsLive job → w.Known job
  spent : ∀ job, w.queue.Finished job → w.Spent job

/-- No delivery is lost or taken back. -/
def World.Grows (w w' : World) : Prop :=
  ∀ d r, w.deliveries.find? d = some r → ∃ r', w'.deliveries.find? d = some r' ∧
    r.attemptCount ≤ r'.attemptCount ∧ r.ceiling ≤ r'.ceiling

section Worlds

variable {w w' : World} {job : JobId}

theorem World.Grows.of_eq (h : w'.deliveries = w.deliveries) : w.Grows w' :=
  fun _ r hr => ⟨r, h ▸ hr, le_rfl, le_rfl⟩

theorem World.Known.mono (h : w.Known job) (hgrows : w.Grows w') : w'.Known job := by
  obtain ⟨r, hr, hle⟩ := h
  obtain ⟨r', hr', -, hceiling⟩ := hgrows _ r hr
  exact ⟨r', hr', hle.trans hceiling⟩

theorem World.Spent.mono (h : w.Spent job) (hgrows : w.Grows w') : w'.Spent job := by
  obtain ⟨r, hr, hle⟩ := h
  obtain ⟨r', hr', hcount, -⟩ := hgrows _ r hr
  exact ⟨r', hr', hle.trans hcount⟩

/-- A job of a terminal delivery has been spent, one of another only once its
attempt is recorded. -/
theorem World.Known.spent (h : w.Known job) (htried : w.Tried job) : w.Spent job := by
  obtain ⟨r, hr, hle⟩ := h
  refine ⟨r, hr, ?_⟩
  by_cases hs : r.status = .pending
  · exact htried r hr hs
  · rwa [r.ceiling_of_ne hs] at hle

/-- The next attempt of a PENDING delivery has a known job. -/
theorem known_of_pending {d : Uuid} {r : WebhookDeliveryEntity}
    (hr : w.deliveries.find? d = some r) (hs : r.status = .pending) :
    w.Known ⟨d, r.attemptCount + 1⟩ :=
  ⟨r, hr, (r.ceiling_of_pending hs).ge⟩

/-- The queue does not remember a job for the next attempt of a PENDING delivery. -/
theorem World.Sound.not_finished (h : w.Sound) {d : Uuid} {r : WebhookDeliveryEntity}
    (hr : w.deliveries.find? d = some r) : ¬ w.queue.Finished ⟨d, r.attemptCount + 1⟩ := by
  intro hfinished
  obtain ⟨r', hr', hle⟩ := h.spent _ hfinished
  obtain rfl := Option.some.inj (hr.symm.trans hr')
  exact absurd hle (Nat.not_succ_le_self r.attemptCount)

/-- A world without deliveries and jobs. -/
theorem World.Sound.of_empty (hrows : w.deliveries = .empty) (hqueue : w.queue = .empty) :
    w.Sound where
  event d r hr := by
    rw [hrows] at hr
    exact absurd hr (by simp [Table.find?, IndexedTable.empty, Table.empty])
  known job h := by
    rw [hqueue] at h
    simp [JobQueue.IsLive, JobQueue.empty] at h
  spent job h := by
    rw [hqueue] at h
    simp [JobQueue.Finished, JobQueue.empty] at h

end Worlds

section Effects

variable {ω : Draw} {c : Command} {w : World}

/-- A call that records an outcome in its turn takes no delivery back. -/
theorem grows_exec (h : ∀ d p, c = .updateDelivery d p → ∀ r, w.deliveries.find? d = some r →
      r.attemptCount ≤ p.attemptCount ∧
        (r.status = .pending → p.status ≠ .pending → r.attemptCount < p.attemptCount)) :
    w.Grows (exec ω c w).2 := by
  have heffect := exec_deliveries ω c w
  generalize hw : (exec ω c w).2 = w' at heffect
  generalize hdeliveries : w'.deliveries = deliveries at heffect
  intro d r hr
  rw [hdeliveries]
  cases heffect with
  | same => exact ⟨r, hr, le_rfl, le_rfl⟩
  | saved hsave =>
      rcases IndexedTable.find?_insertAll (saveDeliveries_eq_some hsave).1 d with hfind | hnone
      · exact ⟨r, hfind.trans hr, le_rfl, le_rfl⟩
      · exact absurd (hnone.1.symm.trans hr) (by simp)
  | @updated d' p hfits =>
      rw [IndexedTable.find?_update, hr, Option.map_some]
      refine ⟨_, rfl, ?_⟩
      by_cases hd : d = d'
      · subst hd
        rw [IndexedTable.changed_of_eq (Table.find?_eq_some hr).2]
        obtain ⟨hcount, hterminal⟩ := h d p rfl r hr
        refine ⟨hcount, ?_⟩
        show r.ceiling ≤ if p.status = .pending then p.attemptCount + 1 else p.attemptCount
        unfold WebhookDeliveryEntity.ceiling
        split_ifs with hs hp hp
        · omega
        · exact hterminal hs hp
        · omega
        · exact hcount
      · have hkey : Keyed.key r = d := (Table.find?_eq_some hr).2
        rw [IndexedTable.changed_of_ne (hkey ▸ hd)]
        exact ⟨le_rfl, le_rfl⟩

/-- **The queue does not come to run ahead**: the job a call adds is known, and the
job it finishes is spent. -/
theorem World.Sound.exec (h : w.Sound) (hgrows : w.Grows (exec ω c w).2)
    (hadd : ∀ job delayMs, c = .addJob job delayMs → w.Known job)
    (hfinish : ∀ job, c = .completeJob job ∨ c = .failJob job → w.Spent job) :
    (exec ω c w).2.Sound where
  event d r hr := by
    refine event_exec ?_
    have heffect := exec_deliveries ω c w
    generalize (Webhooks.exec ω c w).2.deliveries = deliveries at hr heffect
    cases heffect with
    | same => exact h.event d r hr
    | saved hsave =>
        obtain ⟨hinsert, hreferences, hrows⟩ := saveDeliveries_eq_some hsave
        rcases IndexedTable.find?_insertAll hinsert d with hfind | ⟨-, r', hr', -, hfind⟩
        · exact h.event d r (hfind ▸ hr)
        · obtain rfl := Option.some.inj (hr.symm.trans hfind)
          obtain ⟨new, hnew, id, rfl⟩ := hrows r hr'
          exact (hreferences new hnew).2
    | updated d' hfits =>
        rw [IndexedTable.find?_update, Option.map_eq_some_iff] at hr
        obtain ⟨r₀, hr₀, rfl⟩ := hr
        have hevent := h.event d r₀ hr₀
        unfold IndexedTable.changed
        split_ifs <;> exact hevent
  known job hjob := by
    have heffect := exec_queue ω c w
    generalize (Webhooks.exec ω c w).2.queue = queue at hjob heffect
    cases heffect with
    | same => exact (h.known job hjob).mono hgrows
    | added job' delayMs =>
        rcases (JobQueue.isLive_add _).1 hjob with hjob | ⟨rfl, -⟩
        · exact (h.known job hjob).mono hgrows
        · exact (hadd job delayMs rfl).mono hgrows
    | completed job' => exact (h.known job ((JobQueue.isLive_complete _).1 hjob).1).mono hgrows
    | failed job' => exact (h.known job ((JobQueue.isLive_fail _).1 hjob).1).mono hgrows
  spent job hjob := by
    have heffect := exec_queue ω c w
    generalize (Webhooks.exec ω c w).2.queue = queue at hjob heffect
    cases heffect with
    | same => exact (h.spent job hjob).mono hgrows
    | added job' delayMs =>
        rw [JobQueue.finished_add] at hjob
        exact (h.spent job hjob).mono hgrows
    | completed job' =>
        rcases JobQueue.finished_complete hjob with hjob | rfl
        · exact (h.spent job hjob).mono hgrows
        · exact (hfinish job (Or.inl rfl)).mono hgrows
    | failed job' =>
        rcases JobQueue.finished_fail hjob with hjob | rfl
        · exact (h.spent job hjob).mono hgrows
        · exact (hfinish job (Or.inr rfl)).mono hgrows

end Effects

/-! ### Where the threads are -/

/-- What a thread knows at each stage: the deliveries it is about to enqueue have
been read, and a worker that needs no longer record its attempt has spent its job. -/
def Stage.Knows (w : World) (t : Call) : Stage → Prop
  | .starting d => ∀ job ∈ t.job, job.deliveryId = d ∧ w.Known job
  | .attempting _ d _ attempts => w.Known ⟨d, attempts⟩ ∧
      ∀ job ∈ t.job, job.deliveryId = d ∧ job.attempt ≤ attempts
  | .retrying d _ attempts => w.Known ⟨d, attempts + 1⟩ ∧ ∀ job ∈ t.job, w.Spent job
  | .recorded _ .delivery | .publishing _ _ .delivery | .settled => ∀ job ∈ t.job, w.Spent job
  | .creating _ existing _ => ∀ r ∈ existing, r.status = .pending →
      w.Known ⟨r.id, r.attemptCount + 1⟩
  | .enqueuing _ todo _ => ∀ x ∈ todo, w.Known ⟨x.1, x.2 + 1⟩
  | _ => True

section Knows

variable {ω : Draw} {c : Command} {w w' : World} {t : Call} {q : Stage}

theorem Stage.Knows.mono (h : q.Knows w t) (hgrows : w.Grows w') : q.Knows w' t := by
  cases q with
  | starting d => exact fun job hjob => ⟨(h job hjob).1, (h job hjob).2.mono hgrows⟩
  | attempting phase d e attempts => exact ⟨h.1.mono hgrows, h.2⟩
  | retrying d e attempts => exact ⟨h.1.mono hgrows, fun job hjob => (h.2 job hjob).mono hgrows⟩
  | settled => exact fun job hjob => (h job hjob).mono hgrows
  | creating e existing missing => exact fun r hr hs => (h r hr hs).mono hgrows
  | enqueuing e todo ok => exact fun x hx => (h x hx).mono hgrows
  | recorded e via | publishing e status via =>
      cases via with
      | delivery => exact fun job hjob => (h job hjob).mono hgrows
      | dispatch => trivial
  | _ => trivial

theorem knows_listed {e : Uuid} {deliveries : List WebhookDeliveryEntity}
    (h : ∀ r ∈ deliveries, r.status = .pending → w.Known ⟨r.id, r.attemptCount + 1⟩) :
    (Stage.listed e deliveries).Knows w t := by
  unfold Stage.listed
  split
  · trivial
  · rename_i d ds hpending
    intro x hx
    rw [← hpending] at hx
    obtain ⟨r, hr, rfl⟩ := List.mem_map.1 hx
    obtain ⟨hmem, hs⟩ := List.mem_filter.1 hr
    exact h r hmem (by simpa using hs)

theorem knows_read (e : Uuid) (subscriptions : List WebhookSubscriptionEntity) :
    (Stage.read e subscriptions (w.deliveriesOf e)).Knows w t := by
  have hknown : ∀ r ∈ w.deliveriesOf e, r.status = .pending →
      w.Known ⟨r.id, r.attemptCount + 1⟩ := fun r hr hs =>
    known_of_pending (Table.find?_key (List.mem_filter.1 hr).1) hs
  unfold Stage.read
  split_ifs
  · trivial
  · cases missingSubscriptions subscriptions (w.deliveriesOf e) with
    | nil => exact knows_listed hknown
    | cons s missing => exact hknown

theorem knows_found {d : Uuid} (h : ∀ job ∈ t.job, job.deliveryId = d ∧ w.Known job)
    {load : WebhookDeliveryEntity → LoadedDelivery} (hload : ∀ r, (load r).delivery = r) :
    (Stage.found ((w.deliveries.find? d).map load)).Knows w t := by
  cases hrow : w.deliveries.find? d with
  | none =>
      intro job hjob
      obtain ⟨rfl, r, hr, -⟩ := h job hjob
      exact absurd (hrow.symm.trans hr) (by simp)
  | some r =>
      obtain ⟨-, hkey⟩ := Table.find?_eq_some hrow
      rw [Option.map_some]
      unfold Stage.found
      dsimp only
      rw [hload]
      split_ifs with hterminal
      · intro job hjob
        obtain ⟨rfl, hknown⟩ := h job hjob
        refine hknown.spent fun r' hr' hs => ?_
        obtain rfl := Option.some.inj (hrow.symm.trans hr')
        rcases hterminal with h' | h' <;> exact absurd (hs.symm.trans h') (by decide)
      · have hs : r.status = .pending := WebhookDeliveryStatus.eq_pending hterminal
        unfold Stage.begun
        rw [hload]
        have hid : r.id = d := hkey
        refine ⟨hid ▸ known_of_pending hrow hs, fun job hjob => ?_⟩
        obtain ⟨rfl, r', hr', hle⟩ := h job hjob
        obtain rfl := Option.some.inj (hrow.symm.trans hr')
        rw [r.ceiling_of_pending hs] at hle
        exact ⟨hid.symm, hle⟩

theorem knows_resting (hq : q.Resting) (r : Except Exception c.Res) : (q.next c r).Knows w t := by
  cases q with
  | idle =>
      cases r with
      | error _ => trivial
      | ok r => cases c <;> first | trivial | (cases r <;> trivial)
  | returned e =>
      cases r with
      | error _ => trivial
      | ok r => cases c <;> first | trivial | (cases r <;> trivial)
  | _ => exact hq.elim

/-- The row once an outcome has been recorded. -/
theorem find?_recorded {d : Uuid} {p : DeliveryPatch} {attempts : ℕ} (hd : w.Known ⟨d, attempts⟩)
    (h : (exec ω (.updateDelivery d p) w).1.isOk = true) :
    ∃ r', (exec ω (.updateDelivery d p) w).2.deliveries.find? d = some r' ∧
      r'.attemptCount = p.attemptCount ∧ r'.status = p.status := by
  obtain ⟨r, hr, -⟩ := hd
  rw [(exec_updateDelivery h).2]
  refine ⟨p.apply ω.now r, ?_, rfl, rfl⟩
  dsimp only
  exact IndexedTable.find?_update_self hr _

/-- **What a thread knows after a call.** -/
theorem knows_next (hk : q.Knows w t) (hc : q.Allows t c) (hgrows : w.Grows (exec ω c w).2)
    (hdecided : q.decisive = true →
      (exec ω c w).1.isOk = true ∨ ω.Clean ∧ ∀ job ∈ t.job, w.Tried job) :
    (q.next c (exec ω c w).1).Knows (exec ω c w).2 t := by
  cases hc with
  | now =>
      have hnext : q.next .dateNow (exec ω .dateNow w).1 = q := Stage.next_dateNow q ω.now
      rw [hnext]
      exact hk.mono hgrows
  | findEvent hq | enterPoll hq | leavePoll hq | findProcessable hq | mark hq =>
      exact knows_resting hq _
  | findSubscriptions => cases (exec ω _ w).1 <;> trivial
  | findDeliveries e subscriptions =>
      cases hr : (exec ω (.findDeliveries e) w).1 with
      | error _ => trivial
      | ok existing =>
          obtain rfl : w.deliveriesOf e = existing := Except.ok.inj (exec_of_ok hr ▸ hr)
          exact (knows_read e subscriptions).mono hgrows
  | create e existing missing now =>
      cases hr : (exec ω (.saveDeliveries (missing.map (newDelivery e now))) w).1 with
      | error _ => trivial
      | ok new =>
          refine knows_listed fun r hr' hs => ?_
          rcases List.mem_append.1 hr' with hr' | hr'
          · exact (hk r hr' hs).mono hgrows
          · exact known_of_pending (find?_saved hr hr') hs
  | enqueue e d k todo ok =>
      show (Stage.enqueued e todo _).Knows _ t
      unfold Stage.enqueued
      split
      · split_ifs <;> trivial
      · exact fun x hx => (hk x (List.mem_cons_of_mem _ hx)).mono hgrows
  | start d =>
      cases hr : (exec ω (.findDelivery d) w).1 with
      | error e =>
          have htried := (hdecided rfl).resolve_left (by simp [hr, Except.isOk, Except.toBool])
          exact fun job hjob => ((hk job hjob).2.spent (htried.2 job hjob)).mono hgrows
      | ok loaded =>
          obtain rfl : (w.deliveries.find? d).map _ = loaded := Except.ok.inj (exec_of_ok hr ▸ hr)
          exact (knows_found hk fun _ => rfl).mono hgrows
  | fetch d e attempts request =>
      have hattempt := hk.mono hgrows
      cases (exec ω (.fetch d request) w).1 <;> exact hattempt
  | responseText status d e attempts =>
      have hattempt := hk.mono hgrows
      cases (exec ω (.responseText d) w).1 <;> exact hattempt
  | succeed d e p hs =>
      cases hr : (exec ω (.updateDelivery d p) w).1 with
      | error _ => exact hk.mono hgrows
      | ok _ =>
          obtain ⟨r', hr', hcount, -⟩ := find?_recorded (ω := ω) (p := p) hk.1 (by rw [hr]; rfl)
          intro job hjob
          obtain ⟨rfl, hle⟩ := hk.2 job hjob
          exact ⟨r', hr', hcount ▸ hle⟩
  | fail d e p hs =>
      cases hr : (exec ω (.updateDelivery d p) w).1 with
      | error _ =>
          have htried := (hdecided rfl).resolve_left (by simp [hr, Except.isOk, Except.toBool])
          intro job hjob
          obtain ⟨rfl, hle⟩ := hk.2 job hjob
          obtain ⟨r, hr, hceiling⟩ := hk.1
          have hknown : w.Known job := ⟨r, hr, le_trans hle hceiling⟩
          exact (hknown.spent (htried.2 job hjob)).mono hgrows
      | ok _ =>
          obtain ⟨r', hr', hcount, hstatus⟩ :=
            find?_recorded (ω := ω) (p := p) hk.1 (by rw [hr]; rfl)
          have hspent : ∀ job ∈ t.job, (exec ω (.updateDelivery d p) w).2.Spent job := by
            intro job hjob
            obtain ⟨rfl, hle⟩ := hk.2 job hjob
            exact ⟨r', hr', hcount ▸ hle⟩
          show (Stage.failed d e p.attemptCount p.nextRetryAt).Knows _ t
          unfold Stage.failed
          split
          · rename_i due hdue
            have hpending : p.status = .pending := by
              rcases hs with hs | hs
              · exact hs.1
              · exact absurd (hdue.symm.trans hs.2) (by simp)
            exact ⟨hcount ▸ known_of_pending hr' (hstatus.trans hpending), hspent⟩
          · exact hspent
  | retry d e attempts delayMs =>
      have hspent := fun job hjob => (hk.2 job hjob).mono hgrows
      cases (exec ω (.addJob ⟨d, attempts + 1⟩ delayMs) w).1 <;> exact hspent
  | recompute e via =>
      have hspent := hk.mono hgrows
      cases via with
      | delivery => cases (exec ω (.findDeliveries e) w).1 <;> exact hspent
      | dispatch => cases (exec ω (.findDeliveries e) w).1 <;> trivial
  | publish e via p =>
      have hspent := hk.mono hgrows
      cases via with
      | delivery => cases (exec ω (.updateEvent e p) w).1 <;> exact hspent
      | dispatch => cases (exec ω (.updateEvent e p) w).1 <;> trivial
  | complete | failJob =>
      have hspent := hk.mono hgrows
      exact hspent

/-- A thread that starts finds everything as it was, and its job live. -/
theorem spawn_same {cfg : Config} (h : (system cfg).spawn t w = some w') :
    w'.deliveries = w.deliveries ∧ w'.outboxEvents = w.outboxEvents ∧
      (∀ j, w'.queue.IsLive j ↔ w.queue.IsLive j) ∧
      (∀ j, w'.queue.Finished j ↔ w.queue.Finished j) ∧ ∀ job ∈ t.job, w.queue.IsLive job := by
  cases t with
  | work job now =>
      obtain ⟨queue, hqueue, rfl⟩ := Option.map_eq_some_iff.1 h
      obtain ⟨hjob, hlive, hfinished⟩ := JobQueue.start?_eq_some hqueue
      refine ⟨rfl, rfl, hlive, hfinished, fun j hj => ?_⟩
      obtain rfl := Option.some.inj hj
      exact hjob
  | _ =>
      obtain rfl := Option.some.inj h
      exact ⟨rfl, rfl, fun _ => Iff.rfl, fun _ => Iff.rfl,
        fun _ hj => absurd hj (by simp [Call.job])⟩

theorem World.Sound.spawn {cfg : Config} (h : w.Sound)
    (hw : (system cfg).spawn t w = some w') : w'.Sound := by
  obtain ⟨hdeliveries, hevents, hlive, hfinished, -⟩ := spawn_same hw
  have hgrows : w.Grows w' := .of_eq hdeliveries
  constructor
  · rw [hdeliveries, hevents]
    exact h.event
  · exact fun job hj => (h.known job ((hlive job).1 hj)).mono hgrows
  · exact fun job hj => (h.spent job ((hfinished job).1 hj)).mono hgrows

theorem knows_entry {cfg : Config} (h : w.Sound) (hw : (system cfg).spawn t w = some w') :
    ((system cfg).entry t).Knows w' t := by
  obtain ⟨hdeliveries, -, -, -, hjob⟩ := spawn_same hw
  cases t with
  | work job now =>
      intro j hj
      obtain rfl := Option.some.inj hj
      exact ⟨rfl, (h.known job (hjob job rfl)).mono (.of_eq hdeliveries)⟩
  | process d => exact fun j hj => absurd hj (by simp [Call.job])
  | _ => trivial

/-- **The queue does not come to run ahead** by a call that a thread may make. -/
theorem sound_next (hs : w.Sound) (hk : q.Knows w t) (hc : q.Allows t c)
    (hgrows : w.Grows (exec ω c w).2) : (exec ω c w).2.Sound := by
  refine hs.exec hgrows (fun job delayMs hadd => ?_) fun job hfinish => ?_
  · subst hadd
    cases hc with
    | enqueue e d k todo ok => exact hk _ (List.mem_cons_self ..)
    | retry d e attempts => exact hk.1
  · rcases hfinish with rfl | rfl
    · cases hc with
      | complete ht => exact hk job (ht ▸ rfl)
    · cases hc with
      | failJob ht => exact hk job (ht ▸ rfl)

end Knows

end Webhooks
end LedgerEngine
