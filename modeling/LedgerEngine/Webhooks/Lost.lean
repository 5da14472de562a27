/-
# No delivery is lost when a dispatch gives up

Here every call runs to its end before the next one starts (`perform`), and all that
fails are enqueues of a dispatch.  A delivery that is PENDING then has a job in the
queue, or its event is PENDING or PROCESSING and a later poll dispatches it again
(`World.NoneLost`).  It is lost when the enqueue fails in the last poll its event
is given, which makes the event FAILED (`last_poll_loses`), or in a dispatch of an
event that is PUBLISHED or FAILED already.  Where neither happens no delivery is
lost in any state reached (`none_lost`).

A worker and a dispatch are followed call by call (`Working`, `Dispatch`), a poll
as a program over the calls of the other services, with the rules of
`LedgerEngine.Async.Triple`.
-/

import LedgerEngine.Async.Triple
import LedgerEngine.Webhooks.Stranded

namespace LedgerEngine
namespace Webhooks

/-! ### Whole calls -/

/-- What the `n`-th call that a whole call makes meets. -/
abbrev Script := ℕ → Draw

/-- The calls are answered in turn; counts them. -/
def scripted (script : Script) : Prog.Handler Command Command.Res Exception (World × ℕ) :=
  fun c s => ((exec (script s.2) c s.1).1, (exec (script s.2) c s.1).2, s.2 + 1)

/-- A call is started, if it can be, and runs to its end. -/
def perform (cfg : Config) (w : World) (x : Call × Script) : World :=
  match (system cfg).spawn x.1 w with
  | some w' => (((system cfg).body x.1).eval (scripted x.2) (w', 0)).2.1
  | none => w

/-- One whole call after the other. -/
def performAll (cfg : Config) (w : World) (xs : List (Call × Script)) : World :=
  xs.foldl (perform cfg) w

/-- Every call of every whole call is made in a state in which `ok` allows it. -/
def AllMeet (cfg : Config) (ok : Call → Draw → Command → World → Prop) :
    World → List (Call × Script) → Prop
  | _, [] => True
  | w, x :: xs =>
      (∀ w' ∈ (system cfg).spawn x.1 w, ((system cfg).body x.1).Meets (scripted x.2)
        (fun c s => ok x.1 (x.2 s.2) c s.1) (w', 0)) ∧
      AllMeet cfg ok (perform cfg w x) xs

instance AllMeet.decidable (cfg : Config) (ok : Call → Draw → Command → World → Prop)
    [∀ t ω c w, Decidable (ok t ω c w)] :
    ∀ (xs : List (Call × Script)) (w : World), Decidable (AllMeet cfg ok w xs)
  | [], _ => isTrue trivial
  | x :: xs, w =>
      have := AllMeet.decidable cfg ok xs (perform cfg w x)
      inferInstanceAs (Decidable (_ ∧ AllMeet cfg ok (perform cfg w x) xs))

/-! ### What is lost -/

/-- A poll can pick up the event, now or once it is stale. -/
def Pollable (e : OutboxEventEntity) : Prop :=
  e.status = .pending ∨ e.status = .processing

instance (e : OutboxEventEntity) : Decidable (Pollable e) := inferInstanceAs (Decidable (_ ∨ _))

/-- The delivery has a job that waits, is delayed or is being worked on. -/
def World.HasJob (w : World) (d : Uuid) : Prop := ∃ job ∈ w.queue.live, job.id.deliveryId = d

instance (w : World) (d : Uuid) : Decidable (w.HasJob d) := inferInstanceAs (Decidable (∃ _ ∈ _, _))

/-- The delivery has a job, or its event is as `F` says. -/
def World.Sheltered (w : World) (F : OutboxEventEntity → Prop) (r : WebhookDeliveryEntity) : Prop :=
  w.HasJob r.id ∨ ∃ event ∈ w.outboxEvents.find? r.outboxEventId, F event

/-- Every PENDING delivery has a job or an event that a poll can pick up. -/
def World.NoneLost (w : World) : Prop :=
  ∀ r ∈ w.deliveries.rows, r.status = .pending → w.Sheltered Pollable r

instance (w : World) (F : OutboxEventEntity → Prop) [DecidablePred F] (r : WebhookDeliveryEntity) :
    Decidable (w.Sheltered F r) := inferInstanceAs (Decidable (_ ∨ _))

instance (w : World) : Decidable w.NoneLost :=
  inferInstanceAs (Decidable (∀ r ∈ w.deliveries.rows, _))

/-- The calls that write deliveries. -/
def Command.delivers : Command → Bool
  | .saveDeliveries _ | .updateDelivery _ _ => true
  | _ => false

/-- Nothing fails but enqueues of dispatches, and what is written of deliveries can be
stored. -/
def OnlyEnqueuesFail (t : Call) (ω : Draw) (c : Command) (w : World) : Prop :=
  ¬ t.Delivers ∧ c.enqueues = true ∨
    ω.fault.isNone = true ∧ (c.delivers = true → (exec ω c w).1.isOk = true)

instance (t : Call) (ω : Draw) (c : Command) (w : World) : Decidable (OnlyEnqueuesFail t ω c w) :=
  inferInstanceAs (Decidable (_ ∨ _))

/-- An event whose dispatch may fail: a poll can pick it up again, or, in a poll,
gives it another one. -/
def Call.Retries (cfg : Config) : Call → OutboxEventEntity → Prop
  | .poll _, event => Pollable event ∧ event.retryCount + 1 < cfg.outboxMaxAttempts
  | _, event => Pollable event

instance (cfg : Config) : (t : Call) → (event : OutboxEventEntity) → Decidable (t.Retries cfg event)
  | .poll _, _ => inferInstanceAs (Decidable (_ ∧ _))
  | .dispatch _, event | .process _, event | .work _ _, event =>
      inferInstanceAs (Decidable (Pollable event))

/-- The delivery whose job a call adds. -/
def Command.enqueued : Command → Option Uuid
  | .addJob job _ => some job.deliveryId
  | _ => none

/-- An enqueue that fails leaves its delivery with a job, or its event with another
dispatch. -/
def Retried (cfg : Config) (t : Call) (ω : Draw) (c : Command) (w : World) : Prop :=
  (exec ω c w).1.isOk = true ∨ ∀ d ∈ c.enqueued, (exec ω c w).2.HasJob d ∨
    ∀ r ∈ w.deliveries.find? d, ∀ event ∈ w.outboxEvents.find? r.outboxEventId, t.Retries cfg event

instance (cfg : Config) (t : Call) (ω : Draw) (c : Command) (w : World) :
    Decidable (Retried cfg t ω c w) := inferInstanceAs (Decidable (_ ∨ _))

section Shelter

variable {w w' : World} {F : OutboxEventEntity → Prop} {r : WebhookDeliveryEntity}

theorem hasJob_iff {d : Uuid} : w.HasJob d ↔ ∃ k, w.queue.IsLive ⟨d, k⟩ := by
  constructor
  · rintro ⟨job, hjob, rfl⟩
    exact ⟨job.id.attempt, List.mem_map_of_mem hjob⟩
  · rintro ⟨k, hk⟩
    obtain ⟨job, hjob, hid⟩ := List.mem_map.1 hk
    exact ⟨job, hjob, by rw [hid]⟩

theorem World.HasJob.mono {d : Uuid} (h : w.HasJob d)
    (hlive : ∀ k, w.queue.IsLive ⟨d, k⟩ → w'.queue.IsLive ⟨d, k⟩) : w'.HasJob d := by
  obtain ⟨k, hk⟩ := hasJob_iff.1 h
  exact hasJob_iff.2 ⟨k, hlive k hk⟩

theorem World.Sheltered.mono (h : w.Sheltered F r)
    (hlive : ∀ k, w.queue.IsLive ⟨r.id, k⟩ → w'.queue.IsLive ⟨r.id, k⟩)
    (hevents : w'.outboxEvents.find? r.outboxEventId = w.outboxEvents.find? r.outboxEventId) :
    w'.Sheltered F r :=
  h.imp (fun hjob => hjob.mono hlive) fun hevent => hevents ▸ hevent

theorem World.Sheltered.weaken {F' : OutboxEventEntity → Prop} (h : w.Sheltered F r)
    (hF : ∀ event, F event → F' event) : w.Sheltered F' r :=
  h.imp_right fun ⟨event, hevent, hf⟩ => ⟨event, hevent, hF event hf⟩

/-- The status of an event with a PENDING delivery is PROCESSING once it is computed. -/
theorem aggregate_of_pending {ds : List WebhookDeliveryEntity} (hr : r ∈ ds)
    (hs : r.status = .pending) : aggregate ds = .processing := by
  have hall : (ds.all fun d => d.status = .success) = false := by
    rw [List.all_eq_false]
    exact ⟨r, hr, by simp [hs]⟩
  have hany : (ds.any fun d => d.status = .pending) = true := by
    rw [List.any_eq_true]
    exact ⟨r, hr, by simp [hs]⟩
  simp [aggregate, hall, hany]

end Shelter

/-! ### A worker -/

/-- What the stage of a worker says of its delivery: which event it belongs to, that
an attempt finds the row as it was read, and in the end that its event can be picked
up, if it is still PENDING. -/
def Stage.Owns (w : World) (d : Uuid) : Stage → Prop
  | .starting d' => d' = d
  | .attempting _ d' e attempts => d' = d ∧ ∃ r, w.deliveries.find? d = some r ∧
      r.status = .pending ∧ r.outboxEventId = e ∧ r.attemptCount + 1 = attempts
  | .retrying _ e _ | .recorded e _ => ∀ r, w.deliveries.find? d = some r → r.outboxEventId = e
  | .publishing e status _ => status = aggregate (w.deliveriesOf e) ∧
      ∀ r, w.deliveries.find? d = some r → r.outboxEventId = e
  | .settled => ∀ r, w.deliveries.find? d = some r → r.status = .pending →
      ∃ event ∈ w.outboxEvents.find? r.outboxEventId, Pollable event
  | _ => False

/-- What holds while a worker is on delivery `d` alone: the other deliveries stay
sheltered. -/
structure Working (t : Call) (d : Uuid) (q : Stage) (w : World) : Prop where
  sound : w.Sound
  knows : q.Knows w t
  delivering : q.Delivering
  owns : q.Owns w d
  others : ∀ d' r, d' ≠ d → w.deliveries.find? d' = some r → r.status = .pending →
    w.Sheltered Pollable r

section Working

variable {ω : Draw} {c : Command} {w w' : World} {t : Call} {d : Uuid} {q q' : Stage}

/-- A call that leaves the tables and the queue alone. -/
theorem Working.idle (h : Working t d q w) (hsound : w'.Sound) (hknows : q'.Knows w' t)
    (hdelivering : q'.Delivering) (hdeliveries : w'.deliveries = w.deliveries)
    (hqueue : w'.queue = w.queue) (hevents : w'.outboxEvents = w.outboxEvents)
    (howns : q'.Owns w' d) : Working t d q' w' where
  sound := hsound
  knows := hknows
  delivering := hdelivering
  owns := howns
  others d' r hd hr hs := by
    rw [hdeliveries] at hr
    exact (h.others d' r hd hr hs).mono (fun k hk => hqueue ▸ hk) (by rw [hevents])

theorem fault_eq_none (h : OnlyEnqueuesFail t ω c w) (hc : t.Delivers ∨ c.enqueues = false) :
    ω.fault = none ∧ (c.delivers = true → (exec ω c w).1.isOk = true) := by
  rcases h with ⟨ht, henqueues⟩ | ⟨hfault, hok⟩
  · rcases hc with hc | hc
    · exact absurd hc ht
    · exact absurd (hc.symm.trans henqueues) Bool.false_ne_true
  · exact ⟨Option.isNone_iff_eq_none.1 hfault, hok⟩

/-- The event whose status has been computed and written shelters its deliveries. -/
theorem sheltered_published {e : Uuid} {p : EventPatch}
    (hstatus : p.status = aggregate (w.deliveriesOf e)) (hevents : w'.outboxEvents =
      w.updateEvent ω.now e p) (hsound : w.Sound) {d' : Uuid} {r : WebhookDeliveryEntity}
    (hr : w.deliveries.find? d' = some r) (hs : r.status = .pending) (he : r.outboxEventId = e) :
    ∃ event ∈ w'.outboxEvents.find? r.outboxEventId, Pollable event := by
  obtain ⟨event, hevent⟩ := Option.isSome_iff_exists.1 (hsound.event d' r hr)
  have hmem : r ∈ w.deliveriesOf e :=
    List.mem_filter.2 ⟨(Table.find?_eq_some hr).1, decide_eq_true he⟩
  refine ⟨p.apply ω.now event, ?_, Or.inr ?_⟩
  · rw [hevents, find?_updateEvent, if_pos he.symm, hevent]
    rfl
  · exact hstatus.trans (aggregate_of_pending hmem hs)

/-- The row that an attempt is about to change is as it was read. -/
theorem Stage.Owns.attempt (h : q.Owns w d) {d' : Uuid} {p : DeliveryPatch}
    (hc : q.Allows t (.updateDelivery d' p)) : d' = d ∧ ∃ r, w.deliveries.find? d = some r ∧
      r.status = .pending ∧ r.attemptCount + 1 = p.attemptCount := by
  cases hc <;>
  · obtain ⟨hd, r, hr, hs, -, hcount⟩ := h
    exact ⟨hd, r, hr, hs, hcount⟩

/-- An attempt begins with the row as it is. -/
theorem owns_found {load : WebhookDeliveryEntity → LoadedDelivery}
    (hload : ∀ r, (load r).delivery = r) :
    (Stage.found ((w.deliveries.find? d).map load)).Owns w d := by
  rcases found_cases ((w.deliveries.find? d).map load) with
    hfound | ⟨phase, d', e, attempts, hfound⟩
  · rw [hfound]
    intro r hr hs
    rw [hr, Option.map_some] at hfound
    unfold Stage.found at hfound
    dsimp only at hfound
    rw [hload, hs] at hfound
    simp [Stage.begun] at hfound
  · rw [hfound]
    obtain ⟨rfl, hrow⟩ := attempting_found hload hfound
    exact ⟨rfl, hrow⟩

/-- A call that changes a delivery takes no other with it. -/
theorem Working.update (h : Working t d q w) (hsound : w'.Sound) (hknows : q'.Knows w' t)
    (hdelivering : q'.Delivering) {p : DeliveryPatch}
    (hw : w' = { w with deliveries := w.deliveries.update d (p.change ω.now) })
    (howns : q'.Owns w' d) : Working t d q' w' where
  sound := hsound
  knows := hknows
  delivering := hdelivering
  owns := howns
  others d' r hd hr hs := by
    subst hw
    rw [IndexedTable.find?_update_of_ne _ hd] at hr
    exact (h.others d' r hd hr hs).mono (fun _ => id) rfl

/-- A delivery stays with its event. -/
theorem event_updated {now : Time} {p : DeliveryPatch} {r : WebhookDeliveryEntity}
    (hr : w.deliveries.find? d = some r) {r' : WebhookDeliveryEntity}
    (hr' : (w.deliveries.update d (p.change now)).find? d = some r') :
    r'.outboxEventId = r.outboxEventId := by
  rw [IndexedTable.find?_update_self hr] at hr'
  obtain rfl := Option.some.inj hr'
  rfl

/-- A worker has written the status of the event. -/
theorem Working.publish (h : Working t d q w) {e : Uuid} {via : Via} {p : EventPatch}
    (hq : q = .publishing e p.status via) (hsound : w'.Sound) (hknows : Stage.Knows w' t .settled)
    (hw : w' = { w with outboxEvents := w.updateEvent ω.now e p }) :
    Working t d .settled w' := by
  subst hq hw
  obtain ⟨hstatus, hevent⟩ := h.owns
  refine ⟨hsound, hknows, trivial, fun r hr hs => ?_, fun d' r hd hr hs => ?_⟩
  · exact sheltered_published hstatus rfl h.sound hr hs (hevent r hr)
  · by_cases he : r.outboxEventId = e
    · exact Or.inr (sheltered_published hstatus rfl h.sound hr hs he)
    · refine (h.others d' r hd hr hs).mono (fun _ => id) ?_
      rw [find?_updateEvent, if_neg (Ne.symm he)]

/-- A worker has finished its job. -/
theorem Working.finish (h : Working t d .settled w) {job : JobId} (hjob : job.deliveryId = d)
    (hsound : w'.Sound) (hknows : Stage.Knows w' t .settled)
    (hdeliveries : w'.deliveries = w.deliveries) (hevents : w'.outboxEvents = w.outboxEvents)
    (hqueue : ∀ j, w.queue.IsLive j → j ≠ job → w'.queue.IsLive j) :
    Working t d .settled w' := by
  refine ⟨hsound, hknows, trivial, ?_, fun d' r hd hr hs => ?_⟩
  · intro r hr hs
    rw [hevents]
    exact h.owns r (hdeliveries ▸ hr) hs
  · rw [hdeliveries] at hr
    refine (h.others d' r hd hr hs).mono (fun k hk => hqueue _ hk ?_) (by rw [hevents])
    rintro rfl
    have hid : r.id = d' := (Table.find?_eq_some hr).2
    exact hd (hid.symm.trans hjob)

/-- **One call of a worker.** -/
theorem Working.exec (h : Working t d q w) (ht : t.Delivers)
    (hd : ∀ job ∈ t.job, job.deliveryId = d) (hc : q.Allows t c) (hok : OnlyEnqueuesFail t ω c w) :
    Working t d (q.next c (exec ω c w).1) (exec ω c w).2 := by
  obtain ⟨hfault, hdelivers⟩ := fault_eq_none hok (Or.inl ht)
  have hexec := exec_of_fault_eq_none (c := c) (w := w) hfault
  have hgrows : w.Grows (Webhooks.exec ω c w).2 := by
    refine grows_exec fun d' p hp r hr => ?_
    subst hp
    obtain ⟨rfl, r', hr', -, hcount⟩ := h.owns.attempt hc
    obtain rfl := Option.some.inj (hr.symm.trans hr')
    exact ⟨by omega, fun _ _ => by omega⟩
  have hsound := sound_next h.sound h.knows hc hgrows
  have hdelivering := delivering_next h.delivering hc (Webhooks.exec ω c w).1
  have hdecided : q.decisive = true → (Webhooks.exec ω c w).1.isOk = true := by
    intro hdecisive
    cases hc with
    | now => rfl
    | start d' => rw [hexec]; rfl
    | fail => exact hdelivers rfl
    | findEvent hr | enterPoll hr | leavePoll hr | findProcessable hr | mark hr =>
        cases q <;> first | exact hr.elim | exact absurd hdecisive Bool.false_ne_true
    | _ => exact absurd hdecisive Bool.false_ne_true
  have hknows := knows_next h.knows hc hgrows fun hdecisive => Or.inl (hdecided hdecisive)
  have howns := h.owns
  cases hc with
  | now =>
      refine h.idle hsound hknows hdelivering rfl rfl rfl ?_
      have hnext : q.next .dateNow (Webhooks.exec ω .dateNow w).1 = q := Stage.next_dateNow q ω.now
      rw [hnext]
      exact howns
  | findEvent hr | enterPoll hr | leavePoll hr | findProcessable hr | mark hr =>
      cases q <;> first | exact hr.elim | exact howns.elim
  | findSubscriptions | findDeliveries | create | enqueue => exact howns.elim
  | start d' =>
      obtain rfl : d' = d := howns
      rw [hexec] at hsound hknows hdelivering ⊢
      exact h.idle hsound hknows hdelivering rfl rfl rfl (owns_found fun _ => rfl)
  | fetch d' e attempts request =>
      rw [hexec] at hsound hknows hdelivering ⊢
      refine h.idle hsound hknows hdelivering rfl rfl rfl ?_
      simp only [answer]
      cases ω.response <;> exact howns
  | responseText status d' e attempts =>
      rw [hexec] at hsound hknows hdelivering ⊢
      refine h.idle hsound hknows hdelivering rfl rfl rfl ?_
      simp only [answer]
      cases ω.text <;> exact howns
  | succeed d' e p hs =>
      obtain ⟨hr, hw⟩ := exec_updateDelivery (hdelivers rfl)
      obtain ⟨rfl, r, hfind, -, he, -⟩ := howns
      rw [hr] at hknows hdelivering ⊢
      refine h.update hsound hknows hdelivering hw fun r' hr' => ?_
      rw [hw] at hr'
      exact (event_updated hfind hr').trans he
  | fail d' e p hs =>
      obtain ⟨hr, hw⟩ := exec_updateDelivery (hdelivers rfl)
      obtain ⟨rfl, r, hfind, -, he, -⟩ := howns
      rw [hr] at hknows hdelivering ⊢
      refine h.update hsound hknows hdelivering hw ?_
      show (Stage.failed d' e p.attemptCount p.nextRetryAt).Owns _ d'
      rcases failed_cases d' e p.attemptCount p.nextRetryAt with hfailed | hfailed <;>
      · rw [hfailed]
        intro r' hr'
        rw [hw] at hr'
        exact (event_updated hfind hr').trans he
  | retry d' e attempts delayMs =>
      rw [hexec] at hsound hknows hdelivering ⊢
      refine ⟨hsound, hknows, hdelivering, howns, fun d'' r hd' hr hs => ?_⟩
      exact (h.others d'' r hd' hr hs).mono (fun k hk => (JobQueue.isLive_add _).2 (Or.inl hk)) rfl
  | recompute e via =>
      rw [hexec] at hsound hknows hdelivering ⊢
      exact h.idle hsound hknows hdelivering rfl rfl rfl ⟨rfl, howns⟩
  | publish e via p hfits =>
      have hanswer : answer ω (.updateEvent e p) w =
          (.ok (), { w with outboxEvents := w.updateEvent ω.now e p }) := if_pos hfits
      rw [hexec, hanswer] at hsound hknows hdelivering ⊢
      cases via with
      | delivery => exact h.publish rfl hsound hknows rfl
      | dispatch => exact h.delivering.elim
  | @complete job now hjob =>
      exact h.finish (hd job (hjob ▸ rfl)) hsound hknows rfl rfl
        fun j hj hne => (JobQueue.isLive_complete retention).2 ⟨hj, hne⟩
  | @failJob job now hjob =>
      exact h.finish (hd job (hjob ▸ rfl)) hsound hknows rfl rfl
        fun j hj hne => (JobQueue.isLive_fail retention).2 ⟨hj, hne⟩

end Working

/-! ### A dispatch -/

/-- The dispatch has not read the deliveries of its event. -/
def Stage.Unread : Stage → Prop
  | .matching _ | .reading _ _ => True
  | _ => False

/-- The dispatch has read the deliveries and enqueues none of those it has not listed. -/
def Stage.Closing : Stage → Prop
  | .creating _ _ _ | .recorded _ .dispatch | .publishing _ _ .dispatch => True
  | _ => False

/-- What holds while a dispatch of event `e` runs alone: a PENDING delivery is
sheltered, or the dispatch still has to enqueue it.  The event stays as it was in
`w₀` until its status is written at the end. -/
structure Dispatch (F : OutboxEventEntity → Prop) (e : Uuid) (w₀ : World) (q : Stage) (w : World) :
    Prop where
  sound : w.Sound
  knows : q.Knows w (.dispatch e)
  dispatching : q.Dispatching e
  sheltered : ∀ d r, w.deliveries.find? d = some r → r.status = .pending →
    w.Sheltered F r ∨ q.Lists d r.attemptCount ∨ q.Promises d r.attemptCount ∨
      q.Unread ∧ r.outboxEventId = e
  listed : q.Closing → ∀ d r, w.deliveries.find? d = some r → r.outboxEventId = e →
    r.status = .pending → q.Lists d r.attemptCount
  others : ∀ e', e' ≠ e → w.outboxEvents.find? e' = w₀.outboxEvents.find? e'
  unchanged : q ≠ .returned e → w.outboxEvents = w₀.outboxEvents

section Dispatch

variable {F : OutboxEventEntity → Prop} {ω : Draw} {c : Command} {w w' w₀ : World} {t : Call}
  {e : Uuid} {q q' : Stage}

/-- A call that leaves the tables and the queue alone. -/
theorem Dispatch.idle (h : Dispatch F e w₀ q w) (hsound : w'.Sound)
    (hknows : q'.Knows w' (.dispatch e)) (hdispatching : q'.Dispatching e)
    (hdeliveries : w'.deliveries = w.deliveries) (hqueue : w'.queue = w.queue)
    (hevents : w'.outboxEvents = w.outboxEvents) (hreturned : q = .returned e → q' = .returned e)
    (htodo : ∀ d r, w.deliveries.find? d = some r → r.status = .pending →
      q.Lists d r.attemptCount ∨ q.Promises d r.attemptCount ∨ q.Unread ∧ r.outboxEventId = e →
      q'.Lists d r.attemptCount ∨ q'.Promises d r.attemptCount ∨ q'.Unread ∧ r.outboxEventId = e)
    (hlisted : q'.Closing → ∀ d r, w.deliveries.find? d = some r → r.outboxEventId = e →
      r.status = .pending → q'.Lists d r.attemptCount) : Dispatch F e w₀ q' w' where
  sound := hsound
  knows := hknows
  dispatching := hdispatching
  sheltered d r hr hs := by
    rw [hdeliveries] at hr
    refine (h.sheltered d r hr hs).imp (fun hshelter => ?_) (htodo d r hr hs)
    exact hshelter.mono (fun k hk => hqueue ▸ hk) (by rw [hevents])
  listed hq' d r hr := hlisted hq' d r (hdeliveries ▸ hr)
  others e' he' := by
    rw [hevents]
    exact h.others e' he'
  unchanged hq' := hevents.trans (h.unchanged fun hq => hq' (hreturned hq))

theorem surveyed_of_read (e : Uuid) (subscriptions : List WebhookSubscriptionEntity)
    (existing : List WebhookDeliveryEntity) :
    (Stage.read e subscriptions existing).Surveyed e := by
  unfold Stage.read
  split_ifs
  · rfl
  · cases missingSubscriptions subscriptions existing with
    | nil =>
        show (Stage.listed e existing).Surveyed e
        unfold Stage.listed
        split <;> rfl
    | cons s missing => rfl

theorem not_closing_of_promises {d : Uuid} {k : ℕ} (h : q.Promises d k) : ¬ q.Closing := by
  intro hclosing
  cases q <;> first | exact h | exact hclosing

theorem not_pending_of_closing {deliveries : List WebhookDeliveryEntity}
    (h : (Stage.listed e deliveries).Closing) {r : WebhookDeliveryEntity} (hr : r ∈ deliveries) :
    r.status ≠ .pending :=
  fun hs => not_closing_of_promises (promises_listed e hr hs) h

/-- The dispatch has read the deliveries of the event. -/
theorem Dispatch.read {subscriptions : List WebhookSubscriptionEntity}
    (h : Dispatch F e w₀ (.reading e subscriptions) w) :
    Dispatch F e w₀ (Stage.read e subscriptions (w.deliveriesOf e)) w := by
  have htodo {d : Uuid} {r : WebhookDeliveryEntity} (hr : w.deliveries.find? d = some r)
      (he : r.outboxEventId = e) (hs : r.status = .pending) :=
    surveyed_read (surveyed_of_read e subscriptions _) hr he hs
  refine ⟨h.sound, knows_read e subscriptions, dispatching_read e subscriptions _, ?_, ?_, h.others,
    fun _ => h.unchanged (by simp)⟩
  · intro d r hr hs
    rcases h.sheltered d r hr hs with hshelter | hlists | hpromises | ⟨-, he⟩
    · exact Or.inl hshelter
    · exact hlists.elim
    · exact hpromises.elim
    · exact Or.inr ((htodo hr he hs).imp_right Or.inl)
  · intro hclosing d r hr he hs
    exact (htodo hr he hs).resolve_right fun hp => not_closing_of_promises hp hclosing

/-- The dispatch has inserted the deliveries that were missing. -/
theorem Dispatch.create {existing new : List WebhookDeliveryEntity}
    {missing : List WebhookSubscriptionEntity}
    (h : Dispatch F e w₀ (.creating e existing missing) w) (hsound : w'.Sound)
    (hknows : (Stage.listed e (existing ++ new)).Knows w' (.dispatch e))
    (hinsert : w.deliveries.insertAll? new = some w'.deliveries) (hqueue : w'.queue = w.queue)
    (hevents : w'.outboxEvents = w.outboxEvents) :
    Dispatch F e w₀ (.listed e (existing ++ new)) w' := by
  have hrow {d : Uuid} {r : WebhookDeliveryEntity} (hr : w'.deliveries.find? d = some r) :
      w.deliveries.find? d = some r ∨ r ∈ new ∧ r.id = d := by
    rcases IndexedTable.find?_insertAll hinsert d with hfind | ⟨-, r', hr', hid, hfind⟩
    · exact Or.inl (hfind.symm.trans hr)
    · obtain rfl := Option.some.inj (hr.symm.trans hfind)
      exact Or.inr ⟨hr', hid⟩
  refine ⟨hsound, hknows, dispatching_listed e _, ?_, ?_, ?_,
    fun _ => hevents.trans (h.unchanged (by simp))⟩
  · intro d r hr hs
    rcases hrow hr with hold | ⟨hnew, rfl⟩
    · rcases h.sheltered d r hold hs with hshelter | hlists | hpromises | ⟨hunread, -⟩
      · exact Or.inl (hshelter.mono (fun k hk => hqueue ▸ hk) (by rw [hevents]))
      · obtain ⟨x, hx, hpending, rfl, hcount⟩ := hlists
        rw [← hcount]
        exact Or.inr (Or.inr (Or.inl (promises_listed e (List.mem_append_left new hx) hpending)))
      · exact hpromises.elim
      · exact hunread.elim
    · exact Or.inr (Or.inr (Or.inl (promises_listed e (List.mem_append_right existing hnew) hs)))
  · intro hclosing d r hr he hs
    rcases hrow hr with hold | ⟨hnew, rfl⟩
    · obtain ⟨x, hx, hpending, -⟩ := h.listed trivial d r hold he hs
      exact absurd hpending (not_pending_of_closing hclosing (List.mem_append_left new hx))
    · exact absurd hs (not_pending_of_closing hclosing (List.mem_append_right existing hnew))
  · intro e' he'
    rw [hevents]
    exact h.others e' he'

/-- The dispatch has tried to add a job. -/
theorem Dispatch.enqueue {d : Uuid} {k : ℕ} {todo : List (Uuid × ℕ)} {ok : Bool}
    (h : Dispatch F e w₀ (.enqueuing e ((d, k) :: todo) ok) w) (hsound : w'.Sound)
    (hknows : q'.Knows w' (.dispatch e)) (hdispatching : q'.Dispatching e)
    (hdeliveries : w'.deliveries = w.deliveries) (hevents : w'.outboxEvents = w.outboxEvents)
    (hlive : ∀ j, w.queue.IsLive j → w'.queue.IsLive j)
    (hadded : ∀ r, w.deliveries.find? d = some r → r.attemptCount = k → w'.Sheltered F r)
    (htodo : ∀ d' k', (d', k') ∈ todo → q'.Promises d' k') (hclosing : ¬ q'.Closing) :
    Dispatch F e w₀ q' w' := by
  refine ⟨hsound, hknows, hdispatching, ?_, fun hq' => absurd hq' hclosing, ?_,
    fun _ => hevents.trans (h.unchanged (by simp))⟩
  · intro d' r hr hs
    rw [hdeliveries] at hr
    rcases h.sheltered d' r hr hs with hshelter | hlists | hpromises | ⟨hunread, -⟩
    · exact Or.inl (hshelter.mono (fun k hk => hlive _ hk) (by rw [hevents]))
    · exact hlists.elim
    · rcases List.mem_cons.1 hpromises with hhead | htail
      · obtain ⟨rfl, hcount⟩ := Prod.mk.inj hhead
        exact Or.inl (hadded r hr hcount)
      · exact Or.inr (Or.inr (Or.inl (htodo d' _ htail)))
    · exact hunread.elim
  · intro e' he'
    rw [hevents]
    exact h.others e' he'

/-- The dispatch has written the status of the event, which has no PENDING delivery. -/
theorem Dispatch.publish {p : EventPatch} (h : Dispatch F e w₀ (.publishing e p.status .dispatch) w)
    (hsound : w'.Sound) (hw : w' = { w with outboxEvents := w.updateEvent ω.now e p }) :
    Dispatch F e w₀ (.returned e) w' := by
  subst hw
  have hsame {e' : Uuid} (he' : e' ≠ e) :
      (w.updateEvent ω.now e p).find? e' = w.outboxEvents.find? e' := by
    rw [find?_updateEvent, if_neg (Ne.symm he')]
  refine ⟨hsound, trivial, rfl, fun d r hr hs => ?_, fun hq => hq.elim,
    fun e' he' => (hsame he').trans (h.others e' he'), fun hq => absurd rfl hq⟩
  have he : r.outboxEventId ≠ e := fun he => (h.listed trivial d r hr he hs).elim
  rcases h.sheltered d r hr hs with hshelter | hlists | hpromises | ⟨hunread, -⟩
  · exact Or.inl (hshelter.mono (fun _ => id) (hsame he))
  · exact hlists.elim
  · exact hpromises.elim
  · exact hunread.elim

/-- **One call of a dispatch.** -/
theorem Dispatch.exec (h : Dispatch F e w₀ q w) (hc : q.Allows (.dispatch e) c)
    (hok : OnlyEnqueuesFail t ω c w)
    (hretried : (exec ω c w).1.isOk = true ∨ ∀ d ∈ c.enqueued, (exec ω c w).2.HasJob d ∨
      ∀ r ∈ w.deliveries.find? d, ∀ event ∈ w.outboxEvents.find? r.outboxEventId, F event) :
    Dispatch F e w₀ (q.next c (exec ω c w).1) (exec ω c w).2 := by
  have hdispatching := dispatching_next (ω := ω) (w := w) h.dispatching hc
  have hgrows : w.Grows (Webhooks.exec ω c w).2 := by
    refine grows_exec fun d p hp => ?_
    subst hp
    cases hc <;> exact h.dispatching.elim
  have hsound := sound_next h.sound h.knows hc hgrows
  have hknows := knows_next h.knows hc hgrows fun hdecisive => by
    have hq := h.dispatching
    cases q <;> first | exact hq.elim | exact absurd hdecisive Bool.false_ne_true
  have hexec (hce : c.enqueues = false) : Webhooks.exec ω c w = answer ω c w :=
    exec_of_fault_eq_none (fault_eq_none hok (Or.inr hce)).1
  have hq := h.dispatching
  cases hc with
  | now =>
      have hnext : q.next .dateNow (Webhooks.exec ω .dateNow w).1 = q := Stage.next_dateNow q ω.now
      rw [hnext]
      exact h
  | @findEvent _ hr id he =>
      obtain ⟨rfl, rfl⟩ := he e rfl
      rw [hexec rfl] at hsound hknows hdispatching ⊢
      refine h.idle hsound hknows hdispatching rfl rfl rfl (by simp) (fun _ _ _ _ => ?_) ?_
      · rintro (hlists | hpromises | ⟨hunread, -⟩) <;> contradiction
      · simp only [answer]
        cases w.outboxEvents.find? id <;> exact False.elim
  | enterPoll _ hpolls | leavePoll _ hpolls | findProcessable _ hpolls | mark _ hpolls =>
      exact hpolls.elim
  | findSubscriptions e' eventType =>
      obtain rfl : e' = e := hq
      rw [hexec rfl] at hsound hknows hdispatching ⊢
      refine h.idle hsound hknows hdispatching rfl rfl rfl (by simp) (fun _ _ _ _ => ?_) False.elim
      rintro (hlists | hpromises | ⟨-, hevent⟩)
      · exact hlists.elim
      · exact hpromises.elim
      · exact Or.inr (Or.inr ⟨trivial, hevent⟩)
  | findDeliveries e' subscriptions =>
      obtain rfl : e' = e := hq
      rw [hexec rfl]
      exact h.read
  | create e' existing missing now =>
      obtain rfl : e' = e := hq
      obtain ⟨-, hdelivers⟩ := fault_eq_none hok (Or.inr rfl)
      obtain ⟨new, hres⟩ := isOk_elim (hdelivers rfl)
      obtain ⟨deliveries, hsave, hw⟩ := exec_saveDeliveries hres
      rw [hres, hw] at hknows ⊢
      rw [hw] at hsound
      exact h.create hsound hknows (saveDeliveries_eq_some hsave).1 rfl rfl
  | enqueue e' d k todo ok =>
      obtain rfl : e' = e := hq
      have hevents :
          (Webhooks.exec ω (.addJob ⟨d, k + 1⟩ 0) w).2.outboxEvents = w.outboxEvents := by
        rcases exec_outboxEvents ω (.addJob ⟨d, k + 1⟩ 0) w with hsame | ⟨_, _, hne, -⟩
        · exact hsame
        · exact absurd hne (by simp)
      refine h.enqueue hsound hknows hdispatching (deliveries_exec (by simp) (by simp)) hevents
        (fun j hj => ?_) (fun r hr hcount => ?_) (fun d' k' hx => ?_) ?_
      · rcases exec_world ω (.addJob ⟨d, k + 1⟩ 0) w with hw | hw <;> rw [hw]
        · exact hj
        · exact (JobQueue.isLive_add _).2 (Or.inl hj)
      · have hid : r.id = d := (Table.find?_eq_some hr).2
        subst hcount hid
        rcases hretried with hresolved | hfailed
        · obtain ⟨_, hres⟩ := isOk_elim hresolved
          rw [exec_of_ok hres]
          exact Or.inl (hasJob_iff.2 ⟨r.attemptCount + 1,
            (JobQueue.isLive_add _).2 (Or.inr ⟨rfl, h.sound.not_finished hr⟩)⟩)
        · refine (hfailed r.id rfl).imp_right fun hF => ?_
          obtain ⟨event, hevent⟩ := Option.isSome_iff_exists.1 (h.sound.event _ r hr)
          rw [hevents]
          exact ⟨event, hevent, hF r hr event hevent⟩
      · cases todo with
        | nil => exact absurd hx List.not_mem_nil
        | cons x todo => exact hx
      · show ¬ (Stage.enqueued e' todo _).Closing
        unfold Stage.enqueued
        split
        · split_ifs <;> exact id
        · exact id
  | recompute e' via =>
      cases via with
      | delivery => exact hq.elim
      | dispatch =>
          obtain rfl : e' = e := hq
          rw [hexec rfl] at hsound hknows hdispatching ⊢
          refine h.idle hsound hknows hdispatching rfl rfl rfl (by simp) (fun _ _ _ _ => ?_)
            fun _ => h.listed trivial
          rintro (hlists | hpromises | ⟨hunread, -⟩) <;> contradiction
  | publish e' via p hfits =>
      cases via with
      | delivery => exact hq.elim
      | dispatch =>
          obtain rfl : e' = e := hq
          have hanswer : answer ω (.updateEvent e' p) w =
              (.ok (), { w with outboxEvents := w.updateEvent ω.now e' p }) := if_pos hfits
          rw [hexec rfl, hanswer] at hsound ⊢
          exact h.publish hsound rfl
  | _ => exact hq.elim

end Dispatch

/-! ### Whole calls lose nothing -/

/-- What a call of `t` meets under a script. -/
def Reliable (cfg : Config) (t : Call) (script : Script) (c : Command) (s : World × ℕ) : Prop :=
  OnlyEnqueuesFail t (script s.2) c s.1 ∧ Retried cfg t (script s.2) c s.1

section Whole

variable {cfg : Config} {script : Script} {t : Call} {w w' : World} {s : World × ℕ}
  {e d : Uuid}

/-- The delivery of a worker or of a direct call. -/
theorem noneLost_of_working {q : Stage} (h : Working t d q w) (hq : q = .settled) : w.NoneLost := by
  subst hq
  intro r hr hs
  have hfind : w.deliveries.find? r.id = some r := Table.find?_key hr
  by_cases hd : r.id = d
  · exact Or.inr (h.owns r (hd ▸ hfind) hs)
  · exact h.others r.id r hd hfind hs

/-- **A worker loses nothing.** -/
theorem working_eval {p : Service Unit} (ht : t.Delivers) (hd : ∀ job ∈ t.job, job.deliveryId = d)
    (hfollows : p.Follows (protocol t) Settles (.starting d))
    (hknows : (Stage.starting d).Knows w t) (hsound : w.Sound) (hw : w.NoneLost)
    (hmeets : p.Meets (scripted script) (Reliable cfg t script) (w, 0)) :
    (p.eval (scripted script) (w, 0)).2.1.Sound ∧
      (p.eval (scripted script) (w, 0)).2.1.NoneLost := by
  have hstart : Working t d (.starting d) w :=
    ⟨hsound, hknows, trivial, rfl, fun d' r _ hr hs => hw r (Table.find?_eq_some hr).1 hs⟩
  obtain ⟨q, hq, hworking⟩ := hfollows.triple (J := fun q s => Working t d q s.1)
    (fun q c s hs hc hok => hs.exec ht hd hc hok.1) (w, 0) hstart hmeets
  exact ⟨hworking.sound, noneLost_of_working hworking hq⟩

/-- **What a dispatch leaves**: each PENDING delivery has a job, or its event is as
`F` says; other events are as they were, and all are if it throws. -/
structure Left (F : OutboxEventEntity → Prop) (e : Uuid) (w₀ : World)
    (result : Except Exception Unit) (w : World) : Prop where
  sound : w.Sound
  sheltered : ∀ r ∈ w.deliveries.rows, r.status = .pending → w.Sheltered F r
  others : ∀ e', e' ≠ e → w.outboxEvents.find? e' = w₀.outboxEvents.find? e'
  unchanged : ∀ error, result = .error error → w.outboxEvents = w₀.outboxEvents

theorem left_of_dispatch {F : OutboxEventEntity → Prop} {w₀ : World} {q : Stage}
    {result : Except Exception Unit} (h : Dispatch F e w₀ q w) (hq : Dispatched result q) :
    Left F e w₀ result w := by
  have hend : (∀ d k, ¬ q.Lists d k) ∧ (∀ d k, ¬ q.Promises d k) ∧ ¬ q.Unread ∧
      ∀ error, result = .error error → q ≠ .returned e := by
    cases result with
    | ok _ =>
        obtain ⟨e', rfl⟩ := hq
        exact ⟨fun _ _ => id, fun _ _ => id, id, fun _ he => absurd he (by simp)⟩
    | error _ =>
        obtain rfl : q = .idle := hq
        exact ⟨fun _ _ => id, fun _ _ => id, id, fun _ _ => by simp⟩
  obtain ⟨hlists, hpromises, hunread, hreturned⟩ := hend
  refine ⟨h.sound, fun r hr hs => ?_, h.others, fun error he => h.unchanged (hreturned error he)⟩
  rcases h.sheltered r.id r (Table.find?_key hr) hs with hshelter | hl | hp | ⟨hu, -⟩
  · exact hshelter
  · exact absurd hl (hlists _ _)
  · exact absurd hp (hpromises _ _)
  · exact absurd hu hunread

/-- The first call of `dispatchOutboxEvent`. -/
theorem scripted_eq {c : Command} (h : Reliable cfg t script c s) (hc : c.enqueues = false) :
    scripted script c s =
      ((answer (script s.2) c s.1).1, (answer (script s.2) c s.1).2, s.2 + 1) := by
  unfold scripted
  rw [exec_of_fault_eq_none (fault_eq_none h.1 (Or.inr hc)).1]

/-- **A dispatch loses nothing that it may fail to enqueue.** -/
theorem dispatch_eval {F : OutboxEventEntity → Prop} (hF : ∀ event, t.Retries cfg event → F event)
    {event : OutboxEventEntity} (hevent : s.1.outboxEvents.find? e = some event)
    (hsound : s.1.Sound) (hs : ∀ r ∈ s.1.deliveries.rows, r.status = .pending →
      s.1.Sheltered F r ∨ r.outboxEventId = e)
    (hmeets : (dispatchOutboxEvent e).Meets (scripted script) (Reliable cfg t script) s) :
    Left F e s.1 ((dispatchOutboxEvent e).eval (scripted script) s).1
      ((dispatchOutboxEvent e).eval (scripted script) s).2.1 := by
  have hfollows : (dispatchOutboxEvent e).Follows (protocol (.dispatch e)) Dispatched .idle :=
    dispatchOutboxEvent_follows (q := .idle) trivial fun e' he => ⟨rfl, Call.dispatch.inj he⟩
  obtain ⟨k, hprog⟩ : ∃ k, dispatchOutboxEvent e = Prog.call (Command.findEvent e) k := ⟨_, rfl⟩
  rw [hprog] at hfollows hmeets ⊢
  have hfirst : scripted script (.findEvent e) s = (.ok (some event), s.1, s.2 + 1) := by
    rw [scripted_eq hmeets.1 rfl]
    simp only [answer, hevent]
  obtain ⟨-, hmeets⟩ := hmeets
  have hid : event.id = e := (Table.find?_eq_some hevent).2
  have hfollows := hfollows.2 (.ok (some event))
  have hnext : (protocol (.dispatch e)).next .idle (.findEvent e) (.ok (some event)) =
      .matching e := congrArg Stage.matching hid
  rw [hnext] at hfollows
  rw [hfirst] at hmeets
  rw [Prog.eval_call, hfirst]
  have hstart : Dispatch F e s.1 (.matching e) s.1 := by
    refine ⟨hsound, trivial, rfl, fun d r hr hpending => ?_, fun hq => hq.elim, fun _ _ => rfl,
      fun _ => rfl⟩
    rcases hs r (Table.find?_eq_some hr).1 hpending with hshelter | he
    · exact Or.inl hshelter
    · exact Or.inr (Or.inr (Or.inr ⟨trivial, he⟩))
  have hstep : ∀ q c s', Dispatch F e s.1 q s'.1 → (protocol (.dispatch e)).allows q c →
      Reliable cfg t script c s' → Dispatch F e s.1
        ((protocol (.dispatch e)).next q c (scripted script c s').1)
        (scripted script c s').2.1 := by
    intro q c s' h hc hok
    refine h.exec hc hok.1 (hok.2.imp_right fun hretried d hd => ?_)
    exact (hretried d hd).imp_right fun hall r hr event hevent => hF event (hall r hr event hevent)
  obtain ⟨q, hq, hdispatch⟩ := hfollows.triple _ hstep (s.1, s.2 + 1) hstart hmeets
  exact left_of_dispatch hdispatch hq

/-! #### The poller -/

/-- The calls of the other services, each carried out under a script. -/
def servicesScripted (script : Script) :
    Prog.Handler ServiceCall ServiceCall.Res Exception (World × ℕ) :=
  fun c s => c.perform.eval (scripted script) s

/-- Every call that a call of another service makes is reliable. -/
def ReliableService (cfg : Config) (t : Call) (script : Script) (c : ServiceCall) (s : World × ℕ) :
    Prop :=
  c.perform.Meets (scripted script) (Reliable cfg t script) s

/-- The queue is sound and no delivery is lost. -/
def World.Good (w : World) : Prop := w.Sound ∧ w.NoneLost

/-- The events have been tried as often as they were when they were read. -/
def World.Current (w : World) (events : List OutboxEventEntity) : Prop :=
  ∀ event ∈ events, ∃ now, w.outboxEvents.find? event.id = some now ∧
    now.retryCount = event.retryCount

/-- The event is PROCESSING. -/
def World.Marked (w : World) (e : Uuid) : Prop :=
  ∃ event, w.outboxEvents.find? e = some event ∧ event.status = .processing

/-- A poll can pick up the event, and if it is this one, will give it another dispatch. -/
def RetriesHere (cfg : Config) (e : Uuid) (event : OutboxEventEntity) : Prop :=
  Pollable event ∧ (event.id = e → event.retryCount + 1 < cfg.outboxMaxAttempts)

variable {event : OutboxEventEntity} {events : List OutboxEventEntity}

theorem good_of_same (h : w.Good) (hdeliveries : w'.deliveries = w.deliveries)
    (hqueue : w'.queue = w.queue) (hevents : w'.outboxEvents = w.outboxEvents) : w'.Good := by
  obtain ⟨hsound, hnone⟩ := h
  refine ⟨⟨?_, ?_, ?_⟩, fun r hr hs => ?_⟩
  · rw [hdeliveries, hevents]
    exact hsound.event
  · rw [hqueue]
    exact fun job hj => (hsound.known job hj).mono (.of_eq hdeliveries)
  · rw [hqueue]
    exact fun job hj => (hsound.spent job hj).mono (.of_eq hdeliveries)
  · rw [hdeliveries] at hr
    exact (hnone r hr hs).mono (fun k hk => hqueue ▸ hk) (by rw [hevents])

/-- An event is patched. -/
theorem sound_updateEvent {p : EventPatch} {now : Time} (h : w.Sound) :
    { w with outboxEvents := w.updateEvent now e p }.Sound := by
  refine ⟨fun d r hr => ?_, h.known, h.spent⟩
  have hevent := h.event d r hr
  dsimp only
  rw [find?_updateEvent]
  split_ifs
  · rwa [Option.isSome_map]
  · exact hevent

/-- What shelters a delivery after an event is patched. -/
theorem sheltered_updateEvent {F F' : OutboxEventEntity → Prop} {p : EventPatch} {now : Time}
    {r : WebhookDeliveryEntity} (h : w.Sheltered F r)
    (hother : ∀ event, event.id ≠ e → F event → F' event)
    (hsame : ∀ event, w.outboxEvents.find? e = some event → F event → F' (p.apply now event)) :
    { w with outboxEvents := w.updateEvent now e p }.Sheltered F' r := by
  refine h.imp id fun ⟨event, hevent, hF⟩ => ?_
  have hid : event.id = r.outboxEventId := (Table.find?_eq_some hevent).2
  dsimp only
  rw [find?_updateEvent]
  split_ifs with he
  · refine ⟨p.apply now event, ?_, hsame event (he ▸ hevent) hF⟩
    rw [hevent]
    rfl
  · exact ⟨event, hevent, hother event (fun h => he (h.symm.trans hid)) hF⟩

theorem updateEvent_eval {p : EventPatch}
    (h : (updateEvent e p).Meets (scripted script) (Reliable cfg t script) s) :
    (updateEvent e p).eval (scripted script) s =
      if p.Fits then
        (.ok (), { s.1 with outboxEvents := s.1.updateEvent (script s.2).now e p }, s.2 + 1)
      else (.error unstorable, s.1, s.2 + 1) := by
  have hmeets : Reliable cfg t script (.updateEvent e p) s := h.1
  rw [updateEvent, Prog.eval_await, scripted_eq hmeets rfl]
  by_cases hp : p.Fits
  · simp only [answer, if_pos hp]
  · simp only [answer, if_neg hp]

/-- The poller marks the event. -/
theorem mark_triple : Prog.Triple (servicesScripted script) (ReliableService cfg t script)
    (fun s => s.1.Good ∧ s.1.Current (event :: events))
    (.await (ServiceCall.markProcessing event.id))
    (fun r s => r.isOk = true ∧ s.1.Good ∧ s.1.Current (event :: events) ∧
      s.1.Marked event.id) := by
  refine Prog.Triple.await fun s ⟨⟨hsound, hnone⟩, hcurrent⟩ hmeets => ?_
  have heval : servicesScripted script (.markProcessing event.id) s = _ := updateEvent_eval hmeets
  rw [heval, if_pos (by simp [EventPatch.Fits])]
  obtain ⟨now, hnow, -⟩ := hcurrent event (List.mem_cons_self ..)
  have hfind (e : Uuid) :=
    find?_updateEvent s.1 (script s.2).now event.id ⟨.processing, none, none⟩ e
  refine ⟨rfl, ⟨sound_updateEvent hsound, fun r hr hs => ?_⟩, fun event' hevent' => ?_, ?_⟩
  · exact sheltered_updateEvent (hnone r hr hs) (fun _ _ => id) fun _ _ _ => Or.inr rfl
  · obtain ⟨now', hnow', hcount⟩ := hcurrent event' hevent'
    dsimp only
    rw [hfind, hnow']
    split_ifs
    · exact ⟨_, rfl, hcount⟩
    · exact ⟨_, rfl, hcount⟩
  · refine ⟨EventPatch.apply (script s.2).now ⟨.processing, none, none⟩ now,
      (hfind event.id).trans ?_, rfl⟩
    rw [if_pos rfl, hnow]
    rfl

/-- The poller dispatches the event it has marked. -/
theorem dispatch_triple (ht : ∀ event, t.Retries cfg event → RetriesHere cfg e event)
    (hnodup : ∀ event' ∈ events, event'.id ≠ e) :
    Prog.Triple (servicesScripted script) (ReliableService cfg t script)
    (fun s => s.1.Good ∧ s.1.Current (event :: events) ∧ s.1.Marked e)
    (.await (ServiceCall.dispatchOutboxEvent e))
    (fun r s => s.1.Sound ∧ s.1.Current events ∧
      (∀ row ∈ s.1.deliveries.rows, row.status = .pending →
        s.1.Sheltered (RetriesHere cfg e) row) ∧
      (r.isOk = false → s.1.Current (event :: events) ∧ s.1.Marked e)) := by
  refine Prog.Triple.await fun s ⟨⟨hsound, hnone⟩, hcurrent, hmarked⟩ hmeets => ?_
  obtain ⟨now, hnow, hprocessing⟩ := hmarked
  have hleft : Left (RetriesHere cfg e) e s.1 (servicesScripted script (.dispatchOutboxEvent e) s).1
      (servicesScripted script (.dispatchOutboxEvent e) s).2.1 := by
    refine dispatch_eval ht hnow hsound (fun r hr hs => ?_) hmeets
    rcases hnone r hr hs with hjob | ⟨now', hnow', hpollable⟩
    · exact Or.inl (Or.inl hjob)
    · by_cases he : r.outboxEventId = e
      · exact Or.inr he
      · have hid' : now'.id = r.outboxEventId := (Table.find?_eq_some hnow').2
        exact Or.inl (Or.inr ⟨now', hnow', hpollable, fun h => absurd (hid'.symm.trans h) he⟩)
  generalize servicesScripted script (.dispatchOutboxEvent e) s = x at hleft ⊢
  obtain ⟨result, w', n⟩ := x
  refine ⟨hleft.sound, fun event' hevent' => ?_, hleft.sheltered, fun herror => ?_⟩
  · rw [hleft.others event'.id (hnodup event' hevent')]
    exact hcurrent event' (List.mem_cons_of_mem _ hevent')
  · cases result with
    | ok _ => exact absurd herror (by simp [Except.isOk, Except.toBool])
    | error error =>
        have hsame := hleft.unchanged error rfl
        refine ⟨fun event' hevent' => ?_, now, ?_, hprocessing⟩
        · rw [hsame]
          exact hcurrent event' hevent'
        · rw [hsame]
          exact hnow

/-- The event has been dispatched in vain. -/
def World.Refused (w : World) (cfg : Config) (event : OutboxEventEntity)
    (events : List OutboxEventEntity) : Prop :=
  w.Sound ∧ w.Current (event :: events) ∧ w.Marked event.id ∧
    ∀ row ∈ w.deliveries.rows, row.status = .pending →
      w.Sheltered (RetriesHere cfg event.id) row

theorem good_of_refused (h : w.Refused cfg event events) : w.Good ∧ w.Current events :=
  ⟨⟨h.1, fun r hr hs => (h.2.2.2 r hr hs).weaken fun _ hF => hF.1⟩,
    fun event' hevent' => h.2.1 event' (List.mem_cons_of_mem _ hevent')⟩

/-- The poller writes that a dispatch has failed: with another one to come, or, if it
was the last, with every PENDING delivery of the event in the queue. -/
theorem markFailed_triple (hnodup : ∀ event' ∈ events, event'.id ≠ event.id)
    {date : Option JsDate}
    (hdate : date = none → ¬ event.retryCount + 1 < cfg.outboxMaxAttempts) :
    Prog.Triple (servicesScripted script) (ReliableService cfg t script)
      (fun s => s.1.Refused cfg event events)
      (.await (ServiceCall.markFailed event.id (event.retryCount + 1) date))
      (fun _ s => s.1.Good ∧ s.1.Current events) := by
  refine Prog.Triple.await fun s hrefused hmeets => ?_
  have heval : servicesScripted script (.markFailed event.id (event.retryCount + 1) date) s = _ :=
    updateEvent_eval hmeets
  rw [heval]
  split_ifs
  · obtain ⟨hsound, hcurrent, -, hshelter⟩ := hrefused
    obtain ⟨now, hnow, hcount⟩ := hcurrent event (List.mem_cons_self ..)
    refine ⟨⟨sound_updateEvent hsound, fun r hr hs => ?_⟩, fun event' hevent' => ?_⟩
    · refine sheltered_updateEvent (hshelter r hr hs) (fun _ _ hF => hF.1) fun event' hfind hF => ?_
      cases date with
      | some _ => exact Or.inl rfl
      | none =>
          obtain rfl := Option.some.inj (hnow.symm.trans hfind)
          have hlast := hF.2 (Table.find?_eq_some hnow).2
          rw [hcount] at hlast
          exact absurd hlast (hdate rfl)
    · dsimp only
      rw [find?_updateEvent, if_neg (Ne.symm (hnodup event' hevent'))]
      exact hcurrent event' (List.mem_cons_of_mem _ hevent')
  · exact good_of_refused hrefused

/-- **The poller gives the event another dispatch, or gives up.** -/
theorem retry_triple (hnodup : ∀ event' ∈ events, event'.id ≠ event.id) :
    Prog.Triple (servicesScripted script) (ReliableService cfg t script)
      (fun s => s.1.Refused cfg event events)
      (markOutboxEventForRetry cfg event.id event.retryCount)
      (fun _ s => s.1.Good ∧ s.1.Current events) := by
  unfold markOutboxEventForRetry
  dsimp only
  split_ifs with hretry
  · exact Prog.Triple.bind (fun _ (s : World × ℕ) => s.1.Refused cfg event events)
      (Prog.Triple.await fun s hs _ => hs) (fun now => markFailed_triple hnodup (by simp))
      fun _ s hs => good_of_refused hs
  · exact markFailed_triple hnodup fun _ => hretry

/-- **One pass of the poller loses nothing.** -/
theorem processEvent_triple (ht : ∀ e event, t.Retries cfg event → RetriesHere cfg e event)
    (hnodup : ∀ event' ∈ events, event'.id ≠ event.id) :
    Prog.Triple (servicesScripted script) (ReliableService cfg t script)
    (fun s => s.1.Good ∧ s.1.Current (event :: events)) (processEvent cfg event)
    (fun _ s => s.1.Good ∧ s.1.Current events) := by
  refine Prog.Triple.tryCatch (fun r s => match r with
    | .ok _ => s.1.Good ∧ s.1.Current events
    | .error _ => s.1.Refused cfg event events) ?_ (fun _ _ hs => hs) fun _ => retry_triple hnodup
  refine Prog.Triple.bind _ mark_triple (fun _ => ?_) fun _ s hs => ?_
  · refine (dispatch_triple (ht event.id) hnodup).mono (fun s hs => hs.2) fun r s hs => ?_
    obtain ⟨hsound, hcurrent, hshelter, herror⟩ := hs
    cases r with
    | ok _ => exact ⟨⟨hsound, fun r hr hs => (hshelter r hr hs).weaken fun _ hF => hF.1⟩, hcurrent⟩
    | error _ => exact ⟨hsound, (herror rfl).1, (herror rfl).2, hshelter⟩
  · exact absurd hs.1 Bool.false_ne_true

theorem processEvents_triple (ht : ∀ e event, t.Retries cfg event → RetriesHere cfg e event)
    (hnodup : (events.map OutboxEventEntity.id).Nodup) :
    Prog.Triple (servicesScripted script) (ReliableService cfg t script)
    (fun s => s.1.Good ∧ s.1.Current events) (processEvents cfg events)
    (fun _ s => s.1.Good) := by
  induction events with
  | nil => exact Prog.Triple.ret fun s hs => hs.1
  | cons event events ih =>
      rw [List.map_cons, List.nodup_cons] at hnodup
      refine Prog.Triple.bind _ (processEvent_triple ht fun event' hevent' he => ?_)
        (fun _ => ih hnodup.2) fun _ s hs => hs.1
      exact hnodup.1 (he ▸ List.mem_map_of_mem hevent')

/-- The events a poll picks up. -/
theorem getProcessableEvents_triple (limit : ℕ) (staleBefore : Time) :
    Prog.Triple (servicesScripted script) (ReliableService cfg t script) (fun s => s.1.Good)
      (.await (ServiceCall.getProcessableEvents limit staleBefore))
      (fun r s => s.1.Good ∧ ∀ events, r = .ok events →
        s.1.Current events ∧ (events.map OutboxEventEntity.id).Nodup) := by
  refine Prog.Triple.await fun s hgood hmeets => ?_
  obtain ⟨-, hfind, -⟩ := hmeets
  have hfind : Reliable cfg t script (.findProcessable limit (script s.2).now staleBefore)
      (s.1, s.2 + 1) := hfind
  have heval : servicesScripted script (.getProcessableEvents limit staleBefore) s =
      scripted script (.findProcessable limit (script s.2).now staleBefore) (s.1, s.2 + 1) :=
    Prog.eval_await _ _ _
  rw [heval, scripted_eq hfind rfl]
  refine ⟨hgood, fun events he => ?_⟩
  obtain rfl := Except.ok.inj he
  constructor
  · intro event hevent
    have hmem := List.mem_of_mem_take hevent
    rw [List.mem_insertionSort] at hmem
    exact ⟨event, Table.find?_key (List.mem_filter.1 hmem).1, rfl⟩
  · refine ((List.take_sublist _ _).map _).nodup ?_
    rw [((List.perm_insertionSort _ _).map _).nodup_iff]
    exact (List.filter_sublist.map _).nodup s.1.outboxEvents.nodup

theorem pollEvents_triple (ht : ∀ e event, t.Retries cfg event → RetriesHere cfg e event) :
    Prog.Triple (servicesScripted script) (ReliableService cfg t script) (fun s => s.1.Good)
      (pollEvents cfg) (fun _ s => s.1.Good) := by
  refine Prog.Triple.bind (fun _ s => s.1.Good) (Prog.Triple.await fun s hs _ => hs) (fun now => ?_)
    fun _ _ hs => hs
  refine Prog.Triple.bind _ (getProcessableEvents_triple _ _) (fun events s hs => ?_)
    fun _ _ hs => hs.1
  obtain ⟨hcurrent, hnodup⟩ := hs.2 events rfl
  exact processEvents_triple ht hnodup s ⟨hs.1, hcurrent⟩

/-- **A poll loses nothing.** -/
theorem poll_triple (ht : ∀ e event, t.Retries cfg event → RetriesHere cfg e event)
    (service : ℕ) :
    Prog.Triple (scripted script) (Reliable cfg t script) (fun s => s.1.Good)
      (processOutboxBatch cfg service) (fun _ s => s.1.Good) := by
  have hflag {c : ServiceCall} (hc : ∀ s, (servicesScripted script c s).2.1.deliveries =
      s.1.deliveries ∧ (servicesScripted script c s).2.1.queue = s.1.queue ∧
      (servicesScripted script c s).2.1.outboxEvents = s.1.outboxEvents) :
      Prog.Triple (servicesScripted script) (ReliableService cfg t script) (fun s => s.1.Good)
        (.await c) (fun _ s => s.1.Good) :=
    Prog.Triple.await fun s hs _ => good_of_same hs (hc s).1 (hc s).2.1 (hc s).2.2
  suffices h : Prog.Triple (servicesScripted script) (ReliableService cfg t script)
      (fun s => s.1.Good) (poll cfg service) (fun _ s => s.1.Good) from h.expand
  refine Prog.Triple.bind (fun _ (s : World × ℕ) => s.1.Good)
    (hflag (c := .enterPoll service) fun s => ⟨rfl, rfl, rfl⟩) (fun entered => ?_) fun _ _ hs => hs
  split_ifs
  · refine Prog.Triple.bind (fun _ (s : World × ℕ) => s.1.Good) ?_
      (fun _ => hflag (c := .leavePoll service) fun s => ⟨rfl, rfl, rfl⟩) fun _ _ hs => hs
    exact Prog.Triple.tryCatch (fun _ s => s.1.Good) (pollEvents_triple ht) (fun _ _ hs => hs)
      fun _ => Prog.Triple.ret fun _ hs => hs
  · exact Prog.Triple.ret fun _ hs => hs

/-- **A dispatch loses nothing.** -/
theorem dispatch_good (ht : ∀ event, t.Retries cfg event → Pollable event) (hgood : s.1.Good)
    (hmeets : (dispatchOutboxEvent e).Meets (scripted script) (Reliable cfg t script) s) :
    ((dispatchOutboxEvent e).eval (scripted script) s).2.1.Good := by
  cases hevent : s.1.outboxEvents.find? e with
  | some event =>
      have hleft := dispatch_eval ht hevent hgood.1
        (fun r hr hs => Or.inl (hgood.2 r hr hs)) hmeets
      exact ⟨hleft.sound, hleft.sheltered⟩
  | none =>
      obtain ⟨g, hg, hprog⟩ : ∃ g : Option OutboxEventEntity → Service Unit, g none = .ret () ∧
          dispatchOutboxEvent e = (findEvent e).bind g := by
        refine ⟨_, ?_, rfl⟩
        rfl
      rw [hprog] at hmeets ⊢
      have hfind : Reliable cfg t script (.findEvent e) s := (Prog.meets_bind hmeets).1.1
      rw [Prog.eval_bind, findEvent, Prog.eval_await, scripted_eq hfind rfl]
      simp only [answer, hevent, hg]
      exact hgood

/-- **One whole call loses nothing.** -/
theorem perform_good (hgood : w.Good) (x : Call × Script)
    (hmeets : ∀ w' ∈ (system cfg).spawn x.1 w,
      ((system cfg).body x.1).Meets (scripted x.2) (Reliable cfg x.1 x.2) (w', 0)) :
    (perform cfg w x).Good := by
  obtain ⟨t, script⟩ := x
  unfold perform
  cases hspawn : (system cfg).spawn t w with
  | none => exact hgood
  | some w' =>
      have hmeets := hmeets w' hspawn
      have hknows := knows_entry hgood.1 hspawn
      have hgood' : w'.Good := by
        obtain ⟨hdeliveries, hevents, hlive, -, -⟩ := spawn_same hspawn
        refine ⟨hgood.1.spawn hspawn, fun r hr hs => ?_⟩
        rw [hdeliveries] at hr
        exact (hgood.2 r hr hs).mono (fun k hk => (hlive _).2 hk) (by rw [hevents])
      cases t with
      | dispatch e => exact dispatch_good (t := .dispatch e) (fun _ => id) hgood' hmeets
      | process d =>
          exact working_eval (t := .process d) trivial (fun _ hj => absurd hj (by simp [Call.job]))
            (processDelivery_follows cfg d) hknows hgood'.1 hgood'.2 hmeets
      | work job now =>
          exact working_eval (t := .work job now) trivial (fun _ hj => by rw [Option.some.inj hj])
            (runJob_follows cfg job now) hknows hgood'.1 hgood'.2 hmeets
      | poll service =>
          exact poll_triple (t := .poll service) (fun e event h => ⟨h.1, fun _ => h.2⟩) service
            (w', 0) hgood' hmeets

end Whole

/-- **No delivery is lost.**  Whole calls run one after the other, and nothing fails but
enqueues of dispatches; if an enqueue fails only where its delivery has a job or the
event of the delivery is given another dispatch, then after every run each PENDING
delivery has a job in the queue or an event that is PENDING or PROCESSING. -/
theorem none_lost (cfg : Config) (w : World) (hsound : w.Sound) (hw : w.NoneLost)
    (xs : List (Call × Script))
    (h : AllMeet cfg (fun t ω c w => OnlyEnqueuesFail t ω c w ∧ Retried cfg t ω c w) w xs) :
    (performAll cfg w xs).NoneLost := by
  have hgood : (performAll cfg w xs).Good := by
    induction xs generalizing w with
    | nil => exact ⟨hsound, hw⟩
    | cons x xs ih =>
        obtain ⟨hsound', hnone⟩ := perform_good ⟨hsound, hw⟩ x h.1
        exact ih _ hsound' hnone h.2
  exact hgood.2

/-! ### An event whose enqueues fail -/

/-- The event waits for its first poll. -/
def waiting : World :=
  { undispatched with outboxEvents := ⟨[{ sampleEvent with status := .pending }], by decide⟩ }

/-- Poll number `i`, in which call number `n` is refused. -/
def pollRefusing (i n : ℕ) : Call × Script :=
  (.poll 0, fun m => { if m = n then refusing else drawing with now := 100000 * i })

/-- The first poll cannot enqueue the delivery it creates, the second does. -/
def secondPoll : List (Call × Script) := [pollRefusing 0 10, pollRefusing 1 100]

theorem none_lost_secondPoll : (performAll sampleConfig waiting secondPoll).NoneLost :=
  none_lost sampleConfig waiting (.of_empty rfl rfl) (by decide) secondPoll (by decide)

/-- None of the five polls can enqueue the delivery. -/
def fivePolls : List (Call × Script) :=
  [pollRefusing 0 10, pollRefusing 1 8, pollRefusing 2 8, pollRefusing 3 8, pollRefusing 4 8]

theorem last_poll_loses :
    AllMeet sampleConfig OnlyEnqueuesFail waiting fivePolls ∧ waiting.NoneLost ∧
      (performAll sampleConfig waiting fivePolls).deliveries.rows.map (·.status) = [.pending] ∧
      (performAll sampleConfig waiting fivePolls).queue.live = [] ∧
      (performAll sampleConfig waiting fivePolls).outboxEvents.rows.map (·.status) = [.failed] ∧
      ¬ (performAll sampleConfig waiting fivePolls).NoneLost := by
  decide

end Webhooks
end LedgerEngine
