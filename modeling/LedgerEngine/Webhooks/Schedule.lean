/-
# When an event is dispatched again

An event whose dispatch fails is PENDING again until its next attempt is due, and
FAILED once `outboxMaxAttempts` attempts have failed.  The count is taken from the
row the poll has read, the date from the clock, and `getProcessableEvents` reads
both back, beside the age of rows left PROCESSING.

The log of the polls says how many attempts of an event have failed (`failures`) and
when the next one may be made (`Spaced`), and nothing in it knows of the columns.  An
invariant ties the two (`Settled`): the row carries the count, and it cannot be
selected before an attempt would be in time.  Every call of a poll keeps it (`keeps`),
so it holds after every run.
-/

import LedgerEngine.Webhooks.Polls

namespace LedgerEngine
namespace Webhooks

/-! ### What is asked of a log -/

/-- The event a call attempts. -/
def ServiceCall.tried : ServiceCall → Option Uuid
  | .markProcessing eventId | .dispatchOutboxEvent eventId => some eventId
  | _ => none

/-- The call is part of an attempt of the event. -/
def Served.tries (e : Uuid) (x : Served) : Bool := x.call.tried = some e

/-- An attempt of the event fails with the call. -/
def Served.fails (e : Uuid) (x : Served) : Bool := x.tries e && !x.result.isOk

/-- The call dispatches the event. -/
def Served.succeeds (e : Uuid) : Served → Bool
  | ⟨.dispatchOutboxEvent eventId, .ok _, _, _, _⟩ => eventId = e
  | _ => false

/-- The events the call selects. -/
def Served.selects : Served → List OutboxEventEntity
  | ⟨.getProcessableEvents _ _, .ok events, _, _, _⟩ => events
  | _ => []

/-- How many attempts of the event have failed. -/
def failures (e : Uuid) (log : List Served) : ℕ := log.countP (Served.fails e)

/-- The last call that was part of an attempt of the event. -/
def latest (e : Uuid) (log : List Served) : Option Served := log.find? (Served.tries e)

/-- At time `t` every failed attempt has been followed by its backoff, and none was
the last there may be. -/
def Spaced (cfg : Config) (e : Uuid) (t : Time) : List Served → Prop
  | [] => True
  | x :: log =>
      (x.fails e = true → failures e log + 1 < cfg.outboxMaxAttempts ∧
        x.ended + backoff cfg.outboxBackoffMs (failures e log + 1) ≤ t) ∧ Spaced cfg e t log

/-- The call was in time when the log was `log`: an attempt is made and the event is
selected only after every backoff, and after a dispatch that succeeded it is selected
only when its row has not been changed for `outboxStaleAfterMs`. -/
structure Served.InTime (cfg : Config) (e : Uuid) (x : Served) (log : List Served) : Prop where
  tried : x.tries e = true → Spaced cfg e x.began log
  selected : ∀ r ∈ x.selects, r.id = e → Spaced cfg e x.ended log
  untouched : (latest e log).any (Served.succeeds e) = true → ∀ r ∈ x.selects, r.id = e →
    ∃ u, x.changed = some u ∧ u + cfg.outboxStaleAfterMs ≤ x.ended

/-- Every call was in time. -/
def Punctual (cfg : Config) (e : Uuid) : List Served → Prop
  | [] => True
  | x :: log => x.InTime cfg e log ∧ Punctual cfg e log

/-- The row is as the attempts in the log leave it. -/
structure Reflects (cfg : Config) (e : Uuid) (r : OutboxEventEntity)
    (log : List Served) : Prop where
  count : r.retryCount = failures e log
  failed : r.status = .failed ↔ failures e log = cfg.outboxMaxAttempts
  retried : (latest e log).any (Served.fails e) = true → failures e log < cfg.outboxMaxAttempts →
    r.status = .pending
  dispatched : (latest e log).any (Served.succeeds e) = true →
    r.status = .published ∨ r.status = .processing

/-! ### What is asked of a run -/

/-- A failed attempt of the event is recorded, and a dispatch that succeeds publishes
the event or leaves it PROCESSING. -/
def ServiceCall.Conforms (e : Uuid) : (c : ServiceCall) → Except Exception c.Res × Watch → Prop
  | .markFailed eventId _ _, r => eventId = e → r.1 = .ok ()
  | .dispatchOutboxEvent eventId, r => eventId = e → r.1 = .ok () →
      ∀ row ∈ r.2.seen.row e, row.status = .published ∨ row.status = .processing
  | _, _ => True

/-- The step is one of the runs the results below are about. -/
def Conforming (service : ℕ) (e : Uuid) (P : Polls) : Label Unit (ℕ → Turn) → Prop
  | .spawn _ => True
  | .step i turns => Fair service e P.world.seen.clock turns ∧
      ∀ c ∈ P.threads[i]?.bind Thread.head, c.Conforms e (serve e turns c P.world)

/-! ### Logs -/

section Log

variable {cfg : Config} {e : Uuid} {t t' : Time} {log : List Served} {x : Served}

theorem ServiceCall.tried_ne {c : ServiceCall} (hc : c.event ≠ some e) : c.tried ≠ some e := by
  cases c with
  | markProcessing eventId => exact hc
  | dispatchOutboxEvent eventId => exact hc
  | _ => simp [ServiceCall.tried]

theorem failures_cons (e : Uuid) (x : Served) (log : List Served) :
    failures e (x :: log) = failures e log + if x.fails e then 1 else 0 := by
  unfold failures
  rw [List.countP_cons]

theorem latest_cons (e : Uuid) (x : Served) (log : List Served) :
    latest e (x :: log) = if x.tries e then some x else latest e log := by
  unfold latest
  rw [List.find?_cons]
  cases x.tries e <;> rfl

theorem fails_of_not_tries (h : x.tries e = false) : x.fails e = false := by
  unfold Served.fails
  rw [h, Bool.false_and]

theorem not_succeeds_of_fails (h : x.fails e = true) : x.succeeds e = false := by
  obtain ⟨c, r, began, ended, changed⟩ := x
  unfold Served.fails at h
  cases r with
  | error _ => cases c <;> rfl
  | ok _ => simp [Except.isOk, Except.toBool] at h

theorem Spaced.mono (h : Spaced cfg e t log) (ht : t ≤ t') : Spaced cfg e t' log := by
  induction log with
  | nil => trivial
  | cons x log ih =>
      refine ⟨fun hx => ?_, ih h.2⟩
      obtain ⟨hleft, hdue⟩ := h.1 hx
      exact ⟨hleft, hdue.trans ht⟩

theorem Spaced.cons (h : Spaced cfg e t log) (hx : x.fails e = false) :
    Spaced cfg e t (x :: log) :=
  ⟨fun h => absurd (hx.symm.trans h) Bool.false_ne_true, h⟩

end Log

/-! ### What ties the row to the log -/

/-- The row is as the log says, and while it may be selected it is selected only when
an attempt would be in time. -/
structure Settled (cfg : Config) (e : Uuid) (r : OutboxEventEntity) (clock : Time)
    (log : List Served) : Prop where
  reflects : Reflects cfg e r log
  waits : r.status = .pending ∨ r.status = .processing → ∀ t, clock ≤ t →
    (r.status = .pending → ∀ due, r.nextRetryAt = some due → due ≤ t) → Spaced cfg e t log

/-- An attempt of the event may be made now, and its count is that of the log. -/
structure Due (cfg : Config) (e : Uuid) (event : OutboxEventEntity) (clock : Time)
    (log : List Served) : Prop where
  count : event.retryCount = failures e log
  left : failures e log < cfg.outboxMaxAttempts
  spaced : Spaced cfg e clock log

/-- The events are different, and the one watched is as it was read and due. -/
structure Queued (cfg : Config) (e : Uuid) (row : Option OutboxEventEntity) (clock : Time)
    (log : List Served) (events : List OutboxEventEntity) : Prop where
  nodup : (events.map OutboxEventEntity.id).Nodup
  due : ∀ x ∈ events, x.id = e → row = some x ∧ Due cfg e x clock log

/-- The last attempt of the event has failed, one more than its row was read with. -/
structure Failing (cfg : Config) (e : Uuid) (row : Option OutboxEventEntity)
    (log : List Served) (event : OutboxEventEntity) : Prop where
  count : failures e log = event.retryCount + 1
  within : failures e log ≤ cfg.outboxMaxAttempts
  last : (latest e log).any (Served.fails e) = true
  exists_row : ∃ r, row = some r

/-- What a poll knows at each stage. -/
def Polling.Sound (cfg : Config) (e : Uuid) (row : Option OutboxEventEntity) (clock : Time)
    (log : List Served) : Polling → Prop
  | selecting staleBefore => staleBefore + cfg.outboxStaleAfterMs ≤ clock
  | marking event events => Queued cfg e row clock log (event :: events)
  | dispatching event events =>
      event.id ∉ events.map OutboxEventEntity.id ∧ Queued cfg e row clock log events ∧
        (event.id = e → Due cfg e event clock log)
  | dating event events =>
      event.id ∉ events.map OutboxEventEntity.id ∧ Queued cfg e row clock log events ∧
        event.retryCount + 1 < cfg.outboxMaxAttempts ∧
          (event.id = e → Failing cfg e row log event ∧
            ∀ t, clock + backoff cfg.outboxBackoffMs (event.retryCount + 1) ≤ t →
              Spaced cfg e t log)
  | recording event nextRetryAt events =>
      event.id ∉ events.map OutboxEventEntity.id ∧ Queued cfg e row clock log events ∧
        (nextRetryAt = none ↔ cfg.outboxMaxAttempts ≤ event.retryCount + 1) ∧
          (event.id = e → Failing cfg e row log event ∧
            ∀ due t, nextRetryAt = some (some due) → due ≤ t → Spaced cfg e t log)
  | _ => True

section Later

variable {cfg : Config} {e : Uuid} {row : Option OutboxEventEntity} {clock clock' : Time}
  {log : List Served} {x : Served}

theorem failures_later (hx : x.fails e = false) : failures e (x :: log) = failures e log := by
  rw [failures_cons, hx]
  rfl

theorem latest_later (hx : x.tries e = false) : latest e (x :: log) = latest e log := by
  rw [latest_cons, hx]
  rfl

theorem Due.later {event : OutboxEventEntity} (h : Due cfg e event clock log)
    (hclock : clock ≤ clock') (hx : x.fails e = false) : Due cfg e event clock' (x :: log) where
  count := h.count.trans (failures_later hx).symm
  left := (failures_later hx).trans_lt h.left
  spaced := (h.spaced.mono hclock).cons hx

theorem Queued.later {events : List OutboxEventEntity} (h : Queued cfg e row clock log events)
    (hclock : clock ≤ clock') (hx : x.fails e = false) :
    Queued cfg e row clock' (x :: log) events where
  nodup := h.nodup
  due y hy hid := ⟨(h.due y hy hid).1, (h.due y hy hid).2.later hclock hx⟩

theorem Failing.later {event : OutboxEventEntity} (h : Failing cfg e row log event)
    (hx : x.tries e = false) : Failing cfg e row (x :: log) event where
  count := (failures_later (fails_of_not_tries hx)).trans h.count
  within := (failures_later (fails_of_not_tries hx)).trans_le h.within
  last := by
    rw [latest_later hx]
    exact h.last
  exists_row := h.exists_row

/-- **What a poll knows stays true** while the row is left alone. -/
theorem Polling.Sound.later {q : Polling} (h : q.Sound cfg e row clock log)
    (hclock : clock ≤ clock') (hx : x.tries e = false) : q.Sound cfg e row clock' (x :: log) := by
  have hfails := fails_of_not_tries hx
  cases q with
  | selecting staleBefore => exact le_trans h hclock
  | marking event events => exact Queued.later h hclock hfails
  | dispatching event events =>
      exact ⟨h.1, h.2.1.later hclock hfails, fun hid => (h.2.2 hid).later hclock hfails⟩
  | dating event events =>
      obtain ⟨hnew, hqueued, hleft, hevent⟩ := h
      refine ⟨hnew, hqueued.later hclock hfails, hleft, fun hid => ?_⟩
      obtain ⟨hfailing, hspaced⟩ := hevent hid
      refine ⟨hfailing.later hx, fun t ht => (hspaced t ?_).cons hfails⟩
      exact (Int.add_le_add_right hclock _).trans ht
  | recording event nextRetryAt events =>
      obtain ⟨hnew, hqueued, hleft, hevent⟩ := h
      refine ⟨hnew, hqueued.later hclock hfails, hleft, fun hid => ?_⟩
      obtain ⟨hfailing, hspaced⟩ := hevent hid
      exact ⟨hfailing.later hx, fun due t hdue ht => (hspaced due t hdue ht).cons hfails⟩
  | _ => trivial

theorem Settled.later {r : OutboxEventEntity} (h : Settled cfg e r clock log)
    (hclock : clock ≤ clock') (hx : x.tries e = false) : Settled cfg e r clock' (x :: log) where
  reflects := {
    count := h.reflects.count.trans (failures_later (fails_of_not_tries hx)).symm
    failed := by
      rw [failures_later (fails_of_not_tries hx)]
      exact h.reflects.failed
    retried := by
      rw [failures_later (fails_of_not_tries hx), latest_later hx]
      exact h.reflects.retried
    dispatched := by
      rw [latest_later hx]
      exact h.reflects.dispatched }
  waits hopen t ht hdue :=
    (h.waits hopen t (hclock.trans ht) hdue).cons (fails_of_not_tries hx)

theorem Settled.mono {r : OutboxEventEntity} (h : Settled cfg e r clock log)
    (hclock : clock ≤ clock') : Settled cfg e r clock' log :=
  { h with waits := fun hopen t ht => h.waits hopen t (hclock.trans ht) }

/-- A row that may be selected now is due. -/
theorem Settled.due {r : OutboxEventEntity} (h : Settled cfg e r clock log)
    (hmax : failures e log ≤ cfg.outboxMaxAttempts) {now staleBefore : Time} (hnow : now ≤ clock)
    (hr : processable now staleBefore r = true) : Due cfg e r clock log := by
  have hopen : r.status = .pending ∨ r.status = .processing := by
    unfold processable at hr
    split at hr
    · rename_i hs
      exact Or.inl hs
    · rename_i hs
      exact Or.inr hs
    · exact absurd hr Bool.false_ne_true
  refine ⟨h.reflects.count, lt_of_le_of_ne hmax fun hlast => ?_, ?_⟩
  · have hfailed := h.reflects.failed.2 hlast
    rcases hopen with hs | hs <;> exact absurd (hs.symm.trans hfailed) (by decide)
  · refine h.waits hopen clock le_rfl fun hs due hdue => ?_
    unfold processable at hr
    rw [hs, hdue] at hr
    exact le_trans (of_decide_eq_true hr) hnow

end Later

/-! ### An attempt -/

section Attempt

variable {cfg : Config} {e : Uuid} {row row' : Option OutboxEventEntity} {clock clock' : Time}
  {log : List Served} {x : Served} {event r : OutboxEventEntity} {events : List OutboxEventEntity}

theorem Queued.of_notMem (hnodup : (events.map OutboxEventEntity.id).Nodup)
    (he : e ∉ events.map OutboxEventEntity.id) : Queued cfg e row clock log events :=
  ⟨hnodup, fun _ hx hid => absurd (hid ▸ List.mem_map_of_mem hx) he⟩

theorem Queued.tail (h : Queued cfg e row clock log (event :: events)) :
    Queued cfg e row clock log events :=
  ⟨h.nodup.of_cons, fun x hx => h.due x (List.mem_cons_of_mem _ hx)⟩

theorem sound_batch (h : Queued cfg e row clock log events) :
    (Polling.batch events).Sound cfg e row clock log := by
  cases events with
  | nil => trivial
  | cons event events => exact h

/-- An attempt of another event has failed. -/
theorem sound_failed_of_ne (hnew : event.id ∉ events.map OutboxEventEntity.id)
    (hqueued : Queued cfg e row clock log events) (hid : event.id ≠ e) :
    (Polling.failed cfg event events).Sound cfg e row clock log := by
  unfold Polling.failed
  split_ifs with hleft
  · exact ⟨hnew, hqueued, hleft, fun h => absurd h hid⟩
  · exact ⟨hnew, hqueued, iff_of_true rfl (not_lt.1 hleft), fun h => absurd h hid⟩

theorem backoff_nonneg (backoffMs attempts : ℕ) : 0 ≤ backoff backoffMs attempts :=
  mul_nonneg (Int.natCast_nonneg _) (pow_nonneg (by decide) _)

/-- **An attempt of the event has failed**: the next is in time once the backoff has
passed. -/
theorem sound_failed (hnew : event.id ∉ events.map OutboxEventEntity.id)
    (hnodup : (events.map OutboxEventEntity.id).Nodup) (hid : event.id = e)
    (hdue : Due cfg e event clock log) (hclock : clock ≤ clock') (hx : x.fails e = true)
    (hended : x.ended = clock') (hrow : ∃ r, row' = some r) :
    (Polling.failed cfg event events).Sound cfg e row' clock' (x :: log) := by
  have htries : x.tries e = true := (Bool.and_eq_true _ _ ▸ hx).1
  have hqueued : Queued cfg e row' clock' (x :: log) events := .of_notMem hnodup (hid ▸ hnew)
  have hcount : failures e (x :: log) = event.retryCount + 1 := by
    rw [failures_cons, if_pos hx, hdue.count]
  have hfailing : Failing cfg e row' (x :: log) event := by
    refine ⟨hcount, ?_, ?_, hrow⟩
    · rw [hcount, hdue.count]
      exact hdue.left
    · rw [latest_cons, if_pos htries]
      exact hx
  unfold Polling.failed
  split_ifs with hleft
  · refine ⟨hnew, hqueued, hleft, fun _ => ⟨hfailing, fun t ht => ⟨fun _ => ?_, ?_⟩⟩⟩
    · rw [← hdue.count, hended]
      exact ⟨hleft, ht⟩
    · refine hdue.spaced.mono (hclock.trans (le_trans ?_ ht))
      exact Int.le_add_of_nonneg_right (backoff_nonneg _ _)
  · refine ⟨hnew, hqueued, iff_of_true rfl (not_lt.1 hleft), fun _ => ⟨hfailing, ?_⟩⟩
    exact fun due t h => absurd h (by simp)

/-- The row after an attempt that has not failed, or not yet. -/
theorem settled_of_attempt (hdue : Due cfg e event clock log) (hclock : clock ≤ clock')
    (htries : x.tries e = true) (hx : x.fails e = false) (hcount : r.retryCount = failures e log)
    (hstatus : r.status = .published ∨ r.status = .processing) :
    Settled cfg e r clock' (x :: log) := by
  have hfailures : failures e (x :: log) = failures e log := failures_later hx
  refine ⟨⟨hcount.trans hfailures.symm, ?_, fun h _ => ?_, fun _ => hstatus⟩, fun _ t ht _ => ?_⟩
  · rw [hfailures]
    refine iff_of_false (fun hs => ?_) hdue.left.ne
    rcases hstatus with h | h <;> exact absurd (h.symm.trans hs) (by decide)
  · rw [latest_cons, if_pos htries] at h
    exact absurd (hx.symm.trans h) Bool.false_ne_true
  · exact (hdue.spaced.mono (hclock.trans ht)).cons hx

theorem Failing.not_succeeded (h : Failing cfg e row log event) :
    (latest e log).any (Served.succeeds e) = false := by
  have hlast := h.last
  cases hx : latest e log with
  | none => rfl
  | some x =>
      rw [hx] at hlast
      exact not_succeeds_of_fails hlast

/-- **The row once the failure is recorded.** -/
theorem settled_of_record {nextRetryAt : Option JsDate} (hfailing : Failing cfg e row log event)
    (hlast : nextRetryAt = none ↔ cfg.outboxMaxAttempts ≤ event.retryCount + 1)
    (hspaced : ∀ due t, nextRetryAt = some (some due) → due ≤ t → Spaced cfg e t log)
    (hstorable : Storable nextRetryAt) (hx : x.tries e = false) (now : Time) :
    Settled cfg e ((failedPatch (event.retryCount + 1) nextRetryAt).apply now r) clock'
      (x :: log) := by
  have hwithin : event.retryCount + 1 ≤ cfg.outboxMaxAttempts := hfailing.count ▸ hfailing.within
  have hcount : failures e (x :: log) = event.retryCount + 1 :=
    (failures_later (fails_of_not_tries hx)).trans hfailing.count
  have hnot : (latest e (x :: log)).any (Served.succeeds e) = false := by
    rw [latest_later hx]
    exact hfailing.not_succeeded
  cases nextRetryAt with
  | none =>
      have hmax : event.retryCount + 1 = cfg.outboxMaxAttempts := le_antisymm hwithin (hlast.1 rfl)
      refine ⟨⟨hcount.symm, ?_, fun _ h => ?_, fun h => ?_⟩, fun h => ?_⟩
      · exact iff_of_true rfl (hcount.trans hmax)
      · exact absurd (hcount.trans hmax) h.ne
      · exact absurd (hnot.symm.trans h) Bool.false_ne_true
      · rcases h with h | h <;> exact absurd h (by simp [failedPatch, EventPatch.apply])
  | some date =>
      cases date with
      | none => exact absurd rfl hstorable
      | some due =>
          have hleft : event.retryCount + 1 < cfg.outboxMaxAttempts := by
            by_contra h
            exact absurd (hlast.2 (not_lt.1 h)) (by simp)
          refine ⟨⟨hcount.symm, ?_, fun _ _ => rfl, fun h => ?_⟩, fun _ t ht hdue => ?_⟩
          · exact iff_of_false (by simp [failedPatch, EventPatch.apply]) (hcount.trans_lt hleft).ne
          · exact absurd (hnot.symm.trans h) Bool.false_ne_true
          · exact (hspaced due t rfl (hdue rfl due rfl)).cons (fails_of_not_tries hx)

end Attempt

/-! ### Runs -/

/-- What holds between the calls of the polls. -/
structure Governed (cfg : Config) (service : ℕ) (e : Uuid) (s : Watch)
    (ts : List (Unit × Polling)) : Prop where
  stamped : s.seen.Stamped e
  punctual : Punctual cfg e s.log
  within : failures e s.log ≤ cfg.outboxMaxAttempts
  row : (∀ u ∈ ts, ¬ u.2.Records e) →
    ∃ r, s.seen.row e = some r ∧ Settled cfg e r s.seen.clock s.log
  flag : ∀ u ∈ ts, u.2.Holds → service ∈ s.seen.world.polling
  sole : ∀ (i j : ℕ) (u v : Unit × Polling), ts[i]? = some u → ts[j]? = some v → u.2.Holds →
    v.2.Holds → i = j
  sound : ∀ u ∈ ts, u.2.Sound cfg e (s.seen.row e) s.seen.clock s.log

theorem Polling.Records.holds {e : Uuid} {q : Polling} (h : q.Records e) : q.Holds := by
  cases q <;> trivial

theorem Polling.sound_of_not_holds {cfg : Config} {e : Uuid} {row : Option OutboxEventEntity}
    {clock : Time} {log : List Served} {q : Polling} (h : ¬ q.Holds) :
    q.Sound cfg e row clock log := by
  cases q <;> first | trivial | exact absurd trivial h

section Run

variable {cfg : Config} {service : ℕ} {e : Uuid} {s s' : Watch} {ts : List (Unit × Polling)}
  {i : ℕ} {q q' : Polling} {x : Served}

/-- The other polls do not hold the flag. -/
theorem Governed.others (h : Governed cfg service e s ts) (hi : ts[i]? = some ((), q))
    (hq : q.Holds) {u : Unit × Polling} (hu : u ∈ ts.set i ((), q')) :
    u = ((), q') ∨ ¬ u.2.Holds := by
  obtain ⟨j, hj⟩ := List.mem_iff_getElem?.1 hu
  rcases getElem?_set_some hj with ⟨-, rfl⟩ | ⟨hne, hj⟩
  · exact Or.inl rfl
  · exact Or.inr fun hholds => hne (h.sole j i u _ hj hi hholds hq)

/-- The poll that holds the flag is not recording: the row is settled. -/
theorem Governed.settled (h : Governed cfg service e s ts) (hi : ts[i]? = some ((), q))
    (hq : q.Holds) (hrecords : ¬ q.Records e) :
    ∃ r, s.seen.row e = some r ∧ Settled cfg e r s.seen.clock s.log := by
  refine h.row fun u hu hu' => ?_
  obtain ⟨j, hj⟩ := List.mem_iff_getElem?.1 hu
  obtain rfl := h.sole j i u _ hj hi hu'.holds hq
  obtain rfl := Option.some.inj (hj.symm.trans hi)
  exact hrecords hu'

/-- **The poll that holds the flag makes a call.** -/
theorem Governed.held (h : Governed cfg service e s ts) (hi : ts[i]? = some ((), q))
    (hq : q.Holds) (hstamped : s'.seen.Stamped e) (hpunctual : Punctual cfg e s'.log)
    (hwithin : failures e s'.log ≤ cfg.outboxMaxAttempts)
    (hrow : ¬ q'.Records e → ∃ r, s'.seen.row e = some r ∧ Settled cfg e r s'.seen.clock s'.log)
    (hflag : q'.Holds → service ∈ s'.seen.world.polling)
    (hsound : q'.Sound cfg e (s'.seen.row e) s'.seen.clock s'.log) :
    Governed cfg service e s' (ts.set i ((), q')) where
  stamped := hstamped
  punctual := hpunctual
  within := hwithin
  row hnone := by
    have hlen : i < ts.length := (List.getElem?_eq_some_iff.1 hi).1
    exact hrow (hnone _ (List.mem_set hlen _))
  flag u hu hholds := by
    rcases h.others hi hq hu with rfl | hnot
    · exact hflag hholds
    · exact absurd hholds hnot
  sole j k u v hj hk hu hv := by
    rcases getElem?_set_some hj with ⟨rfl, -⟩ | ⟨hne, hj⟩
    · rcases getElem?_set_some hk with ⟨rfl, -⟩ | ⟨hne, hk⟩
      · rfl
      · exact absurd (h.sole k _ v _ hk hi hv hq) hne
    · exact absurd (h.sole j i u _ hj hi hu hq) hne
  sound u hu := by
    rcases h.others hi hq hu with rfl | hnot
    · exact hsound
    · exact Polling.sound_of_not_holds hnot

/-- A call that is part of no attempt of the event and leaves its row. -/
theorem Governed.quiet (h : Governed cfg service e s ts) (hi : ts[i]? = some ((), q))
    (hq : q.Holds) (hstamped : s'.seen.Stamped e) (hclock : s.seen.clock ≤ s'.seen.clock)
    (hrow : s'.seen.row e = s.seen.row e) (hlog : s'.log = x :: s.log) (hx : x.tries e = false)
    (hin : x.InTime cfg e s.log) (hrecords : q.Records e → q'.Records e)
    (hflag : q'.Holds → service ∈ s'.seen.world.polling)
    (hsound : q'.Sound cfg e (s'.seen.row e) s'.seen.clock s'.log) :
    Governed cfg service e s' (ts.set i ((), q')) := by
  refine h.held hi hq hstamped ?_ ?_ (fun hnot => ?_) hflag hsound
  · rw [hlog]
    exact ⟨hin, h.punctual⟩
  · rw [hlog, failures_later (fails_of_not_tries hx)]
    exact h.within
  · obtain ⟨r, hr, hsettled⟩ := h.settled hi hq fun hq' => hnot (hrecords hq')
    rw [hlog, hrow]
    exact ⟨r, hr, hsettled.later hclock hx⟩

end Run

section Stage

variable {cfg : Config} {service : ℕ} {e : Uuid} {turns : ℕ → Turn} {s : Watch}
  {ts : List (Unit × Polling)} {i : ℕ} {q : Polling} {c : ServiceCall}

/-- What a call adds to the log. -/
def entry (e : Uuid) (turns : ℕ → Turn) (c : ServiceCall) (s : Watch) : Served :=
  ⟨c, (serve e turns c s).1, s.seen.clock, (serve e turns c s).2.seen.clock,
    (serve e turns c s).2.seen.changed⟩

theorem Served.inTime_of_not {x : Served} {log : List Served} (htries : x.tries e = false)
    (hselects : x.selects = []) : x.InTime cfg e log where
  tried h := absurd (htries.symm.trans h) Bool.false_ne_true
  selected _ hr := absurd hr (hselects ▸ List.not_mem_nil)
  untouched _ _ hr := absurd hr (hselects ▸ List.not_mem_nil)

/-- The call keeps what holds between the calls of the polls. -/
abbrev Keeps (cfg : Config) (service : ℕ) (e : Uuid) (turns : ℕ → Turn) (s : Watch)
    (ts : List (Unit × Polling)) (i : ℕ) (q : Polling) (c : ServiceCall) : Prop :=
  Governed cfg service e (serve e turns c s).2 (ts.set i ((), q.next cfg c (serve e turns c s).1))

/-- A call that is part of no attempt of the event, made by the poll that holds the flag. -/
theorem Governed.leaves (h : Governed cfg service e s ts) (hi : ts[i]? = some ((), q))
    (hq : q.Holds) (hfair : Fair service e s.seen.clock turns) (henter : ∀ n, c ≠ .enterPoll n)
    (hleave : ∀ n, c ≠ .leavePoll n) (hother : c.event ≠ some e)
    (hin : (entry e turns c s).InTime cfg e s.log)
    (hrecords : q.Records e → (q.next cfg c (serve e turns c s).1).Records e)
    (hsound : (q.next cfg c (serve e turns c s).1).Sound cfg e (s.seen.row e)
      (serve e turns c s).2.seen.clock (serve e turns c s).2.log) :
    Keeps cfg service e turns s ts i q c := by
  have hreaches := serve_reaches hfair h.stamped c henter hleave
  have hsame : (serve e turns c s).2.seen.row e = s.seen.row e := hreaches.row.row_eq hother
  have htries : (entry e turns c s).tries e = false :=
    decide_eq_false (ServiceCall.tried_ne hother)
  refine h.quiet hi hq hreaches.stamped hreaches.since hsame rfl htries hin hrecords
    (fun _ => hreaches.flag.2 (h.flag _ (List.mem_of_getElem? hi) hq)) ?_
  rw [hsame]
  exact hsound

theorem keeps_time (h : Governed cfg service e s ts) (hi : ts[i]? = some ((), .timing))
    (hfair : Fair service e s.seen.clock turns) :
    Keeps cfg service e turns s ts i .timing .dateNow := by
  refine h.leaves hi trivial hfair (by simp) (by simp) (by simp [ServiceCall.event])
    (Served.inTime_of_not rfl rfl) False.elim ?_
  show (serve e turns .dateNow s).2.seen.clock - cfg.outboxStaleAfterMs +
    cfg.outboxStaleAfterMs ≤ (serve e turns .dateNow s).2.seen.clock
  exact (Int.sub_add_cancel _ _).le

/-- A row that is selected after a dispatch that succeeded is stale. -/
theorem untouched_of_processable {s : Watched} {r : OutboxEventEntity} {now staleBefore : Time}
    (hs : s.Stamped e) (hr : s.row e = some r)
    (hstatus : r.status = .published ∨ r.status = .processing)
    (h : processable now staleBefore r = true) : ∃ u, s.changed = some u ∧ u ≤ staleBefore := by
  have hprocessing : r.status = .processing := by
    rcases hstatus with hstatus | hstatus
    · simp [processable, hstatus] at h
    · exact hstatus
  have hstale : r.updatedAt ≤ staleBefore := by
    simpa [processable, hprocessing] using h
  obtain ⟨hupdated, hnew⟩ := hs r hr
  cases hchanged : s.changed with
  | none => exact absurd (hprocessing.symm.trans (hnew hchanged)) (by decide)
  | some u => exact ⟨u, rfl, (hupdated u hchanged).trans hstale⟩

theorem mem_selects {limit : ℕ} {staleBefore : Time} {x : OutboxEventEntity}
    (h : x ∈ (entry e turns (.getProcessableEvents limit staleBefore) s).selects) :
    ∃ events, (serve e turns (.getProcessableEvents limit staleBefore) s).1 = .ok events ∧
      x ∈ events := by
  unfold entry at h
  cases hresult : (serve e turns (.getProcessableEvents limit staleBefore) s).1 with
  | error _ =>
      rw [hresult] at h
      exact absurd h List.not_mem_nil
  | ok events =>
      rw [hresult] at h
      exact ⟨events, rfl, h⟩

/-- **A selection is in time**, and what it selects is due. -/
theorem keeps_select {staleBefore : Time} {limit : ℕ} (h : Governed cfg service e s ts)
    (hi : ts[i]? = some ((), .selecting staleBefore)) (hfair : Fair service e s.seen.clock turns) :
    Keeps cfg service e turns s ts i (.selecting staleBefore)
      (.getProcessableEvents limit staleBefore) := by
  obtain ⟨r, hr, hsettled⟩ := h.settled hi trivial False.elim
  have hstale : staleBefore + cfg.outboxStaleAfterMs ≤ s.seen.clock :=
    h.sound _ (List.mem_of_getElem? hi)
  have hreaches := serve_reaches hfair h.stamped (.getProcessableEvents limit staleBefore)
    (by simp) (by simp)
  have hclock : s.seen.clock ≤
      (serve e turns (.getProcessableEvents limit staleBefore) s).2.seen.clock := hreaches.since
  have htries : (entry e turns (.getProcessableEvents limit staleBefore) s).tries e = false := by
    simp [entry, Served.tries, ServiceCall.tried]
  have hselected {events : List OutboxEventEntity}
      (hok : (serve e turns (.getProcessableEvents limit staleBefore) s).1 = .ok events) :=
    selected_rows hfair hok
  have hdue {events : List OutboxEventEntity} {x : OutboxEventEntity}
      (hok : (serve e turns (.getProcessableEvents limit staleBefore) s).1 = .ok events)
      (hx : x ∈ events) (hid : x.id = e) : s.seen.row e = some x ∧ Due cfg e x
        (serve e turns (.getProcessableEvents limit staleBefore) s).2.seen.clock s.log := by
    obtain ⟨hrow, now, hnow, hprocessable⟩ := (hselected hok).2 x hx hid
    obtain rfl := Option.some.inj (hr.symm.trans hrow)
    exact ⟨hrow, (hsettled.mono hclock).due h.within hnow hprocessable⟩
  refine h.leaves hi trivial hfair (by simp) (by simp) (by simp [ServiceCall.event])
    ⟨fun h => ?_, fun x hx hid => ?_, fun hlatest x hx hid => ?_⟩ False.elim ?_
  · exact absurd (htries.symm.trans h) Bool.false_ne_true
  · obtain ⟨events, hok, hx⟩ := mem_selects hx
    exact (hdue hok hx hid).2.spaced
  · obtain ⟨events, hok, hx⟩ := mem_selects hx
    obtain ⟨hrow, now, -, hprocessable⟩ := (hselected hok).2 x hx hid
    obtain rfl := Option.some.inj (hr.symm.trans hrow)
    have hsame : (serve e turns (.getProcessableEvents limit staleBefore) s).2.seen.row e =
        some r := (show _ = s.seen.row e from hreaches.row).trans hr
    obtain ⟨u, hu, hle⟩ := untouched_of_processable hreaches.stamped hsame
      (hsettled.reflects.dispatched hlatest) hprocessable
    exact ⟨u, hu, (Int.add_le_add_right hle _).trans (hstale.trans hclock)⟩
  · cases hresult : (serve e turns (.getProcessableEvents limit staleBefore) s).1 with
    | error _ => trivial
    | ok events =>
        refine sound_batch ⟨(hselected hresult).1, fun x hx hid => ?_⟩
        obtain ⟨hrow, hdue⟩ := hdue hresult hx hid
        exact ⟨hrow, hdue.later le_rfl (fails_of_not_tries htries)⟩

variable {event : OutboxEventEntity} {events : List OutboxEventEntity}

/-- A call about another event, and so what is queued stays so. -/
theorem Governed.elsewhere (h : Governed cfg service e s ts) (hi : ts[i]? = some ((), q))
    (hq : q.Holds) (hfair : Fair service e s.seen.clock turns) (henter : ∀ n, c ≠ .enterPoll n)
    (hleave : ∀ n, c ≠ .leavePoll n) (hevent : c.event = some event.id) (hid : event.id ≠ e)
    (hselects : (entry e turns c s).selects = []) (hrecords : ¬ q.Records e)
    (hqueued : Queued cfg e (s.seen.row e) s.seen.clock s.log events)
    (hsound : Queued cfg e (s.seen.row e) (serve e turns c s).2.seen.clock (serve e turns c s).2.log
      events → (q.next cfg c (serve e turns c s).1).Sound cfg e (s.seen.row e)
        (serve e turns c s).2.seen.clock (serve e turns c s).2.log) :
    Keeps cfg service e turns s ts i q c := by
  have hother : c.event ≠ some e := fun h => hid (Option.some.inj (hevent.symm.trans h))
  have htries : (entry e turns c s).tries e = false :=
    decide_eq_false (ServiceCall.tried_ne hother)
  have hreaches := serve_reaches hfair h.stamped c henter hleave
  exact h.leaves hi hq hfair henter hleave hother (Served.inTime_of_not htries hselects)
    (fun h => absurd h hrecords)
    (hsound (hqueued.later hreaches.since (fails_of_not_tries htries)))

theorem entry_fails (htried : c.tried = some e) {err : Exception}
    (h : (serve e turns c s).1 = .error err) : (entry e turns c s).fails e = true := by
  show (decide (c.tried = some e) && !(serve e turns c s).1.isOk) = true
  rw [h, decide_eq_true htried]
  rfl

theorem not_entry_fails {a : c.Res} (h : (serve e turns c s).1 = .ok a) :
    (entry e turns c s).fails e = false := by
  show (decide (c.tried = some e) && !(serve e turns c s).1.isOk) = false
  rw [h]
  exact Bool.and_false _

/-- **A call that attempts the event**, made when the event is due. -/
theorem Governed.attempts (h : Governed cfg service e s ts) (hi : ts[i]? = some ((), q))
    (hq : q.Holds) (hfair : Fair service e s.seen.clock turns) (henter : ∀ n, c ≠ .enterPoll n)
    (hleave : ∀ n, c ≠ .leavePoll n) (htried : c.tried = some e)
    (hselects : (entry e turns c s).selects = []) (hid : event.id = e)
    (hnew : event.id ∉ events.map OutboxEventEntity.id)
    (hnodup : (events.map OutboxEventEntity.id).Nodup) (hdue : Due cfg e event s.seen.clock s.log)
    (hthrown : q.thrown cfg = .failed cfg event events)
    (hrow : ∃ r, (serve e turns c s).2.seen.row e = some r)
    (hok : ∀ a, (serve e turns c s).1 = .ok a →
      (∃ r, (serve e turns c s).2.seen.row e = some r ∧
        Settled cfg e r (serve e turns c s).2.seen.clock (serve e turns c s).2.log) ∧
      (q.advance cfg c a).Sound cfg e ((serve e turns c s).2.seen.row e)
        (serve e turns c s).2.seen.clock (serve e turns c s).2.log) :
    Keeps cfg service e turns s ts i q c := by
  have hreaches := serve_reaches hfair h.stamped c henter hleave
  have hin : (entry e turns c s).InTime cfg e s.log := {
    tried := fun _ => hdue.spaced
    selected := fun _ hr => absurd hr (hselects ▸ List.not_mem_nil)
    untouched := fun _ _ hr => absurd hr (hselects ▸ List.not_mem_nil) }
  have hwithin : failures e (serve e turns c s).2.log ≤ cfg.outboxMaxAttempts := by
    refine (failures_cons e (entry e turns c s) s.log).trans_le ?_
    split_ifs
    · exact hdue.left
    · exact h.within
  refine h.held hi hq hreaches.stamped ⟨hin, h.punctual⟩ hwithin ?_
    (fun _ => hreaches.flag.2 (h.flag _ (List.mem_of_getElem? hi) hq)) ?_
  · intro hrecords
    cases hresult : (serve e turns c s).1 with
    | error err =>
        rw [hresult] at hrecords
        refine absurd ?_ hrecords
        show (q.thrown cfg).Records e
        rw [hthrown]
        unfold Polling.failed
        split_ifs <;> exact hid
    | ok a => exact (hok a hresult).1
  · cases hresult : (serve e turns c s).1 with
    | error err =>
        show (q.thrown cfg).Sound cfg e _ _ _
        rw [hthrown]
        exact sound_failed hnew hnodup hid hdue hreaches.since (entry_fails htried hresult) rfl hrow
    | ok a => exact (hok a hresult).2

theorem keeps_mark (h : Governed cfg service e s ts)
    (hi : ts[i]? = some ((), .marking event events)) (hfair : Fair service e s.seen.clock turns) :
    Keeps cfg service e turns s ts i (.marking event events) (.markProcessing event.id) := by
  have hqueued : Queued cfg e (s.seen.row e) s.seen.clock s.log (event :: events) :=
    h.sound _ (List.mem_of_getElem? hi)
  have hreaches := serve_reaches hfair h.stamped (.markProcessing event.id) (by simp) (by simp)
  obtain ⟨hnew, hnodup⟩ := List.nodup_cons.1 hqueued.nodup
  by_cases hid : event.id = e
  · obtain ⟨hrow, hdue⟩ := hqueued.due event List.mem_cons_self hid
    have hpatched : Patched (s.seen.row e) _ _ := (if_pos hid).mp hreaches.row
    refine h.attempts hi trivial hfair (by simp) (by simp) (congrArg some hid) rfl hid hnew hnodup
      hdue rfl (hpatched.exists_row hrow) fun _ hok => ?_
    obtain rfl := hid
    obtain ⟨now, hmade⟩ := markProcessing_made hfair hok
    rw [hrow] at hmade
    refine ⟨⟨_, hmade, ?_⟩, hnew, .of_notMem hnodup hnew, fun _ => ?_⟩
    · exact settled_of_attempt hdue hreaches.since (decide_eq_true rfl) (not_entry_fails hok)
        hdue.count (Or.inr rfl)
    · exact hdue.later hreaches.since (not_entry_fails hok)
  · refine h.elsewhere hi trivial hfair (by simp) (by simp) rfl hid rfl id hqueued.tail
      fun hlater => ?_
    cases (serve e turns (.markProcessing event.id) s).1 with
    | error _ => exact sound_failed_of_ne hnew hlater hid
    | ok _ => exact ⟨hnew, hlater, fun h => absurd h hid⟩

theorem keeps_dispatch (h : Governed cfg service e s ts)
    (hi : ts[i]? = some ((), .dispatching event events)) (hfair : Fair service e s.seen.clock turns)
    (hconforms : (ServiceCall.dispatchOutboxEvent event.id).Conforms e
      (serve e turns (.dispatchOutboxEvent event.id) s)) :
    Keeps cfg service e turns s ts i (.dispatching event events)
      (.dispatchOutboxEvent event.id) := by
  obtain ⟨hnew, hqueued, hevent⟩ := h.sound _ (List.mem_of_getElem? hi)
  have hreaches := serve_reaches hfair h.stamped (.dispatchOutboxEvent event.id) (by simp) (by simp)
  by_cases hid : event.id = e
  · have hdue := hevent hid
    obtain ⟨r, hr, hsettled⟩ := h.settled hi trivial False.elim
    have hpatched : Patched (s.seen.row e) _ _ := (if_pos hid).mp hreaches.row
    obtain ⟨r', hr'⟩ := hpatched.exists_row hr
    refine h.attempts hi trivial hfair (by simp) (by simp) (congrArg some hid) rfl hid hnew
      hqueued.nodup hdue rfl ⟨r', hr'⟩ fun _ hok => ?_
    have hstatus := hconforms hid hok r' hr'
    have hcount := hpatched.retryCount_eq hr hr' hstatus
    refine ⟨⟨r', hr', ?_⟩, sound_batch (.of_notMem hqueued.nodup (hid ▸ hnew))⟩
    exact settled_of_attempt hdue hreaches.since (decide_eq_true (congrArg some hid))
      (not_entry_fails hok) (hcount.trans hsettled.reflects.count) hstatus
  · refine h.elsewhere hi trivial hfair (by simp) (by simp) rfl hid rfl id hqueued fun hlater => ?_
    cases (serve e turns (.dispatchOutboxEvent event.id) s).1 with
    | error _ => exact sound_failed_of_ne hnew hlater hid
    | ok _ => exact sound_batch hlater

theorem some_newDate {ms : ℤ} {due : Time} (h : newDate ms = some due) : ms = due := by
  unfold newDate at h
  split_ifs at h
  exact Option.some.inj h

/-- **The date of the next attempt** is when the backoff has passed. -/
theorem keeps_date (h : Governed cfg service e s ts)
    (hi : ts[i]? = some ((), .dating event events)) (hfair : Fair service e s.seen.clock turns) :
    Keeps cfg service e turns s ts i (.dating event events) .dateNow := by
  obtain ⟨hnew, hqueued, hleft, hevent⟩ := h.sound _ (List.mem_of_getElem? hi)
  have hreaches := serve_reaches hfair h.stamped .dateNow (by simp) (by simp)
  have htries : (entry e turns .dateNow s).tries e = false := rfl
  have hfails := fails_of_not_tries htries
  refine h.leaves hi trivial hfair (by simp) (by simp) (by simp [ServiceCall.event])
    (Served.inTime_of_not htries rfl) id ?_
  refine ⟨hnew, hqueued.later hreaches.since hfails, ?_, fun hid => ?_⟩
  · exact iff_of_false (by simp) (not_le.2 hleft)
  · obtain ⟨hfailing, hspaced⟩ := hevent hid
    refine ⟨hfailing.later htries, fun due t hdue ht => (hspaced t ?_).cons hfails⟩
    have hdate := some_newDate (Option.some.inj hdue)
    refine le_trans ?_ (hdate.trans_le ht)
    exact Int.add_le_add_right hreaches.since _

/-- **The failure is recorded.** -/
theorem keeps_record {nextRetryAt : Option JsDate} (h : Governed cfg service e s ts)
    (hi : ts[i]? = some ((), .recording event nextRetryAt events))
    (hfair : Fair service e s.seen.clock turns)
    (hconforms : (ServiceCall.markFailed event.id (event.retryCount + 1) nextRetryAt).Conforms e
      (serve e turns (.markFailed event.id (event.retryCount + 1) nextRetryAt) s)) :
    Keeps cfg service e turns s ts i (.recording event nextRetryAt events)
      (.markFailed event.id (event.retryCount + 1) nextRetryAt) := by
  obtain ⟨hnew, hqueued, hlast, hevent⟩ := h.sound _ (List.mem_of_getElem? hi)
  have hreaches := serve_reaches hfair h.stamped
    (.markFailed event.id (event.retryCount + 1) nextRetryAt) (by simp) (by simp)
  have htries : (entry e turns (.markFailed event.id (event.retryCount + 1) nextRetryAt) s).tries
    e = false := rfl
  have hin : (entry e turns (.markFailed event.id (event.retryCount + 1) nextRetryAt) s).InTime
    cfg e s.log := Served.inTime_of_not htries rfl
  by_cases hid : event.id = e
  · obtain rfl := hid
    obtain ⟨hfailing, hspaced⟩ := hevent rfl
    have hok : (serve event.id turns (.markFailed event.id (event.retryCount + 1) nextRetryAt)
      s).1 = .ok () := hconforms rfl
    obtain ⟨hstorable, now, hmade⟩ := markFailed_made hfair hok
    obtain ⟨r, hr⟩ := hfailing.exists_row
    rw [hr] at hmade
    have hnext : (Polling.recording event nextRetryAt events).next cfg _
        (serve event.id turns (.markFailed event.id (event.retryCount + 1) nextRetryAt) s).1 =
        .batch events := by
      rw [hok]
      rfl
    refine h.held hi trivial hreaches.stamped ⟨hin, h.punctual⟩ ?_ (fun _ => ⟨_, hmade, ?_⟩)
      (fun _ => hreaches.flag.2 (h.flag _ (List.mem_of_getElem? hi) trivial)) ?_
    · exact (failures_later (fails_of_not_tries htries)).trans_le h.within
    · exact settled_of_record hfailing hlast hspaced hstorable htries now
    · rw [hnext]
      exact sound_batch (.of_notMem hqueued.nodup hnew)
  · refine h.elsewhere hi trivial hfair (by simp) (by simp) rfl hid rfl hid hqueued
      fun hlater => ?_
    cases (serve e turns (.markFailed event.id (event.retryCount + 1) nextRetryAt) s).1 with
    | error _ => trivial
    | ok _ => exact sound_batch hlater

theorem keeps_leave (h : Governed cfg service e s ts) (hi : ts[i]? = some ((), .leaving))
    (hfair : Fair service e s.seen.clock turns) :
    Keeps cfg service e turns s ts i .leaving (.leavePoll service) := by
  obtain ⟨hclock, hstamped, hrow⟩ := flag_leaves hfair h.stamped (.inr rfl)
  have hnext : Polling.leaving.next cfg (.leavePoll service)
      (serve e turns (.leavePoll service) s).1 = .idle := by
    cases (serve e turns (.leavePoll service) s).1 <;> rfl
  unfold Keeps
  rw [hnext]
  exact h.quiet hi trivial hstamped hclock hrow rfl rfl (Served.inTime_of_not rfl rfl) False.elim
    False.elim trivial

/-- **A poll enters**, which no other poll then holds the flag for. -/
theorem keeps_enter (h : Governed cfg service e s ts) (hi : ts[i]? = some ((), .entering))
    (hfair : Fair service e s.seen.clock turns) :
    Keeps cfg service e turns s ts i .entering (.enterPoll service) := by
  obtain ⟨hclock, hstamped, hrow⟩ := flag_leaves hfair h.stamped (.inl rfl)
  obtain ⟨hresult, hraised⟩ := enterPoll_enters hfair
  have hnext : Polling.entering.next cfg (.enterPoll service)
      (serve e turns (.enterPoll service) s).1 =
        if service ∈ s.seen.world.polling then .idle else .timing := by
    rw [hresult]
    show (if decide _ = true then Polling.timing else .idle) = _
    simp only [decide_eq_true_eq, ite_not]
  have hdown {u : Unit × Polling} (hu : u ∈ ts) (hholds : u.2.Holds) :
      ¬ (if service ∈ s.seen.world.polling then Polling.idle else .timing).Holds := by
    rw [if_pos (h.flag u hu hholds)]
    exact id
  unfold Keeps
  rw [hnext]
  refine ⟨hstamped, ⟨Served.inTime_of_not rfl rfl, h.punctual⟩,
    (failures_later (fails_of_not_tries rfl)).trans_le h.within, fun hnone => ?_,
    fun _ _ _ => hraised, fun j k u v hj hk hu hv => ?_, fun u hu => ?_⟩
  · have hold : ∀ u ∈ ts, ¬ u.2.Records e := fun u hu hrecords => by
      obtain ⟨j, hj⟩ := List.mem_iff_getElem?.1 hu
      by_cases hji : j = i
      · subst hji
        obtain rfl := Option.some.inj (hi.symm.trans hj)
        exact hrecords
      · refine hnone u (List.mem_iff_getElem?.2 ⟨j, ?_⟩) hrecords
        rw [List.getElem?_set_ne (Ne.symm hji), hj]
    obtain ⟨r, hr, hsettled⟩ := h.row hold
    exact ⟨r, hrow.trans hr, hsettled.later hclock rfl⟩
  · rcases getElem?_set_some hj with ⟨rfl, rfl⟩ | ⟨-, hj'⟩
    · rcases getElem?_set_some hk with ⟨rfl, -⟩ | ⟨-, hk'⟩
      · rfl
      · exact absurd hu (hdown (List.mem_of_getElem? hk') hv)
    · rcases getElem?_set_some hk with ⟨-, rfl⟩ | ⟨-, hk'⟩
      · exact absurd hv (hdown (List.mem_of_getElem? hj') hu)
      · exact h.sole j k u v hj' hk' hu hv
  · obtain ⟨j, hj⟩ := List.mem_iff_getElem?.1 hu
    rcases getElem?_set_some hj with ⟨-, rfl⟩ | ⟨-, hj⟩
    · split_ifs <;> trivial
    · rw [hrow]
      exact (h.sound u (List.mem_of_getElem? hj)).later hclock rfl

/-- **Each call a poll may make keeps what holds between the calls.** -/
theorem keeps (h : Governed cfg service e s ts) (hi : ts[i]? = some ((), q))
    (hfair : Fair service e s.seen.clock turns) (hallows : q.Allows cfg service c)
    (hconforms : c.Conforms e (serve e turns c s)) : Keeps cfg service e turns s ts i q c := by
  cases hallows with
  | enter => exact keeps_enter h hi hfair
  | time => exact keeps_time h hi hfair
  | select staleBefore => exact keeps_select h hi hfair
  | mark event events => exact keeps_mark h hi hfair
  | dispatch event events => exact keeps_dispatch h hi hfair hconforms
  | date event events => exact keeps_date h hi hfair
  | record event nextRetryAt events => exact keeps_record h hi hfair hconforms
  | leave => exact keeps_leave h hi hfair

end Stage

/-! ### The runs of an event -/

/-- The polls before the first, where the event is as it was created. -/
def created (w : World) (clock : Time) : Polls := .start ⟨⟨w, clock, none⟩, []⟩

section Run

variable {cfg : Config} {service : ℕ} {e : Uuid}

theorem Governed.spawn {s : Watch} {ts : List (Unit × Polling)} (h : Governed cfg service e s ts) :
    Governed cfg service e s (ts ++ [((), .entering)]) where
  stamped := h.stamped
  punctual := h.punctual
  within := h.within
  row hnone := h.row fun u hu => hnone u (List.mem_append_left _ hu)
  flag u hu hholds := by
    rcases List.mem_append.1 hu with hu | hu
    · exact h.flag u hu hholds
    · obtain rfl := List.mem_singleton.1 hu
      exact hholds.elim
  sole i j u v hi hj hu hv := by
    rcases getElem?_append_some hi with hi | ⟨-, rfl⟩
    · rcases getElem?_append_some hj with hj | ⟨-, rfl⟩
      · exact h.sole i j u v hi hj hu hv
      · exact hv.elim
    · exact hu.elim
  sound u hu := by
    rcases List.mem_append.1 hu with hu | hu
    · exact h.sound u hu
    · obtain rfl := List.mem_singleton.1 hu
      trivial

/-- A new event, which no poll has seen. -/
theorem governed_created {w : World} {event : OutboxEventEntity} (clock : Time)
    (hevent : w.outboxEvents.find? e = some event) (hstatus : event.status = .pending)
    (hcount : event.retryCount = 0) (hmax : 1 ≤ cfg.outboxMaxAttempts) :
    Governed cfg service e (created w clock).world [] where
  stamped r hr := by
    obtain rfl := Option.some.inj (hevent.symm.trans hr)
    exact ⟨fun _ hu => absurd hu (Option.some_ne_none _).symm, fun _ => hstatus⟩
  punctual := trivial
  within := Nat.zero_le _
  row _ := by
    refine ⟨event, hevent, ⟨hcount, ?_, fun h => ?_, fun h => ?_⟩, fun _ _ _ _ => trivial⟩
    · refine iff_of_false (fun h => absurd (hstatus.symm.trans h) (by decide)) ?_
      exact Nat.ne_of_lt hmax
    · exact absurd h Bool.false_ne_true
    · exact absurd h Bool.false_ne_true
  flag _ hu := absurd hu List.not_mem_nil
  sole _ _ _ _ hi := absurd hi (by simp)
  sound _ hu := absurd hu List.not_mem_nil

theorem governed_run {P : Polls} {labels : List (Label Unit (ℕ → Turn))}
    (htracked : P.Tracked (polls cfg service e) fun _ _ _ => True)
    (hP : Governed cfg service e P.world P.stages)
    (h : P.Along (polls cfg service e) (Conforming service e) labels) :
    Governed cfg service e (Pool.run (polls cfg service e) P labels).world
      (Pool.run (polls cfg service e) P labels).stages := by
  refine (Pool.invariant (fun _ => poll_follows) (J := Governed cfg service e)
    (fun P _ s hgoverned _ hspawn => ?_)
    (fun P i _ q c turns hgoverned hok hi hhead hallows => ?_) h htracked hP).2
  · obtain rfl := Option.some.inj hspawn
    exact hgoverned.spawn
  · exact keeps hgoverned hi hok.1 hallows (hok.2 c hhead)

/-- **The retry budget and schedule of an event.**  Whatever the polls of a service do
with a new event and however its attempts end, at most `outboxMaxAttempts` of them
fail, and every selection and every attempt is in time.  Unless the failure of an
attempt is still to be recorded, the row counts the failed attempts, it is FAILED
once the last has failed, and before that PENDING after a failure. -/
theorem dispatch_budget (cfg : Config) (service : ℕ) (w : World) (clock : Time)
    (event : OutboxEventEntity) (hevent : w.outboxEvents.find? e = some event)
    (hstatus : event.status = .pending) (hcount : event.retryCount = 0)
    (hmax : 1 ≤ cfg.outboxMaxAttempts) (labels : List (Label Unit (ℕ → Turn)))
    (h : (created w clock).Along (polls cfg service e) (Conforming service e) labels) :
    let P := Pool.run (polls cfg service e) (created w clock) labels
    failures e P.world.log ≤ cfg.outboxMaxAttempts ∧ Punctual cfg e P.world.log ∧
      ((∀ th ∈ P.threads, ¬ th.stage.Records e) →
        ∃ r, P.world.seen.row e = some r ∧ Reflects cfg e r P.world.log) := by
  intro P
  have hgoverned : Governed cfg service e P.world P.stages :=
    governed_run (Pool.tracked_start _ _) (governed_created clock hevent hstatus hcount hmax) h
  refine ⟨hgoverned.within, hgoverned.punctual, fun hnone => ?_⟩
  obtain ⟨r, hr, hsettled⟩ := hgoverned.row fun u hu => by
    obtain ⟨th, hth, rfl⟩ := List.mem_map.1 hu
    exact hnone th hth
  exact ⟨r, hr, hsettled.reflects⟩

end Run

/-! ### An attempt that fails -/

/-- A new event. -/
def newEvent : OutboxEventEntity := { sampleEvent with status := .pending }

theorem nodup_newEvent : ([newEvent].map Keyed.key).Nodup := by decide

/-- The event before its first poll; nothing subscribes to it. -/
def newWorld : World where
  subscriptions := .empty
  outboxEvents := ⟨[newEvent], nodup_newEvent⟩
  deliveries := .empty
  queue := .empty
  polling := []
  posts := []

/-- Every call is made then and meets no fault. -/
def calm (now : Time) : ℕ → Turn := fun _ => ⟨{ answering 200 with now := now }, id⟩

/-- Every call is made then and refused. -/
def troubled (now : Time) : ℕ → Turn :=
  fun _ => ⟨{ answering 200 with now := now, fault := some (.refused unstorable) }, id⟩

/-- The first poll cannot mark the event; the second dispatches it. -/
def markedLate : List (Label Unit (ℕ → Turn)) :=
  .spawn () :: List.replicate 3 (.step 0 (calm 0)) ++ .step 0 (troubled 0) ::
    List.replicate 3 (.step 0 (calm 0)) ++ .spawn () :: List.replicate 6 (.step 1 (calm 5000))

theorem along_markedLate : (created newWorld 0).Along (polls sampleConfig 0 newEvent.id)
    (Conforming 0 newEvent.id) markedLate := by
  have hfair {ω : Draw} {clock : Time} (h : clock ≤ ω.now) :
      Fair 0 newEvent.id clock fun _ => ⟨ω, id⟩ :=
    ⟨h, fun _ => le_rfl, fun _ _ => rfl, fun _ _ => Iff.rfl⟩
  refine ⟨trivial, ⟨hfair (by decide), ?_⟩, ⟨hfair (by decide), ?_⟩, ⟨hfair (by decide), ?_⟩,
    ⟨hfair (by decide), ?_⟩, ⟨hfair (by decide), ?_⟩, ⟨hfair (by decide), ?record⟩,
    ⟨hfair (by decide), ?_⟩, trivial, ⟨hfair (by decide), ?_⟩, ⟨hfair (by decide), ?_⟩,
    ⟨hfair (by decide), ?_⟩, ⟨hfair (by decide), ?_⟩, ⟨hfair (by decide), ?dispatch⟩,
    ⟨hfair (by decide), ?_⟩, trivial⟩
  all_goals rintro c ⟨⟩
  case record => exact fun _ => rfl
  case dispatch => exact fun _ _ => by decide
  all_goals trivial

theorem dispatch_budget_markedLate :
    let P := Pool.run (polls sampleConfig 0 newEvent.id) (created newWorld 0) markedLate
    failures newEvent.id P.world.log ≤ 5 ∧ Punctual sampleConfig newEvent.id P.world.log ∧
      ((∀ th ∈ P.threads, ¬ th.stage.Records newEvent.id) →
        ∃ r, P.world.seen.row newEvent.id = some r ∧
          Reflects sampleConfig newEvent.id r P.world.log) :=
  dispatch_budget sampleConfig 0 newWorld 0 newEvent rfl rfl rfl (by decide) markedLate
    along_markedLate

end Webhooks
end LedgerEngine
