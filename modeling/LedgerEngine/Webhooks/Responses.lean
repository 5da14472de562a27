/-
# Which answers of a receiver are recorded

`processDelivery` for a PENDING delivery that the receiver answers, with any
status and any body (`Response`), and a storage that works: it refuses only a
text with U+0000 in it and a date that is none.  The body is written in both
blocks.  In the `try` it is the response body of a success; in the `catch` it is
part of the error's message, and there a refusal is not caught any more.

So an answer with U+0000 is not recorded: a 2xx one counts as a failed attempt,
any other one makes `processDelivery` throw, with the POST made and the row as
it was.  Every other answer is recorded, if the time of the next attempt is a
date and its job can be added (`processDelivery_records_iff`).
-/

import LedgerEngine.Webhooks.Attempts

namespace LedgerEngine
namespace Webhooks

/-- What a receiver answers a POST with. -/
structure Response where
  status : ℕ
  body : JsString

/-- The call meets no fault; the answer to a POST is this one. -/
def Response.draw (a : Response) (ω : Draw) : Draw :=
  { ω with fault := none, response := .ok a.status, text := .ok a.body }

/-- The calls of `processDelivery` alone, with what is drawn for each. -/
def Response.handler (a : Response) (script : Script) :
    Prog.Handler Command Command.Res Exception (World × ℕ) :=
  scripted fun n => a.draw (script n)

/-- `processDelivery` for a delivery whose receiver answers so. -/
def Response.process (a : Response) (cfg : Config) (script : Script) (deliveryId : Uuid)
    (w : World) : Except Exception Unit × World × ℕ :=
  (processDelivery cfg deliveryId).eval (a.handler script) (w, 0)

/-- The answer is recorded: nothing is thrown, the attempt is counted, and the delivery
is SUCCESS, or PENDING with a job for the next attempt, or FAILED at the limit. -/
structure Response.Recorded (a : Response) (cfg : Config) (r : WebhookDeliveryEntity)
    (x : Except Exception Unit × World × ℕ) : Prop where
  returns : x.1 = .ok ()
  counted : (x.2.1.deliveries.find? r.id).map WebhookDeliveryEntity.attemptCount =
    some (r.attemptCount + 1)
  status : (x.2.1.deliveries.find? r.id).map WebhookDeliveryEntity.status =
    some (statusAfter cfg (r.attemptCount + 1) (responseOk a.status))
  again : statusAfter cfg (r.attemptCount + 1) (responseOk a.status) = .pending →
    x.2.1.queue.IsLive ⟨r.id, r.attemptCount + 1 + 1⟩

/-- When the next attempt is due, by the clock of the call that asks for it. -/
def retryDate (cfg : Config) (script : Script) (r : WebhookDeliveryEntity) : JsDate :=
  newDate ((script 3).now + backoff cfg.webhookBackoffMs (r.attemptCount + 1))

/-- The next attempt can be scheduled: its time is a date, and the queue does not
remember its job as finished. -/
def Schedulable (cfg : Config) (script : Script) (w : World) (r : WebhookDeliveryEntity) : Prop :=
  retryDate cfg script r ≠ none ∧ (w.queue.IsLive ⟨r.id, r.attemptCount + 1 + 1⟩ ∨
    ¬ w.queue.Finished ⟨r.id, r.attemptCount + 1 + 1⟩)

/-- The body can be stored, and where another attempt is due it can be scheduled. -/
def Response.Storable (a : Response) (cfg : Config) (script : Script) (w : World)
    (r : WebhookDeliveryEntity) : Prop :=
  0 ∉ a.body ∧
    (statusAfter cfg (r.attemptCount + 1) (responseOk a.status) = .pending →
      Schedulable cfg script w r)

section Calls

variable {a : Response} {cfg : Config} {script : Script} {w : World} {n : ℕ}
  {r : WebhookDeliveryEntity} {s : WebhookSubscriptionEntity} {event : OutboxEventEntity}

theorem eval_answer (c : Command) :
    (Prog.await c : Service c.Res).eval (a.handler script) (w, n) =
      ((answer (a.draw (script n)) c w).1, (answer (a.draw (script n)) c w).2, n + 1) := by
  rw [Prog.eval_await, Response.handler, scripted, exec_of_fault_eq_none rfl]

/-- The world once the POST has been made. -/
def World.posted (w : World) (d : Uuid) (ω : Draw) : World :=
  { w with posts := (d, ω.now) :: w.posts }

/-- An update of a delivery is stored or refused. -/
theorem eval_updateDelivery (d : Uuid) (p : DeliveryPatch) :
    (updateDelivery d p).eval (a.handler script) (w, n) =
      if p.Fits then
        (.ok (), { w with deliveries := w.deliveries.update d (p.change (script n).now) }, n + 1)
      else (.error unstorable, w, n + 1) := by
  refine (eval_answer _).trans ?_
  by_cases hfits : p.Fits
  · simp only [answer, if_pos hfits, Response.draw]
  · simp only [answer, if_neg hfits]

/-- The patch of a success. -/
def succeeded (r : WebhookDeliveryEntity) (a : Response) (now : Time) : DeliveryPatch where
  status := .success
  attemptCount := r.attemptCount + 1
  lastAttemptAt := now
  nextRetryAt := none
  responseStatus := some a.status
  responseBody := a.body

/-- The `try` block up to the answer. -/
theorem eval_attemptDelivery :
    (attemptDelivery cfg ⟨r, some s, some event⟩).eval (a.handler script) (w, n) =
      (if !responseOk a.status then throw (deliveryFailed a.status a.body)
      else do
        let now ← dateNow
        updateDelivery r.id (succeeded r a now) : Service Unit).eval (a.handler script)
          (w.posted r.id (script n), n + 2) := by
  unfold attemptDelivery
  simp only [relation, Prog.pure_eq, Prog.bind_eq, Prog.bind_ret]
  rw [Prog.eval_bind, fetch, eval_answer]
  simp only [answer, Response.draw]
  rw [Prog.eval_bind, responseText, eval_answer]
  rfl

/-- **The `try` block** when the answer is not 2xx. -/
theorem eval_attemptDelivery_error (hok : responseOk a.status = false) :
    (attemptDelivery cfg ⟨r, some s, some event⟩).eval (a.handler script) (w, n) =
      (.error (deliveryFailed a.status a.body), w.posted r.id (script n), n + 2) := by
  rw [eval_attemptDelivery, hok]
  rfl

/-- The `try` block when it is. -/
theorem eval_attemptDelivery_ok (hok : responseOk a.status = true) :
    (attemptDelivery cfg ⟨r, some s, some event⟩).eval (a.handler script) (w, n) =
      (updateDelivery r.id (succeeded r a (script (n + 2)).now)).eval (a.handler script)
        (w.posted r.id (script n), n + 3) := by
  rw [eval_attemptDelivery, hok]
  rfl

/-- The patch of a failed attempt. -/
def attemptFailed (cfg : Config) (r : WebhookDeliveryEntity) (error : Exception)
    (nextRetryAt : Option JsDate) (now : Time) : DeliveryPatch where
  status := if r.attemptCount + 1 < cfg.webhookMaxAttempts then .pending else .failed
  attemptCount := r.attemptCount + 1
  lastAttemptAt := now
  nextRetryAt := nextRetryAt
  responseStatus := none
  responseBody := error.messageOr (js "Webhook delivery failed")

/-- The date of the next attempt where one is left, asked for at call `n`. -/
def dateAfter (cfg : Config) (script : Script) (r : WebhookDeliveryEntity) (n : ℕ) :
    Option JsDate :=
  if r.attemptCount + 1 < cfg.webhookMaxAttempts then
    some (newDate ((script n).now + backoff cfg.webhookBackoffMs (r.attemptCount + 1)))
  else none

variable (a cfg script w n r) in
/-- **The `catch` block** asks for its times, then writes and schedules. -/
theorem eval_recordFailedAttempt (error : Exception) :
    ∃ now m, (recordFailedAttempt cfg r error).eval (a.handler script) (w, n) =
      ((updateDelivery r.id (attemptFailed cfg r error (dateAfter cfg script r n) now)).bind
        fun _ => enqueueRetry r.id (r.attemptCount + 1) (dateAfter cfg script r n)).eval
          (a.handler script) (w, m) := by
  unfold recordFailedAttempt dateAfter
  simp only [Prog.bind_eq, nextRetryAt]
  by_cases hleft : r.attemptCount + 1 < cfg.webhookMaxAttempts
  · simp only [if_pos hleft]
    rw [Prog.eval_bind, Prog.eval_bind, dateNow, eval_answer]
    simp only [answer, Response.draw, Prog.pure_eq, Prog.eval_ret]
    rw [Prog.eval_bind, eval_answer]
    exact ⟨(script (n + 1)).now, n + 1 + 1, by simp only [attemptFailed, if_pos hleft]; rfl⟩
  · simp only [if_neg hleft, Prog.pure_eq, Prog.bind_ret]
    rw [Prog.eval_bind, dateNow, eval_answer]
    exact ⟨(script n).now, n + 1, by simp only [attemptFailed, if_neg hleft]; rfl⟩

/-- The attempt is counted in the row, nothing has been thrown, and where another
attempt is left its job has been added. -/
structure Counted (r : WebhookDeliveryEntity) (status : WebhookDeliveryStatus) (w : World)
    (x : Except Exception Unit × World × ℕ) : Prop where
  returns : x.1 = .ok ()
  deliveries : ∃ p now, x.2.1.deliveries = w.deliveries.update r.id (DeliveryPatch.change now p) ∧
    p.attemptCount = r.attemptCount + 1 ∧ p.status = status
  queue : status = .pending →
    ∃ state, x.2.1.queue = w.queue.add ⟨r.id, r.attemptCount + 1 + 1⟩ state

/-- What the `catch` block writes can be stored. -/
def Writable (cfg : Config) (script : Script) (r : WebhookDeliveryEntity) (n : ℕ)
    (error : Exception) : Prop :=
  Storable (dateAfter cfg script r n) ∧ 0 ∉ error.messageOr (js "Webhook delivery failed")

variable (a script w n r) in
/-- The job of the next attempt is added where there is one. -/
theorem eval_enqueueRetry {date : Option JsDate} (hdate : Storable date) :
    ∃ m w', (enqueueRetry r.id (r.attemptCount + 1) date).eval (a.handler script) (w, n) =
        (.ok (), w', m) ∧ w'.deliveries = w.deliveries ∧
      (date ≠ none → ∃ state, w'.queue = w.queue.add ⟨r.id, r.attemptCount + 1 + 1⟩ state) := by
  match date with
  | none => exact ⟨n, w, rfl, rfl, fun h => absurd rfl h⟩
  | some none => exact absurd rfl hdate
  | some (some due) =>
      rw [enqueueRetry, Prog.bind_eq, Prog.eval_bind, dateNow, eval_answer]
      exact ⟨n + 1 + 1, _, eval_answer _, rfl, fun _ => ⟨_, rfl⟩⟩

/-- What can be stored is, and nothing is thrown. -/
theorem recordFailedAttempt_counts {error : Exception} (h : Writable cfg script r n error) :
    Counted r (statusAfter cfg (r.attemptCount + 1) false) w
      ((recordFailedAttempt cfg r error).eval (a.handler script) (w, n)) := by
  obtain ⟨now, m, heval⟩ := eval_recordFailedAttempt a cfg script w n r error
  have hfits : (attemptFailed cfg r error (dateAfter cfg script r n) now).Fits := h
  rw [heval, Prog.eval_bind, eval_updateDelivery, if_pos hfits]
  obtain ⟨m', w', hretry, hdeliveries, hqueue⟩ := eval_enqueueRetry a script
    { w with
      deliveries := w.deliveries.update r.id
        ((attemptFailed cfg r error (dateAfter cfg script r n) now).change (script m).now) }
    (m + 1) r h.1
  dsimp only
  rw [hretry]
  refine ⟨rfl, ⟨_, _, hdeliveries, rfl, ?_⟩, fun hpending => hqueue ?_⟩
  · simp [attemptFailed, statusAfter]
  · unfold dateAfter
    split_ifs with hleft
    · simp
    · simp [statusAfter, hleft] at hpending

/-- What cannot be stored is thrown, and nothing has changed. -/
theorem recordFailedAttempt_throws {error : Exception} (h : ¬ Writable cfg script r n error) :
    ∃ m, (recordFailedAttempt cfg r error).eval (a.handler script) (w, n) =
      (.error unstorable, w, m) := by
  obtain ⟨now, m, heval⟩ := eval_recordFailedAttempt a cfg script w n r error
  have hfits : ¬ (attemptFailed cfg r error (dateAfter cfg script r n) now).Fits := h
  rw [heval, Prog.eval_bind, eval_updateDelivery, if_neg hfits]
  exact ⟨m + 1, rfl⟩

variable (a script w n) in
/-- The status of the event is recomputed: nothing is thrown, and deliveries and jobs
are as they were. -/
theorem eval_updateOutboxStatus (e : Uuid) :
    ∃ m w', (updateOutboxStatus e).eval (a.handler script) (w, n) = (.ok (), w', m) ∧
      w'.deliveries = w.deliveries ∧ w'.queue = w.queue := by
  have hupdate (n : ℕ) (p : EventPatch) (hp : p.Fits) :
      ∃ w', (updateEvent e p).eval (a.handler script) (w, n) = (.ok (), w', n + 1) ∧
        w'.deliveries = w.deliveries ∧ w'.queue = w.queue := by
    refine ⟨{ w with outboxEvents := w.updateEvent (script n).now e p },
      (eval_answer _).trans ?_, rfl, rfl⟩
    simp only [answer, if_pos hp, Response.draw]
  unfold updateOutboxStatus
  rw [Prog.bind_eq, Prog.eval_bind, findDeliveries, eval_answer]
  simp only [answer]
  cases aggregate (w.deliveriesOf e) with
  | published =>
      simp only [markPublished, Prog.bind_eq]
      rw [Prog.eval_bind, dateNow, eval_answer]
      obtain ⟨w', heval, hsame⟩ := hupdate (n + 1 + 1)
        ⟨.published, some (script (n + 1)).now, none⟩ (by simp [EventPatch.Fits])
      exact ⟨_, w', heval, hsame⟩
  | failed =>
      obtain ⟨w', heval, hsame⟩ := hupdate (n + 1)
        (failedPatch (maxRetryCount (w.deliveriesOf e)) none)
        (by simp [EventPatch.Fits, failedPatch, Storable])
      exact ⟨_, w', heval, hsame⟩
  | pending =>
      obtain ⟨w', heval, hsame⟩ := hupdate (n + 1) ⟨.processing, none, none⟩
        (by simp [EventPatch.Fits])
      exact ⟨_, w', heval, hsame⟩
  | processing =>
      obtain ⟨w', heval, hsame⟩ := hupdate (n + 1) ⟨.processing, none, none⟩
        (by simp [EventPatch.Fits])
      exact ⟨_, w', heval, hsame⟩

/-- A number is written without U+0000. -/
theorem zero_notMem_toString (n : ℕ) : 0 ∉ js (toString n) := by
  intro h
  obtain ⟨c, hc, hzero⟩ := List.mem_map.1 h
  rw [Nat.toString_eq_repr, Nat.toList_repr] at hc
  have hdigit := Nat.isDigit_of_mem_toDigits (by decide) (by decide) hc
  simp only [Char.isDigit, Bool.and_eq_true, decide_eq_true_eq] at hdigit
  have hlow : 48 ≤ c.toNat := hdigit.1
  have hhigh : c.toNat ≤ 57 := hdigit.2
  have hnat := congrArg UInt16.toNat hzero
  rw [Nat.toUInt16_eq, UInt16.toNat_ofNat', Nat.mod_eq_of_lt (by omega)] at hnat
  simp at hnat
  omega

/-- The message of the error for an answer has U+0000 where its body has. -/
theorem zero_mem_message (a : Response) :
    0 ∈ (deliveryFailed a.status a.body).messageOr (js "Webhook delivery failed") ↔
      0 ∈ a.body := by
  have hfirst : (0 : UInt16) ∉ js "Webhook delivery failed with status " := by decide
  have hsecond : (0 : UInt16) ∉ js ": " := by decide
  have hnumber := zero_notMem_toString a.status
  simp only [deliveryFailed, Exception.messageOr, List.mem_append, hfirst, hnumber, hsecond,
    false_or]

variable (a cfg script) in
/-- `processDelivery` of a PENDING delivery. -/
theorem eval_process (h : w.Attemptable r) : ∃ s event, a.process cfg script r.id w =
    (processPending cfg ⟨r, some s, some event⟩).eval (a.handler script) (w, 1) := by
  obtain ⟨s, hs⟩ := Option.isSome_iff_exists.1 h.subscription
  obtain ⟨event, hevent⟩ := Option.isSome_iff_exists.1 h.outboxEvent
  have hopen : ¬ (r.status = .success ∨ r.status = .failed) := by simp [h.pending]
  refine ⟨s, event, ?_⟩
  unfold Response.process processDelivery
  rw [Prog.bind_eq, Prog.eval_bind, findDelivery, eval_answer]
  simp only [answer, h.found, Option.map_some, hs, hevent, if_neg hopen]

/-- What is counted is not caught. -/
theorem counted_tryCatch {p : Service Unit} {f : Exception → Service Unit}
    {status : WebhookDeliveryStatus} {x : World × ℕ}
    (h : Counted r status w (p.eval (a.handler script) x)) :
    Counted r status w ((p.tryCatch f).eval (a.handler script) x) := by
  rw [Prog.eval_tryCatch]
  generalize p.eval (a.handler script) x = y at h ⊢
  obtain ⟨result, s'⟩ := y
  obtain rfl : result = .ok () := h.returns
  exact h

/-- Recomputing the status of the event changes nothing of what has been counted. -/
theorem counted_bind {p : Service Unit} {status : WebhookDeliveryStatus} {x : World × ℕ}
    (h : Counted r status w (p.eval (a.handler script) x)) (e : Uuid) :
    Counted r status w ((p.bind fun _ => updateOutboxStatus e).eval (a.handler script) x) := by
  rw [Prog.eval_bind]
  generalize p.eval (a.handler script) x = y at h ⊢
  obtain ⟨result, w', m⟩ := y
  obtain rfl : result = .ok () := h.returns
  obtain ⟨m', w'', heval, hdeliveries, hqueue⟩ :=
    eval_updateOutboxStatus a script w' m e
  dsimp only
  rw [heval]
  refine ⟨rfl, ?_, fun hpending => ?_⟩
  · rw [hdeliveries]
    exact h.deliveries
  · rw [hqueue]
    exact h.queue hpending

/-- What is counted with the right status is recorded, if the job that was added is
live. -/
theorem Counted.recorded_iff {status : WebhookDeliveryStatus}
    {x : Except Exception Unit × World × ℕ} (h : Counted r status w x)
    (hfound : w.deliveries.find? r.id = some r) :
    a.Recorded cfg r x ↔ statusAfter cfg (r.attemptCount + 1) (responseOk a.status) = status ∧
      (status = .pending → w.queue.IsLive ⟨r.id, r.attemptCount + 1 + 1⟩ ∨
        ¬ w.queue.Finished ⟨r.id, r.attemptCount + 1 + 1⟩) := by
  obtain ⟨p, now, hdeliveries, hcount, hstatus⟩ := h.deliveries
  have hrow : x.2.1.deliveries.find? r.id = some (p.apply now r) := by
    rw [hdeliveries]
    exact IndexedTable.find?_update_self hfound _
  have hlive (hpending : status = .pending) : x.2.1.queue.IsLive ⟨r.id, r.attemptCount + 1 + 1⟩ ↔
      w.queue.IsLive ⟨r.id, r.attemptCount + 1 + 1⟩ ∨
        ¬ w.queue.Finished ⟨r.id, r.attemptCount + 1 + 1⟩ := by
    obtain ⟨state, hqueue⟩ := h.queue hpending
    rw [hqueue, JobQueue.isLive_add]
    simp
  constructor
  · intro hrecorded
    have hsame : statusAfter cfg (r.attemptCount + 1) (responseOk a.status) = status := by
      have := hrecorded.status
      rw [hrow, Option.map_some, Option.some_inj] at this
      exact (hstatus.symm.trans this).symm
    exact ⟨hsame, fun hpending => (hlive hpending).1 (hrecorded.again (hsame.trans hpending))⟩
  · rintro ⟨hsame, hagain⟩
    refine ⟨h.returns, ?_, ?_, fun hpending => ?_⟩
    · rw [hrow]
      exact congrArg some hcount
    · rw [hrow, hsame]
      exact congrArg some hstatus
    · exact (hlive (hsame.symm.trans hpending)).2 (hagain (hsame.symm.trans hpending))

variable (a cfg script w n r s event) in
/-- The attempt of a 2xx answer. -/
theorem counted_attempt (hok : responseOk a.status = true) (hbody : 0 ∉ a.body) :
    Counted r .success w ((attemptDelivery cfg ⟨r, some s, some event⟩).eval (a.handler script)
      (w, n)) := by
  have hfits : (succeeded r a (script (n + 2)).now).Fits := ⟨by simp [succeeded, Storable], hbody⟩
  rw [eval_attemptDelivery_ok hok, eval_updateDelivery, if_pos hfits]
  exact ⟨rfl, ⟨_, _, rfl, rfl, rfl⟩, fun h => absurd h (by simp)⟩

variable (a cfg script w n r s event) in
/-- Its attempt where the body cannot be stored. -/
theorem eval_attempt_refused (hok : responseOk a.status = true) (hbody : 0 ∈ a.body) :
    (attemptDelivery cfg ⟨r, some s, some event⟩).eval (a.handler script) (w, n) =
      (.error unstorable, w.posted r.id (script n), n + 4) := by
  have hfits : ¬ (succeeded r a (script (n + 2)).now).Fits := fun h => h.2 hbody
  rw [eval_attemptDelivery_ok hok, eval_updateDelivery, if_neg hfits]

variable (a cfg script r) in
/-- The time of the next attempt can be stored. -/
theorem storable_dateAfter : Storable (dateAfter cfg script r 3) ↔
    (statusAfter cfg (r.attemptCount + 1) false = .pending → retryDate cfg script r ≠ none) := by
  unfold dateAfter statusAfter retryDate Storable
  by_cases hleft : r.attemptCount + 1 < cfg.webhookMaxAttempts <;> simp [hleft]

/-- A failed attempt leaves no success. -/
theorem statusAfter_true_ne_false (cfg : Config) (attempts : ℕ) :
    statusAfter cfg attempts true ≠ statusAfter cfg attempts false := by
  unfold statusAfter
  by_cases hleft : attempts < cfg.webhookMaxAttempts <;> simp [hleft]

/-- **An attempt that throws** is counted as failed if that can be stored, and is not
recorded otherwise. -/
theorem processPending_caught {error : Exception} {m : ℕ}
    (hattempt : (attemptDelivery cfg ⟨r, some s, some event⟩).eval (a.handler script) (w, n) =
      (.error error, w.posted r.id (script n), m)) :
    (Writable cfg script r m error → Counted r (statusAfter cfg (r.attemptCount + 1) false) w
        ((processPending cfg ⟨r, some s, some event⟩).eval (a.handler script) (w, n))) ∧
      (¬ Writable cfg script r m error → ¬ a.Recorded cfg r
        ((processPending cfg ⟨r, some s, some event⟩).eval (a.handler script) (w, n))) := by
  have htry : (Prog.tryCatch (attemptDelivery cfg ⟨r, some s, some event⟩)
      (recordFailedAttempt cfg r)).eval (a.handler script) (w, n) =
        (recordFailedAttempt cfg r error).eval (a.handler script)
          (w.posted r.id (script n), m) := by
    rw [Prog.eval_tryCatch, hattempt]
  refine ⟨fun hwritable => counted_bind (w := w) ?_ _, fun hwritable hrecorded => ?_⟩
  · obtain ⟨hreturns, hdeliveries, hqueue⟩ :=
      recordFailedAttempt_counts (a := a) (w := w.posted r.id (script n)) hwritable
    rw [← htry] at hreturns hdeliveries hqueue
    exact ⟨hreturns, hdeliveries, hqueue⟩
  · obtain ⟨m', hthrows⟩ := recordFailedAttempt_throws (a := a)
      (w := w.posted r.id (script n)) hwritable
    have hreturns := hrecorded.returns
    unfold processPending at hreturns
    rw [Prog.bind_eq, Prog.eval_bind, Prog.tryCatch_eq, htry, hthrows] at hreturns
    exact absurd hreturns (by simp)

end Calls

/-- **Any answer of a receiver is recorded**, if and only if its body has no U+0000
and the next attempt, where one is due, can be scheduled. -/
theorem processDelivery_records_iff (cfg : Config) (script : Script) (a : Response) (w : World)
    (r : WebhookDeliveryEntity) (h : w.Attemptable r) :
    a.Recorded cfg r (a.process cfg script r.id w) ↔ a.Storable cfg script w r := by
  obtain ⟨s, event, hprocess⟩ := eval_process a cfg script h
  rw [hprocess]
  unfold Response.Storable Schedulable
  cases hok : responseOk a.status with
  | true =>
      by_cases hbody : 0 ∈ a.body
      · -- the success is refused, and a failed attempt is recorded at best
        refine iff_of_false (fun hrecorded => ?_) fun h => h.1 hbody
        obtain ⟨hcounts, hthrows⟩ :=
          processPending_caught (eval_attempt_refused a cfg script w 1 r s event hok hbody)
        by_cases hwritable : Writable cfg script r 5 unstorable
        · have hsame := (((hcounts hwritable).recorded_iff h.found).1 hrecorded).1
          rw [hok] at hsame
          exact statusAfter_true_ne_false cfg _ hsame
        · exact hthrows hwritable hrecorded
      · have hcounted : Counted r .success w ((processPending cfg ⟨r, some s, some event⟩).eval
            (a.handler script) (w, 1)) :=
          counted_bind (counted_tryCatch (counted_attempt a cfg script w 1 r s event hok hbody)) _
        rw [hcounted.recorded_iff h.found, hok]
        simp [statusAfter, hbody]
  | false =>
      obtain ⟨hcounts, hthrows⟩ := processPending_caught (eval_attemptDelivery_error (n := 1) hok)
      have hwritable : Writable cfg script r 3 (deliveryFailed a.status a.body) ↔
          0 ∉ a.body ∧ (statusAfter cfg (r.attemptCount + 1) false = .pending →
            retryDate cfg script r ≠ none) := by
        rw [Writable, storable_dateAfter, zero_mem_message, and_comm]
      by_cases hw : Writable cfg script r 3 (deliveryFailed a.status a.body)
      · rw [(hcounts hw).recorded_iff h.found, hok]
        obtain ⟨hbody, hdate⟩ := hwritable.1 hw
        constructor
        · rintro ⟨-, hqueue⟩
          exact ⟨hbody, fun hpending => ⟨hdate hpending, hqueue hpending⟩⟩
        · rintro ⟨-, hretried⟩
          exact ⟨rfl, fun hpending => (hretried hpending).2⟩
      · refine iff_of_false (hthrows hw) fun hstorable => hw (hwritable.2 ⟨hstorable.1, ?_⟩)
        exact fun hpending => (hstorable.2 hpending).1

/-- The delivery of the small world. -/
theorem attemptable_sampleDelivery : sampleWorld.Attemptable sampleDelivery :=
  ⟨rfl, rfl, rfl, rfl⟩

theorem processDelivery_records_iff_busy :
    (⟨503, js "busy"⟩ : Response).Recorded sampleConfig sampleDelivery
      ((⟨503, js "busy"⟩ : Response).process sampleConfig (fun _ => answering 503)
        sampleDelivery.id sampleWorld) :=
  (processDelivery_records_iff sampleConfig (fun _ => answering 503) ⟨503, js "busy"⟩ sampleWorld
    sampleDelivery attemptable_sampleDelivery).2
    ⟨by decide, fun _ => ⟨by decide, Or.inr (by decide)⟩⟩

/-- **An answer with U+0000 is lost**: a 404 makes `processDelivery` throw after its
POST, with the row as it was, and a 200 is no success. -/
theorem zeroAnswer_lost :
    let x := (⟨404, [0]⟩ : Response).process sampleConfig (fun _ => answering 404)
      sampleDelivery.id sampleWorld
    (x.1.isOk = false ∧ x.2.1.posts.length = 1 ∧
        x.2.1.deliveries.find? sampleDelivery.id = some sampleDelivery) ∧
      ((⟨200, [0]⟩ : Response).process sampleConfig (fun _ => answering 200)
        sampleDelivery.id sampleWorld).2.1.deliveries.rows.map (·.status) = [.pending] := by
  decide

end Webhooks
end LedgerEngine
