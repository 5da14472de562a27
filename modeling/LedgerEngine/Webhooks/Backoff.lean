/-
# No attempt before its time

A failed attempt stores when the next one is due and adds the job of the next one with
that delay.  Two others add jobs: a dispatch adds the job of a PENDING delivery
without any delay, and the queue keeps whichever of two jobs with one id comes first.
Where a stale event is dispatched between a failed attempt and its retry, the next POST
starts too early (`posts_early`).

If every job that is new to the queue is for the next attempt of its delivery, and one
that a dispatch adds is due (`InTime`), then after a failed attempt has stored a time no
POST for its delivery starts before it (`backoff_respected`).

The state of a run is a world with the last value of the clock, which never goes back
(`Forward`).  `Pace` says how far a thread is with an attempt; `Paced` is what holds in
every state: a delivery has one job for its next attempt at most, one worker at most is
on that job, and while the next attempt is not due nobody is on his way to it.
-/

import LedgerEngine.Webhooks.Accounts
import LedgerEngine.Webhooks.Agreement

namespace LedgerEngine
namespace Webhooks

/-- How far a thread is with an attempt. -/
inductive Pace : Type
  /-- not on an attempt -/
  | quiet
  /-- find the delivery -/
  | starting (d : Uuid)
  /-- make the POST and record how it went; the attempts there were before -/
  | attempting (d : Uuid) (count : ℕ)
  /-- read the clock for the delay of the next attempt, which is due then -/
  | retrying (d : Uuid) (attempts : ℕ) (due : Time)
  /-- add the job of the next attempt -/
  | scheduling (d : Uuid) (attempts : ℕ) (due : Time) (delayMs : ℤ)
  /-- nothing: the job is reported as finished -/
  | done
  deriving DecidableEq

/-- Calls that have no part in an attempt. -/
def Command.idle : Command → Bool
  | .dateNow | .findEvent _ | .findProcessable _ _ _ | .updateEvent _ _ | .findSubscriptions _
  | .findDeliveries _ | .saveDeliveries _ | .enterPoll _ | .leavePoll _ => true
  | _ => false

namespace Pace

/-- After a delivery has been found. -/
def found : Option LoadedDelivery → Pace
  | none => quiet
  | some loaded =>
      if loaded.delivery.status = .success ∨ loaded.delivery.status = .failed then quiet
      else attempting loaded.delivery.id loaded.delivery.attemptCount

/-- After an attempt has been recorded. -/
def recorded (d : Uuid) (p : DeliveryPatch) : Pace :=
  match p.status, p.nextRetryAt with
  | .pending, some (some due) => retrying d p.attemptCount due
  | _, _ => quiet

/-- After a call that resolved. -/
def advance : Pace → (c : Command) → c.Res → Pace
  | starting _, .findDelivery _, loaded => found loaded
  | attempting d _, .updateDelivery _ p, _ => recorded d p
  | retrying d attempts due, .dateNow, now => scheduling d attempts due (due - now)
  | scheduling _ _ _ _, .addJob _ _, _ => quiet
  | _, .completeJob _, _ | _, .failJob _, _ => done
  | q, _, _ => q

/-- After a call that threw: an attempt goes on, unless its failure could not be
recorded. -/
def thrown : Pace → Command → Pace
  | attempting d count, .updateDelivery _ p =>
      if p.status = .success then attempting d count else quiet
  | attempting d count, _ => attempting d count
  | done, _ => done
  | _, _ => quiet

def next (q : Pace) (c : Command) : Except Exception c.Res → Pace
  | .ok r => q.advance c r
  | .error _ => q.thrown c

/-- The calls a thread may make. -/
inductive Allows (call : Call) : Pace → Command → Prop
  | idle {c : Command} (h : c.idle = true) : Allows call quiet c
  | add (job : JobId) (h : ¬ call.Delivers) : Allows call quiet (.addJob job 0)
  | start (d : Uuid) : Allows call (starting d) (.findDelivery d)
  | fetch (d : Uuid) (count : ℕ) (request : WebhookRequest) :
      Allows call (attempting d count) (.fetch d request)
  | responseText (d : Uuid) (count : ℕ) : Allows call (attempting d count) (.responseText d)
  | now (d : Uuid) (count : ℕ) : Allows call (attempting d count) .dateNow
  | record (d : Uuid) (count : ℕ) (p : DeliveryPatch) (h : p.attemptCount = count + 1) :
      Allows call (attempting d count) (.updateDelivery d p)
  | clock (d : Uuid) (attempts : ℕ) (due : Time) : Allows call (retrying d attempts due) .dateNow
  | retry (d : Uuid) (attempts : ℕ) (due : Time) (delayMs : ℤ) :
      Allows call (scheduling d attempts due delayMs) (.addJob ⟨d, attempts + 1⟩ delayMs)
  | complete {q : Pace} (hq : q ≠ done) {job : JobId} (h : call.job = some job) :
      Allows call q (.completeJob job)
  | failJob {q : Pace} (hq : q ≠ done) {job : JobId} (h : call.job = some job) :
      Allows call q (.failJob job)

end Pace

/-- The protocol of a thread. -/
def pacing (call : Call) : Protocol Command Command.Res Exception Pace where
  next := Pace.next
  allows := Pace.Allows call

/-- The pool of dispatches, deliveries, workers and polls, with a clock. -/
def clocked (cfg : Config) :
    System Call Command Command.Res Exception Unit (World × Time) Draw Pace where
  exec ω c s := ((exec ω c s.1).1, (exec ω c s.1).2, ω.now)
  body := (system cfg).body
  spawn
    | .work job now, s => ((system cfg).spawn (.work job now) s.1).map fun w => (w, now)
    | _, s => some s
  entry
    | .dispatch _ | .poll _ => .quiet
    | .process d => .starting d
    | .work job _ => .starting job.deliveryId
  protocol := pacing

abbrev Clocked := Pool Call Command Command.Res Exception Unit (World × Time) Pace

section Follows

variable {call : Call} {α : Type}

/-- The program is not on an attempt when it ends. -/
def Quiet {α : Type} : Except Exception α → Pace → Prop := fun _ q => q = .quiet

/-- A call that has no part in an attempt. -/
theorem idle_paced {c : Command} (hc : c.idle = true) :
    (Prog.await c : Service c.Res).Follows (pacing call) Quiet .quiet := by
  refine .await (.idle hc) fun r => ?_
  cases r with
  | ok r => cases c <;> first | rfl | exact absurd hc Bool.false_ne_true
  | error e => rfl

theorem ret_paced (a : α) : (Prog.ret a : Service α).Follows (pacing call) Quiet .quiet := rfl

theorem bind_paced {β : Type} {p : Service α} {f : α → Service β} {q : Pace}
    (hp : p.Follows (pacing call) Quiet q) (hf : ∀ a, (f a).Follows (pacing call) Quiet .quiet) :
    (p.bind f).Follows (pacing call) Quiet q := by
  refine .bind hp (fun a q hq => ?_) fun _ _ hq => hq
  obtain rfl : q = _ := hq
  exact hf a

theorem markPublished_paced (e : Uuid) :
    (markPublished e).Follows (pacing call) Quiet .quiet :=
  bind_paced (idle_paced rfl) fun _ => idle_paced rfl

theorem updateOutboxStatus_paced (e : Uuid) :
    (updateOutboxStatus e).Follows (pacing call) Quiet .quiet := by
  refine bind_paced (idle_paced rfl) fun deliveries => ?_
  split
  · exact markPublished_paced e
  · exact idle_paced rfl
  · exact idle_paced rfl

/-- A dispatch adds jobs without delay. -/
theorem enqueuePending_paced (hcall : ¬ call.Delivers) (e : Uuid)
    (deliveries : List WebhookDeliveryEntity) :
    (enqueuePending e deliveries).Follows (pacing call) Quiet .quiet := by
  have hall (ds : List WebhookDeliveryEntity) :
      (Prog.settleAll (ds.map fun delivery =>
        enqueueDelivery delivery.id 0 (delivery.attemptCount + 1))).Follows (pacing call) Quiet
        .quiet := by
    induction ds with
    | nil => exact ret_paced none
    | cons d ds ih =>
        refine .andThen Quiet (.await (.add _ hcall) fun r => ?_) fun r q hq => ?_
        · cases r <;> rfl
        · obtain rfl : q = _ := hq
          refine bind_paced ih fun failed => ?_
          cases r <;> exact ret_paced _
  unfold enqueuePending
  split
  · exact updateOutboxStatus_paced e
  · refine bind_paced (hall _) fun failed => ?_
    cases failed with
    | none => exact ret_paced ()
    | some e => exact rfl

theorem dispatchOutboxEvent_paced (hcall : ¬ call.Delivers) (e : Uuid) :
    (dispatchOutboxEvent e).Follows (pacing call) Quiet .quiet := by
  refine bind_paced (idle_paced rfl) fun found => ?_
  cases found with
  | none => exact ret_paced ()
  | some event =>
      refine bind_paced (idle_paced rfl) fun subscriptions => ?_
      refine bind_paced (idle_paced rfl) fun existing => ?_
      split_ifs
      · exact markPublished_paced event.id
      · refine bind_paced ?_ fun new => enqueuePending_paced hcall event.id _
        unfold createMissing
        split
        · exact ret_paced []
        · exact bind_paced (idle_paced rfl) fun now => idle_paced rfl

theorem processOutboxBatch_paced (cfg : Config) (service : ℕ) :
    (processOutboxBatch cfg service).Follows (pacing (.poll service)) Quiet .quiet := by
  refine .expand (I := fun q => q = Pace.quiet) (fun c q hq => ?_) (poll cfg service) rfl
  subst hq
  cases c with
  | dateNow => exact idle_paced rfl
  | enterPoll service => exact idle_paced rfl
  | leavePoll service => exact idle_paced rfl
  | getProcessableEvents limit staleBefore =>
      exact bind_paced (idle_paced rfl) fun now => idle_paced rfl
  | markProcessing e => exact idle_paced rfl
  | markFailed e retryCount nextRetryAt => exact idle_paced rfl
  | dispatchOutboxEvent e => exact dispatchOutboxEvent_paced id e

/-- The attempt goes on where it has thrown. -/
def AttemptPaced (d : Uuid) (count : ℕ) : Except Exception Unit → Pace → Prop
  | .ok _, q => q = .quiet
  | .error _, q => q = .attempting d count

theorem attemptDelivery_paced (cfg : Config) (loaded : LoadedDelivery) :
    (attemptDelivery cfg loaded).Follows (pacing call)
      (AttemptPaced loaded.delivery.id loaded.delivery.attemptCount)
      (.attempting loaded.delivery.id loaded.delivery.attemptCount) := by
  obtain ⟨delivery, subscription, outboxEvent⟩ := loaded
  cases outboxEvent with
  | none => exact rfl
  | some outboxEvent =>
      cases subscription with
      | none => exact rfl
      | some subscription =>
          refine .await_bind (.fetch ..) (fun status => ?_) fun _ => rfl
          refine .await_bind (.responseText ..) (fun responseBody => ?_) fun _ => rfl
          cases responseOk status with
          | false => exact rfl
          | true =>
              refine .await_bind (.now ..) (fun now => ?_) fun _ => rfl
              refine .await (.record _ _ _ rfl) fun r => ?_
              cases r <;> rfl

/-- Where a delivery ends: not on an attempt, unless it throws. -/
def Returns {α : Type} : Except Exception α → Pace → Prop
  | .ok _, q => q = .quiet
  | .error _, q => q ≠ .done

/-- The retry is added with the delay there is left once the clock is read. -/
theorem enqueueRetry_paced (d : Uuid) (p : DeliveryPatch)
    (hp : ∀ due, p.nextRetryAt = some (some due) → p.status = .pending) :
    (enqueueRetry d p.attemptCount p.nextRetryAt).Follows (pacing call) Returns
      (.recorded d p) := by
  unfold enqueueRetry Pace.recorded
  split
  · rename_i due hdue
    rw [hp due hdue, hdue]
    refine .await_bind (.clock ..) (fun now => ?_) fun _ => Pace.noConfusion
    refine .await (.retry ..) fun r => ?_
    cases r with
    | ok _ => exact rfl
    | error _ => exact Pace.noConfusion
  · rename_i hdue
    split
    · rename_i due _ hdue'
      exact absurd hdue' (hdue due)
    · exact rfl

theorem recordFailedAttempt_paced (cfg : Config) (delivery : WebhookDeliveryEntity)
    (error : Exception) :
    (recordFailedAttempt cfg delivery error).Follows (pacing call) Returns
      (.attempting delivery.id delivery.attemptCount) := by
  let q : Pace := .attempting delivery.id delivery.attemptCount
  have hdate : (nextRetryAt cfg (delivery.attemptCount + 1)).Follows (pacing call)
      (fun r q' => q' = q ∧ ∀ date, r = .ok date →
        date.isSome → delivery.attemptCount + 1 < cfg.webhookMaxAttempts) q := by
    unfold nextRetryAt
    split_ifs with h
    · exact .await_bind (.now ..) (fun now => ⟨rfl, fun _ _ _ => h⟩) fun e => ⟨rfl, fun _ _ _ => h⟩
    · refine ⟨rfl, fun date hdate hsome => ?_⟩
      obtain rfl := Except.ok.inj hdate
      exact absurd hsome Bool.false_ne_true
  refine .bind hdate (fun date q' hq' => ?_) fun _ q' hq' => hq'.1 ▸ Pace.noConfusion
  obtain ⟨rfl, hretry⟩ := hq'
  refine .await_bind (.now ..) (fun now => ?_) fun _ => Pace.noConfusion
  refine .await_bind (.record _ _ _ rfl) (fun _ => ?_) fun _ => ?_
  · refine enqueueRetry_paced delivery.id
      ⟨_, delivery.attemptCount + 1, now, date, none, _⟩ fun due hdue => ?_
    obtain rfl : date = some (some due) := hdue
    exact if_pos (hretry _ rfl rfl)
  · show (if _ then q else Pace.quiet) ≠ .done
    split_ifs <;> exact Pace.noConfusion

theorem processDelivery_paced (cfg : Config) (d : Uuid) :
    (processDelivery cfg d).Follows (pacing call) Returns (.starting d) := by
  refine .await_bind (.start d) (fun found => ?_) fun _ => Pace.noConfusion
  show Prog.Follows _ _ _ (Pace.found found)
  cases found with
  | none => exact rfl
  | some loaded =>
      unfold Pace.found
      dsimp only
      split_ifs
      · exact rfl
      · have hattempt : ((attemptDelivery cfg loaded).tryCatch
            (recordFailedAttempt cfg loaded.delivery)).Follows (pacing call) Returns
            (.attempting loaded.delivery.id loaded.delivery.attemptCount) := by
          refine .tryCatch _ (attemptDelivery_paced cfg loaded) (fun _ _ hq => hq) fun e q hq => ?_
          obtain rfl : q = _ := hq
          exact recordFailedAttempt_paced cfg loaded.delivery e
        refine .bind hattempt (fun _ q hq => ?_) fun _ _ hq => hq
        obtain rfl : q = _ := hq
        refine (updateOutboxStatus_paced _).mono fun r q hq => ?_
        obtain rfl : q = _ := hq
        cases r with
        | ok _ => exact rfl
        | error _ => exact Pace.noConfusion

theorem runJob_paced (cfg : Config) (job : JobId) (now : Time) :
    (runJob cfg job).Follows (pacing (.work job now)) (fun _ _ => True)
      (.starting job.deliveryId) := by
  refine .tryCatch (fun r q => r.isOk = false → q ≠ .done) ?_ (fun _ _ _ => trivial)
    fun _ q hq => .await (.failJob (hq rfl) rfl) fun _ => trivial
  refine .bind (processDelivery_paced cfg job.deliveryId) (fun _ q hq => ?_) fun _ _ hq _ => hq
  obtain rfl : q = _ := hq
  refine .await (.complete Pace.noConfusion rfl) fun r hr => ?_
  cases r with
  | ok _ => exact absurd hr (by simp [Except.isOk, Except.toBool])
  | error _ => exact Pace.noConfusion

/-- **Every thread makes only the calls its pace allows.** -/
theorem body_paced (cfg : Config) (call : Call) :
    ((clocked cfg).body call).Follows ((clocked cfg).protocol call) (fun _ _ => True)
      ((clocked cfg).entry call) := by
  cases call with
  | dispatch e => exact (dispatchOutboxEvent_paced id e).mono fun _ _ _ => trivial
  | process d => exact (processDelivery_paced cfg d).mono fun _ _ _ => trivial
  | work job now => exact runJob_paced cfg job now
  | poll service => exact (processOutboxBatch_paced cfg service).mono fun _ _ _ => trivial

end Follows

/-! ### Runs with a clock -/

/-- Deliveries are made by workers. -/
def ByWorkers : Label Call Draw → Prop
  | .spawn (.process _) => False
  | _ => True

/-- The clock does not go back. -/
def Forward (P : Clocked) : Label Call Draw → Prop
  | .spawn (.work _ now) => P.world.2 ≤ now
  | .spawn _ => True
  | .step _ ω => P.world.2 ≤ ω.now

/-- A failed attempt has stored when the next one is due. -/
def WebhookDeliveryEntity.Deferred (r : WebhookDeliveryEntity) (due : Time) : Prop :=
  r.status = .pending ∧ r.lastAttemptAt.isSome = true ∧ r.nextRetryAt = some due

/-- The job is for the next attempt of its delivery, if that is PENDING. -/
def World.NextOf (w : World) (job : JobId) : Prop :=
  ∃ r, w.deliveries.find? job.deliveryId = some r ∧
    (r.status = .pending → job.attempt = r.attemptCount + 1)

/-- The job a call adds. -/
def Command.added : Command → Option JobId
  | .addJob job _ => some job
  | _ => none

/-- A job that is new to the queue is for the next attempt of its delivery, and one that
a dispatch adds is due. -/
def InTime (P : Clocked) : Label Call Draw → Prop
  | .spawn _ => True
  | .step i ω => ∀ th ∈ P.threads[i]?, ∀ job ∈ th.head.bind Command.added,
      ¬ P.world.1.queue.Has job → P.world.1.NextOf job ∧
        (¬ th.tag.Delivers → ∀ r ∈ P.world.1.deliveries.find? job.deliveryId,
          ∀ due ∈ r.nextRetryAt, r.Deferred due → due ≤ ω.now)

instance : (l : Label Call Draw) → Decidable (ByWorkers l)
  | .spawn (.process _) => inferInstanceAs (Decidable False)
  | .spawn (.dispatch _) | .spawn (.work _ _) | .spawn (.poll _) | .step _ _ =>
      inferInstanceAs (Decidable True)

instance (P : Clocked) : (l : Label Call Draw) → Decidable (Forward P l)
  | .spawn (.work _ now) => inferInstanceAs (Decidable (P.world.2 ≤ now))
  | .spawn (.process _) | .spawn (.dispatch _) | .spawn (.poll _) =>
      inferInstanceAs (Decidable True)
  | .step _ ω => inferInstanceAs (Decidable (P.world.2 ≤ ω.now))

instance (r : WebhookDeliveryEntity) (due : Time) : Decidable (r.Deferred due) :=
  inferInstanceAs (Decidable (_ ∧ _ ∧ _))

instance (w : World) (job : JobId) : Decidable (w.NextOf job) :=
  decidable_of_iff (∃ r ∈ w.deliveries.find? job.deliveryId,
    r.status = .pending → job.attempt = r.attemptCount + 1) Iff.rfl

instance (P : Clocked) : (l : Label Call Draw) → Decidable (InTime P l)
  | .spawn _ => inferInstanceAs (Decidable True)
  | .step i ω => inferInstanceAs (Decidable (∀ th ∈ P.threads[i]?,
      ∀ job ∈ th.head.bind Command.added, ¬ P.world.1.queue.Has job → P.world.1.NextOf job ∧
        (¬ th.tag.Delivers → ∀ r ∈ P.world.1.deliveries.find? job.deliveryId,
          ∀ due ∈ r.nextRetryAt, r.Deferred due → due ≤ ω.now)))

/-- The job is not started before then. -/
def Defers (due : Time) : JobState → Prop
  | .waiting => False
  | .delayed time => due ≤ time
  | .active => True

/-- The thread is about to attempt the delivery. -/
def Pace.Attempts (d : Uuid) : Pace → Prop
  | starting d' | attempting d' _ => d' = d
  | _ => False

/-- An attempt has been recorded, and if it is the last one, when the next is due. -/
def World.Stored (w : World) (d : Uuid) (attempts : ℕ) (due : Time) : Prop :=
  ∃ r, w.deliveries.find? d = some r ∧ attempts ≤ r.attemptCount ∧
    (r.attemptCount = attempts → r.status = .pending → r.nextRetryAt = some due)

/-- What a thread knows of its delivery. -/
def Pace.Knows (s : World × Time) (u : Call) : Pace → Prop
  | starting d => ∃ job now, u = .work job now ∧ job.deliveryId = d ∧ s.1.NextOf job
  | attempting d count => ∃ now r, u = .work ⟨d, count + 1⟩ now ∧
      s.1.deliveries.find? d = some r ∧ r.status = .pending ∧ r.attemptCount = count
  | retrying d attempts due => s.1.Stored d attempts due
  | scheduling d attempts due delayMs => s.1.Stored d attempts due ∧ due - delayMs ≤ s.2
  | _ => True

/-- Nobody is on his way to the delivery, and no job of it starts before then. -/
def Barred (w : World) (ts : List (Call × Pace)) (d : Uuid) (due : Time) : Prop :=
  (∀ job ∈ w.queue.live, job.id.deliveryId = d → Defers due job.state) ∧
    ∀ (i : ℕ) (u : Call) (q : Pace), ts[i]? = some (u, q) → ¬ q.Attempts d

/-- Jobs that have not started are for the next attempt of their delivery; each worker
has a job of its own; and a delivery whose next attempt is not due is left alone. -/
structure Paced (s : World × Time) (ts : List (Call × Pace)) : Prop where
  next : ∀ job ∈ s.1.queue.live, job.state ≠ .active → s.1.NextOf job.id
  holds : ∀ (i : ℕ) (u : Call) (q : Pace), ts[i]? = some (u, q) → q ≠ .done →
    ∀ job ∈ u.job, ⟨job, .active⟩ ∈ s.1.queue.live
  alone : ∀ (i j : ℕ) (u u' : Call) (q q' : Pace), ts[i]? = some (u, q) → ts[j]? = some (u', q') →
    q ≠ .done → q' ≠ .done → ∀ job ∈ u.job, job ∈ u'.job → i = j
  knows : ∀ (i : ℕ) (u : Call) (q : Pace), ts[i]? = some (u, q) → q.Knows s u
  waits : ∀ d r due, s.1.deliveries.find? d = some r → r.Deferred due →
    due ≤ s.2 ∨ Barred s.1 ts d due

section Paced

variable {s s' : World × Time} {ts : List (Call × Pace)} {i : ℕ} {u : Call} {q q' : Pace}

/-- Rows that are there stay, and the clock goes on. -/
theorem Pace.Knows.mono (h : q.Knows s u)
    (hrows : ∀ d r, s.1.deliveries.find? d = some r → s'.1.deliveries.find? d = some r)
    (hclock : s.2 ≤ s'.2) : q.Knows s' u := by
  cases q with
  | starting d =>
      obtain ⟨job, now, hu, hd, r, hr, hnext⟩ := h
      exact ⟨job, now, hu, hd, r, hrows _ r hr, hnext⟩
  | attempting d count =>
      obtain ⟨now, r, hu, hr, hrest⟩ := h
      exact ⟨now, r, hu, hrows d r hr, hrest⟩
  | retrying d attempts due =>
      obtain ⟨r, hr, hrest⟩ := h
      exact ⟨r, hrows d r hr, hrest⟩
  | scheduling d attempts due delayMs =>
      obtain ⟨⟨r, hr, hrest⟩, hdelay⟩ := h
      exact ⟨⟨r, hrows d r hr, hrest⟩, hdelay.trans hclock⟩
  | quiet => trivial
  | done => trivial

/-- **A step that touches neither the queue nor a row there is.** -/
theorem Paced.move (h : Paced s ts) (hi : ts[i]? = some (u, q))
    (hrows : ∀ d r, s.1.deliveries.find? d = some r → s'.1.deliveries.find? d = some r)
    (hnew : ∀ d r, s'.1.deliveries.find? d = some r →
      s.1.deliveries.find? d = some r ∨ r.lastAttemptAt = none)
    (hqueue : s'.1.queue = s.1.queue) (hclock : s.2 ≤ s'.2) (hknows : q'.Knows s' u)
    (hattempts : ∀ d, q'.Attempts d → q.Attempts d) (hdone : q = .done → q' = .done) :
    Paced s' (ts.set i (u, q')) := by
  have hset {j : ℕ} {v : Call} {p : Pace} (hj : (ts.set i (u, q'))[j]? = some (v, p)) :
      ∃ p₀, ts[j]? = some (v, p₀) ∧ (p ≠ .done → p₀ ≠ .done) ∧
        ∀ d, p.Attempts d → p₀.Attempts d := by
    rcases getElem?_set_some hj with ⟨rfl, he⟩ | ⟨-, hj⟩
    · obtain ⟨rfl, rfl⟩ := Prod.mk.inj he
      exact ⟨q, hi, fun hne heq => hne (hdone heq), hattempts⟩
    · exact ⟨p, hj, id, fun _ => id⟩
  constructor
  · intro job hjob hstate
    rw [hqueue] at hjob
    obtain ⟨r, hr, hnext⟩ := h.next job hjob hstate
    exact ⟨r, hrows _ r hr, hnext⟩
  · intro j v p hj hp
    obtain ⟨p₀, hj₀, hp₀, -⟩ := hset hj
    rw [hqueue]
    exact h.holds j v p₀ hj₀ (hp₀ hp)
  · intro j k v v' p p' hj hk hp hp'
    obtain ⟨p₀, hj₀, hp₀, -⟩ := hset hj
    obtain ⟨p₁, hk₁, hp₁, -⟩ := hset hk
    exact h.alone j k v v' p₀ p₁ hj₀ hk₁ (hp₀ hp) (hp₁ hp')
  · intro j v p hj
    rcases getElem?_set_some hj with ⟨rfl, he⟩ | ⟨-, hj⟩
    · obtain ⟨rfl, rfl⟩ := Prod.mk.inj he
      exact hknows
    · exact (h.knows j v p hj).mono hrows hclock
  · intro d r due hr hdeferred
    have hold : s.1.deliveries.find? d = some r := by
      rcases hnew d r hr with hold | hnone
      · exact hold
      · rw [WebhookDeliveryEntity.Deferred, hnone] at hdeferred
        exact absurd hdeferred.2.1 Bool.false_ne_true
    rcases h.waits d r due hold hdeferred with hdue | ⟨hjobs, hthreads⟩
    · exact Or.inl (hdue.trans hclock)
    · refine Or.inr ⟨hqueue ▸ hjobs, fun j v p hj hp => ?_⟩
      obtain ⟨p₀, hj₀, -, hp₀⟩ := hset hj
      exact hthreads j v p₀ hj₀ (hp₀ d hp)

/-- **A worker takes a job.** -/
theorem Paced.start (h : Paced s ts) {job : JobId} {now : Time} {queue : JobQueue JobId}
    (hstart : s.1.queue.start? job now = some queue) (hclock : s.2 ≤ now) :
    Paced ({ s.1 with queue }, now) (ts ++ [(.work job now, .starting job.deliveryId)]) := by
  obtain ⟨⟨taken, htaken, rfl, hready⟩, hlive⟩ := JobQueue.live_start? hstart
  have hpassive : taken.state ≠ .active := by
    intro hactive
    rw [hactive] at hready
    exact hready
  -- the jobs are those there were, with this one active
  have hmem {x : LiveJob JobId} (hx : x ∈ queue.live) :
      x = ⟨taken.id, .active⟩ ∨ x ∈ s.1.queue.live ∧ x.id ≠ taken.id := by
    rw [hlive] at hx
    obtain ⟨y, hy, rfl⟩ := List.mem_map.1 hx
    split_ifs with hid
    · exact Or.inl (by rw [hid])
    · exact Or.inr ⟨hy, hid⟩
  have hactive {x : JobId} (hx : ⟨x, .active⟩ ∈ s.1.queue.live) : ⟨x, .active⟩ ∈ queue.live := by
    rw [hlive]
    refine List.mem_map.2 ⟨_, hx, ?_⟩
    split_ifs <;> rfl
  -- nobody else is on it
  have hfree {j : ℕ} {v : Call} {p : Pace} (hj : ts[j]? = some (v, p)) (hp : p ≠ .done) :
      taken.id ∉ v.job := by
    intro hjob
    have heq := JobQueue.eq_of_id_eq htaken (h.holds j v p hj hp _ hjob) rfl
    exact hpassive (by rw [heq])
  constructor
  · intro x hx hstate
    rcases hmem hx with rfl | ⟨hx, -⟩
    · exact absurd rfl hstate
    · exact h.next x hx hstate
  · intro j v p hj hp x hx
    rcases getElem?_append_some hj with hj | ⟨-, he⟩
    · exact hactive (h.holds j v p hj hp x hx)
    · obtain ⟨rfl, rfl⟩ := Prod.mk.inj he
      obtain rfl : taken.id = x := Option.some.inj hx
      rw [hlive]
      exact List.mem_map.2 ⟨taken, htaken, by rw [if_pos rfl]⟩
  · intro j k v v' p p' hj hk hp hp' x hx hx'
    rcases getElem?_append_some hj with hj | ⟨hlast, he⟩
    · rcases getElem?_append_some hk with hk | ⟨-, he⟩
      · exact h.alone j k v v' p p' hj hk hp hp' x hx hx'
      · obtain ⟨rfl, rfl⟩ := Prod.mk.inj he
        obtain rfl : taken.id = x := Option.some.inj hx'
        exact absurd hx (hfree hj hp)
    · obtain ⟨rfl, rfl⟩ := Prod.mk.inj he
      obtain rfl : taken.id = x := Option.some.inj hx
      rcases getElem?_append_some hk with hk | ⟨hlast', -⟩
      · exact absurd hx' (hfree hk hp')
      · exact hlast.trans hlast'.symm
  · intro j v p hj
    rcases getElem?_append_some hj with hj | ⟨-, he⟩
    · exact (h.knows j v p hj).mono (fun _ _ => id) hclock
    · obtain ⟨rfl, rfl⟩ := Prod.mk.inj he
      exact ⟨taken.id, now, rfl, rfl, h.next taken htaken hpassive⟩
  · intro d r due hr hdeferred
    rcases h.waits d r due hr hdeferred with hdue | ⟨hjobs, hthreads⟩
    · exact Or.inl (hdue.trans hclock)
    · by_cases hd : taken.id.deliveryId = d
      · -- a job that may start now was not to start before
        have hdefers := hjobs taken htaken hd
        cases hstate : taken.state with
        | waiting =>
            rw [hstate] at hdefers
            exact hdefers.elim
        | delayed time =>
            rw [hstate] at hdefers hready
            exact Or.inl (le_trans hdefers hready)
        | active => exact absurd hstate hpassive
      · refine Or.inr ⟨fun x hx hxd => ?_, fun j v p hj hp => ?_⟩
        · rcases hmem hx with rfl | ⟨hx, -⟩
          · exact absurd hxd hd
          · exact hjobs x hx hxd
        · rcases getElem?_append_some hj with hj | ⟨-, he⟩
          · exact hthreads j v p hj hp
          · obtain ⟨-, rfl⟩ := Prod.mk.inj he
            exact hd hp

/-- **A worker reports its job as finished.** -/
theorem Paced.finish (h : Paced s ts) (hi : ts[i]? = some (u, q)) (hq : q ≠ .done) {job : JobId}
    (hu : u.job = some job) (hrows : s'.1.deliveries = s.1.deliveries)
    (hlive : s'.1.queue.live = s.1.queue.others job) (hclock : s.2 ≤ s'.2) :
    Paced s' (ts.set i (u, .done)) := by
  have hmem {x : LiveJob JobId} (hx : x ∈ s'.1.queue.live) : x ∈ s.1.queue.live := by
    rw [hlive] at hx
    exact List.mem_of_mem_filter hx
  constructor
  · intro x hx hstate
    obtain ⟨r, hr, hnext⟩ := h.next x (hmem hx) hstate
    exact ⟨r, hrows ▸ hr, hnext⟩
  · intro j v p hj hp x hx
    rcases getElem?_set_some hj with ⟨-, he⟩ | ⟨hij, hj⟩
    · obtain ⟨-, rfl⟩ := Prod.mk.inj he
      exact absurd rfl hp
    · have hother : x ≠ job := by
        rintro rfl
        exact hij (h.alone i j u v q p hi hj hq hp x hu hx).symm
      rw [hlive]
      exact List.mem_filter.2 ⟨h.holds j v p hj hp x hx, by simpa using hother⟩
  · intro j k v v' p p' hj hk hp hp'
    rcases getElem?_set_some hj with ⟨-, he⟩ | ⟨-, hj⟩
    · obtain ⟨-, rfl⟩ := Prod.mk.inj he
      exact absurd rfl hp
    · rcases getElem?_set_some hk with ⟨-, he⟩ | ⟨-, hk⟩
      · obtain ⟨-, rfl⟩ := Prod.mk.inj he
        exact absurd rfl hp'
      · exact h.alone j k v v' p p' hj hk hp hp'
  · intro j v p hj
    rcases getElem?_set_some hj with ⟨-, he⟩ | ⟨-, hj⟩
    · obtain ⟨-, rfl⟩ := Prod.mk.inj he
      trivial
    · refine (h.knows j v p hj).mono (fun d r hr => ?_) hclock
      rw [hrows]
      exact hr
  · intro d r due hr hdeferred
    rw [hrows] at hr
    rcases h.waits d r due hr hdeferred with hdue | ⟨hjobs, hthreads⟩
    · exact Or.inl (hdue.trans hclock)
    · refine Or.inr ⟨fun x hx => hjobs x (hmem hx), fun j v p hj hp => ?_⟩
      rcases getElem?_set_some hj with ⟨-, he⟩ | ⟨-, hj⟩
      · obtain ⟨-, rfl⟩ := Prod.mk.inj he
        exact hp
      · exact hthreads j v p hj hp

/-- A job is new in the queue. -/
theorem Paced.enqueue (h : Paced s ts) {job : JobId} {state : JobState}
    (hrows : s'.1.deliveries = s.1.deliveries)
    (hlive : s'.1.queue.live = s.1.queue.live ++ [⟨job, state⟩]) (hclock : s.2 = s'.2)
    (hnext : s.1.NextOf job)
    (hdue : ∀ r due, s.1.deliveries.find? job.deliveryId = some r → r.Deferred due →
      due ≤ s.2 ∨ Defers due state) : Paced s' ts := by
  have hmem {x : LiveJob JobId} (hx : x ∈ s'.1.queue.live) :
      x ∈ s.1.queue.live ∨ x = ⟨job, state⟩ := by
    rw [hlive] at hx
    exact (List.mem_append.1 hx).imp_right List.mem_singleton.1
  constructor
  · intro x hx hstate
    unfold World.NextOf
    rw [hrows]
    rcases hmem hx with hx | rfl
    · exact h.next x hx hstate
    · exact hnext
  · intro j v p hj hp x hx
    rw [hlive]
    exact List.mem_append_left _ (h.holds j v p hj hp x hx)
  · exact h.alone
  · intro j v p hj
    refine (h.knows j v p hj).mono (fun d r hr => ?_) hclock.le
    rw [hrows]
    exact hr
  · intro d r due hr hdeferred
    rw [hrows] at hr
    rw [← hclock]
    rcases h.waits d r due hr hdeferred with hle | ⟨hjobs, hthreads⟩
    · exact Or.inl hle
    · by_cases hd : job.deliveryId = d
      · subst hd
        refine (hdue r due hr hdeferred).imp id fun hdefers => ⟨fun x hx hxd => ?_, hthreads⟩
        rcases hmem hx with hx | rfl
        · exact hjobs x hx hxd
        · exact hdefers
      · refine Or.inr ⟨fun x hx hxd => ?_, hthreads⟩
        rcases hmem hx with hx | rfl
        · exact hjobs x hx hxd
        · exact absurd hxd hd

/-- **A thread adds a job.** -/
theorem Paced.add (h : Paced s ts) (hi : ts[i]? = some (u, q)) {job : JobId} {state : JobState}
    (hrows : s'.1.deliveries = s.1.deliveries) (hqueue : s'.1.queue = s.1.queue.add job state)
    (hclock : s.2 ≤ s'.2) (hq : q ≠ .done) (hnext : ¬ s.1.queue.Has job → s.1.NextOf job)
    (hdue : ¬ s.1.queue.Has job → ∀ r due, s.1.deliveries.find? job.deliveryId = some r →
      r.Deferred due → due ≤ s'.2 ∨ Defers due state) :
    Paced s' (ts.set i (u, .quiet)) := by
  have hquiet : Paced (s.1, s'.2) (ts.set i (u, .quiet)) :=
    h.move hi (fun _ _ => id) (fun _ _ => Or.inl) rfl hclock trivial (fun _ => False.elim)
      fun hdone => absurd hdone hq
  by_cases hhas : s.1.queue.Has job
  · rw [JobQueue.add_of_has hhas] at hqueue
    refine h.move hi (fun d r hr => ?_) (fun d r hr => Or.inl ?_) hqueue hclock trivial
      (fun _ => False.elim) fun hdone => absurd hdone hq
    · rw [hrows]
      exact hr
    · rw [hrows] at hr
      exact hr
  · refine hquiet.enqueue hrows ?_ rfl (hnext hhas) (hdue hhas)
    rw [hqueue]
    exact JobQueue.live_add hhas

/-- The job of an attempt is the worker's own. -/
theorem Paced.attempted (h : Paced s ts) {d : Uuid} {count : ℕ}
    (hi : ts[i]? = some (u, .attempting d count)) :
    ∃ r, s.1.deliveries.find? d = some r ∧ r.status = .pending ∧ r.attemptCount = count ∧
      (⟨d, count + 1⟩ : JobId) ∈ u.job ∧ ⟨⟨d, count + 1⟩, .active⟩ ∈ s.1.queue.live := by
  obtain ⟨now, r, hu, hr, hpending, hcount⟩ := h.knows i u _ hi
  have hjob : (⟨d, count + 1⟩ : JobId) ∈ u.job := by
    rw [hu]
    rfl
  exact ⟨r, hr, hpending, hcount, hjob, h.holds i u _ hi Pace.noConfusion _ hjob⟩

/-- While a delivery is attempted, none of its jobs waits: it would be the job of the
attempt. -/
theorem Paced.deliveryId_ne (h : Paced s ts) {d : Uuid} {count : ℕ}
    (hi : ts[i]? = some (u, .attempting d count)) {x : LiveJob JobId}
    (hx : x ∈ s.1.queue.live) (hstate : x.state ≠ .active) : x.id.deliveryId ≠ d := by
  intro hd
  obtain ⟨r, hr, hpending, hcount, -, hlive⟩ := h.attempted hi
  obtain ⟨r', hr', hnext⟩ := h.next x hx hstate
  rw [hd, hr] at hr'
  obtain rfl := Option.some.inj hr'
  have hid : x.id = ⟨d, count + 1⟩ := by
    rw [← hd, ← hcount, ← hnext hpending]
  have heq := JobQueue.eq_of_id_eq hx hlive hid
  exact hstate (by rw [heq])

/-- While a delivery is attempted, no other thread is on it. -/
theorem Paced.sole (h : Paced s ts) {d : Uuid} {count : ℕ}
    (hi : ts[i]? = some (u, .attempting d count)) {j : ℕ} {v : Call} {p : Pace}
    (hj : ts[j]? = some (v, p)) (hji : j ≠ i) : ¬ p.Attempts d := by
  intro hattempts
  obtain ⟨r, hr, hpending, hcount, hmine, -⟩ := h.attempted hi
  have hjob : (⟨d, count + 1⟩ : JobId) ∈ v.job ∧ p ≠ .done := by
    have hknows := h.knows j v p hj
    cases p with
    | starting d' =>
        obtain rfl : d' = d := hattempts
        obtain ⟨job, now, rfl, hjob, r', hr', hnext⟩ := hknows
        rw [hjob, hr] at hr'
        obtain rfl := Option.some.inj hr'
        refine ⟨?_, Pace.noConfusion⟩
        rw [← hjob, ← hcount, ← hnext hpending]
        rfl
    | attempting d' count' =>
        obtain rfl : d' = d := hattempts
        obtain ⟨r', hr', -, hcount', hjob, -⟩ := h.attempted hj
        rw [hr] at hr'
        obtain rfl := Option.some.inj hr'
        rw [← hcount, hcount']
        exact ⟨hjob, Pace.noConfusion⟩
    | _ => exact hattempts.elim
  exact hji (h.alone j i v u _ _ hj hi hjob.2 Pace.noConfusion _ hjob.1 hmine)

theorem Pace.recorded_attempts (d d' : Uuid) (p : DeliveryPatch) :
    ¬ (Pace.recorded d p).Attempts d' := by
  unfold Pace.recorded
  split <;> exact id

/-- A later attempt does not take an earlier one back. -/
theorem World.Stored.update {w w' : World} {d d' : Uuid} {r : WebhookDeliveryEntity}
    {p : DeliveryPatch} {now due : Time} {attempts : ℕ} (h : w.Stored d' attempts due)
    (hr : w.deliveries.find? d = some r) (hcount : r.attemptCount < p.attemptCount)
    (hrows : w'.deliveries = w.deliveries.update d (p.change now)) :
    w'.Stored d' attempts due := by
  obtain ⟨r', hr', hle, hlast⟩ := h
  by_cases hd : d' = d
  · subst hd
    rw [hr] at hr'
    obtain rfl := Option.some.inj hr'
    refine ⟨p.apply now r, ?_, ?_, fun heq => ?_⟩
    · rw [hrows]
      exact IndexedTable.find?_update_self hr _
    · show attempts ≤ p.attemptCount
      omega
    · have heq' : p.attemptCount = attempts := heq
      omega
  · refine ⟨r', ?_, hle, hlast⟩
    rw [hrows, IndexedTable.find?_update_of_ne _ hd _]
    exact hr'

/-- **An attempt is recorded**: nobody else is on the delivery, and it has no job that
has not started. -/
theorem Paced.record (h : Paced s ts) {d : Uuid} {count : ℕ}
    (hi : ts[i]? = some (u, .attempting d count)) {p : DeliveryPatch}
    (hp : p.attemptCount = count + 1) {now : Time}
    (hrows : s'.1.deliveries = s.1.deliveries.update d (p.change now))
    (hqueue : s'.1.queue = s.1.queue) (hclock : s.2 ≤ s'.2) :
    Paced s' (ts.set i (u, .recorded d p)) := by
  obtain ⟨r, hr, hpending, hcount, -, -⟩ := h.attempted hi
  have hnew : s'.1.deliveries.find? d = some (p.apply now r) := by
    rw [hrows]
    exact IndexedTable.find?_update_self hr _
  have hother {d' : Uuid} (hd : d' ≠ d) :
      s'.1.deliveries.find? d' = s.1.deliveries.find? d' := by
    rw [hrows]
    exact IndexedTable.find?_update_of_ne _ hd _
  have hpast {j : ℕ} {v : Call} {p' : Pace}
      (hj : (ts.set i (u, .recorded d p))[j]? = some (v, p')) :
      ∃ p₀, ts[j]? = some (v, p₀) ∧ (p' ≠ .done → p₀ ≠ .done) := by
    rcases getElem?_set_some hj with ⟨rfl, he⟩ | ⟨-, hj⟩
    · obtain ⟨rfl, rfl⟩ := Prod.mk.inj he
      exact ⟨_, hi, fun _ => Pace.noConfusion⟩
    · exact ⟨p', hj, id⟩
  have hstored {d' : Uuid} {attempts : ℕ} {due : Time} (hs : s.1.Stored d' attempts due) :
      s'.1.Stored d' attempts due :=
    hs.update hr (by omega) hrows
  constructor
  · intro x hx hstate
    rw [hqueue] at hx
    obtain ⟨r', hr', hnext⟩ := h.next x hx hstate
    exact ⟨r', (hother (h.deliveryId_ne hi hx hstate)).trans hr', hnext⟩
  · intro j v p' hj hp' x hx
    obtain ⟨p₀, hj₀, hp₀⟩ := hpast hj
    rw [hqueue]
    exact h.holds j v p₀ hj₀ (hp₀ hp') x hx
  · intro j k v v' p₁ p₂ hj hk hp₁ hp₂
    obtain ⟨q₁, hj₀, hq₁⟩ := hpast hj
    obtain ⟨q₂, hk₀, hq₂⟩ := hpast hk
    exact h.alone j k v v' q₁ q₂ hj₀ hk₀ (hq₁ hp₁) (hq₂ hp₂)
  · intro j v p' hj
    rcases getElem?_set_some hj with ⟨-, he⟩ | ⟨hji, hj⟩
    · obtain ⟨rfl, rfl⟩ := Prod.mk.inj he
      unfold Pace.recorded
      split
      · rename_i due _ hdue
        refine ⟨_, hnew, le_rfl, fun _ _ => ?_⟩
        show p.nextRetryAt.join = some due
        rw [hdue]
        rfl
      · trivial
    · have hknows := h.knows j v p' hj
      cases p' with
      | starting d' =>
          obtain ⟨job, now'', rfl, hjob, r', hr', hnext⟩ := hknows
          have hd : d' ≠ d := fun hd => h.sole hi hj hji hd
          refine ⟨job, now'', rfl, hjob, r', ?_, hnext⟩
          rw [hother (hjob ▸ hd)]
          exact hr'
      | attempting d' count' =>
          obtain ⟨now'', r', rfl, hr', hrest⟩ := hknows
          have hd : d' ≠ d := fun hd => h.sole hi hj hji hd
          exact ⟨now'', r', rfl, (hother hd).trans hr', hrest⟩
      | retrying d' attempts due => exact hstored hknows
      | scheduling d' attempts due delayMs => exact ⟨hstored hknows.1, hknows.2.trans hclock⟩
      | quiet => trivial
      | done => trivial
  · intro d' r' due hr' hdeferred
    by_cases hd : d' = d
    · subst hd
      refine Or.inr ⟨fun x hx hxd => ?_, fun j v p' hj => ?_⟩
      · -- a job of this delivery has started
        rw [hqueue] at hx
        have hnone := h.deliveryId_ne hi hx
        cases hstate : x.state with
        | active => trivial
        | waiting => exact absurd hxd (hnone (by rw [hstate]; exact JobState.noConfusion))
        | delayed time => exact absurd hxd (hnone (by rw [hstate]; exact JobState.noConfusion))
      · rcases getElem?_set_some hj with ⟨rfl, he⟩ | ⟨hji, hj⟩
        · obtain ⟨rfl, rfl⟩ := Prod.mk.inj he
          exact Pace.recorded_attempts d' d' p
        · exact h.sole hi hj hji
    · rw [hother hd] at hr'
      rcases h.waits d' r' due hr' hdeferred with hle | ⟨hjobs, hthreads⟩
      · exact Or.inl (hle.trans hclock)
      · refine Or.inr ⟨hqueue ▸ hjobs, fun j v p' hj => ?_⟩
        rcases getElem?_set_some hj with ⟨-, he⟩ | ⟨-, hj⟩
        · obtain ⟨rfl, rfl⟩ := Prod.mk.inj he
          exact Pace.recorded_attempts d d' p
        · exact hthreads j v p' hj

/-- A call that answers from the world, or adds to it what is not of interest here. -/
theorem Paced.frame (h : Paced s ts) (hi : ts[i]? = some (u, q)) {ω : Draw} {c : Command}
    (hsame : (exec ω c s.1).2.deliveries = s.1.deliveries ∧ (exec ω c s.1).2.queue = s.1.queue)
    (hclock : s.2 ≤ ω.now) (hknows : q'.Knows ((exec ω c s.1).2, ω.now) u)
    (hattempts : ∀ d, q'.Attempts d → q.Attempts d) (hdone : q = .done → q' = .done) :
    Paced ((exec ω c s.1).2, ω.now) (ts.set i (u, q')) := by
  refine h.move hi (fun d r hr => ?_) (fun d r hr => Or.inl ?_) hsame.2 hclock hknows hattempts
    hdone
  · rw [hsame.1]
    exact hr
  · rw [hsame.1] at hr
    exact hr

variable {ω : Draw} {c : Command}

/-- A call that has no part in an attempt. -/
theorem Paced.idle (h : Paced s ts) (hi : ts[i]? = some (u, .quiet)) (hc : c.idle = true)
    (hclock : s.2 ≤ ω.now) :
    Paced ((exec ω c s.1).2, ω.now) (ts.set i (u, .quiet)) := by
  have hqueue : (exec ω c s.1).2.queue = s.1.queue := by
    have heffect := exec_queue ω c s.1
    generalize (exec ω c s.1).2.queue = queue at heffect
    cases heffect with
    | same => rfl
    | added | completed | failed => exact absurd hc Bool.false_ne_true
  -- new rows are those of deliveries that have not been attempted
  have hfind (d : Uuid) : (exec ω c s.1).2.deliveries.find? d = s.1.deliveries.find? d ∨
      s.1.deliveries.find? d = none ∧
        ∀ r, (exec ω c s.1).2.deliveries.find? d = some r → r.lastAttemptAt = none := by
    have heffect := exec_deliveries ω c s.1
    generalize (exec ω c s.1).2.deliveries = deliveries at heffect
    cases heffect with
    | same => exact Or.inl rfl
    | updated => exact absurd hc Bool.false_ne_true
    | saved hsave =>
        obtain ⟨hinsert, -, hrow⟩ := saveDeliveries_eq_some hsave
        refine (IndexedTable.find?_insertAll hinsert d).imp id fun ⟨hnone, r, hr, _, hfound⟩ => ?_
        refine ⟨hnone, fun r' hr' => ?_⟩
        obtain rfl := Option.some.inj (hfound.symm.trans hr')
        obtain ⟨_, -, _, rfl⟩ := hrow r hr
        rfl
  refine h.move hi (fun d r hr => ?_) (fun d r hr => ?_) hqueue hclock trivial (fun _ => id) id
  · rcases hfind d with hsame | ⟨hnone, -⟩
    · exact hsame.trans hr
    · exact absurd (hnone.symm.trans hr) (by simp)
  · rcases hfind d with hsame | ⟨-, hnew⟩
    · exact Or.inl (hsame.symm.trans hr)
    · exact Or.inr (hnew r hr)

/-- A thread tries to add a job that is due when it starts. -/
theorem Paced.tryAdd (h : Paced s ts) (hi : ts[i]? = some (u, q)) {job : JobId} {delayMs : ℤ}
    (hclock : s.2 ≤ ω.now) (hq : q ≠ .done) (hnext : ¬ s.1.queue.Has job → s.1.NextOf job)
    (hdue : ¬ s.1.queue.Has job → ∀ r due, s.1.deliveries.find? job.deliveryId = some r →
      r.Deferred due → due ≤ ω.now + max delayMs 0) :
    Paced ((exec ω (.addJob job delayMs) s.1).2, ω.now) (ts.set i (u, .quiet)) := by
  rcases exec_world ω (.addJob job delayMs) s.1 with hsame | hadded
  · rw [hsame]
    exact h.move hi (fun _ _ => id) (fun _ _ => Or.inl) rfl hclock trivial (fun _ => False.elim)
      fun hdone => absurd hdone hq
  · rw [hadded]
    refine h.add hi rfl rfl hclock hq hnext fun hhas r due hr hdeferred => ?_
    have hle := hdue hhas r due hr hdeferred
    dsimp only
    split_ifs with hdelay
    · rw [max_eq_right hdelay, add_zero] at hle
      exact Or.inl hle
    · rw [max_eq_left (le_of_not_ge hdelay)] at hle
      exact Or.inr hle

/-- An attempt goes on. -/
theorem Paced.attempt (h : Paced s ts) {d : Uuid} {count : ℕ}
    (hi : ts[i]? = some (u, .attempting d count))
    (hsame : (exec ω c s.1).2.deliveries = s.1.deliveries ∧ (exec ω c s.1).2.queue = s.1.queue)
    (hclock : s.2 ≤ ω.now)
    (hnext : (Pace.attempting d count).next c (exec ω c s.1).1 = .attempting d count) :
    Paced ((exec ω c s.1).2, ω.now)
      (ts.set i (u, (Pace.attempting d count).next c (exec ω c s.1).1)) := by
  rw [hnext]
  exact h.frame hi hsame hclock ((h.knows i u _ hi).mono (fun d r hr => hsame.1 ▸ hr) hclock)
    (fun _ => id) id

/-- A worker loads its delivery: if that is PENDING, its job is for the next attempt. -/
theorem Paced.load (h : Paced s ts) {d : Uuid} (hi : ts[i]? = some (u, .starting d))
    (hclock : s.2 ≤ ω.now) :
    Paced ((exec ω (.findDelivery d) s.1).2, ω.now)
      (ts.set i (u, (Pace.starting d).next (.findDelivery d)
        (exec ω (.findDelivery d) s.1).1)) := by
  have hsame := same_exec (ω := ω) (c := .findDelivery d) (w := s.1) rfl
  obtain ⟨job, now, rfl, hjob, r, hr, hnext⟩ := h.knows i u _ hi
  rw [hjob] at hr
  have hquiet : Paced ((exec ω (.findDelivery d) s.1).2, ω.now)
      (ts.set i (.work job now, .quiet)) :=
    h.frame hi hsame hclock trivial (fun _ => False.elim) Pace.noConfusion
  cases hres : (exec ω (.findDelivery d) s.1).1 with
  | error _ => exact hquiet
  | ok found =>
      rw [exec_of_ok hres] at hres
      obtain rfl : _ = found := Except.ok.inj hres
      rw [hr]
      show Paced _ (ts.set i (_, if r.status = .success ∨ r.status = .failed then Pace.quiet
        else .attempting r.id r.attemptCount))
      split_ifs with hterminal
      · exact hquiet
      · have hid : r.id = d := (Table.find?_eq_some hr).2
        have hpending : r.status = .pending := WebhookDeliveryStatus.eq_pending hterminal
        refine h.frame hi hsame hclock ⟨now, r, ?_, ?_, hpending, rfl⟩ (fun d' hd' => ?_)
          Pace.noConfusion
        · rw [hid, ← hjob, ← hnext hpending]
        · rw [hsame.1, hid]
          exact hr
        · exact hid.symm.trans hd'

/-- A worker adds the job of the next attempt, with a delay that ends when it is due. -/
theorem Paced.retry (h : Paced s ts) {d : Uuid} {attempts : ℕ} {due : Time} {delayMs : ℤ}
    (hi : ts[i]? = some (u, .scheduling d attempts due delayMs)) (hclock : s.2 ≤ ω.now)
    (hjob : ¬ s.1.queue.Has ⟨d, attempts + 1⟩ → s.1.NextOf ⟨d, attempts + 1⟩) :
    Paced ((exec ω (.addJob ⟨d, attempts + 1⟩ delayMs) s.1).2, ω.now)
      (ts.set i (u, (Pace.scheduling d attempts due delayMs).next
        (.addJob ⟨d, attempts + 1⟩ delayMs)
        (exec ω (.addJob ⟨d, attempts + 1⟩ delayMs) s.1).1)) := by
  have hnext : (Pace.scheduling d attempts due delayMs).next (.addJob ⟨d, attempts + 1⟩ delayMs)
      (exec ω (.addJob ⟨d, attempts + 1⟩ delayMs) s.1).1 = .quiet := by
    cases (exec ω (.addJob ⟨d, attempts + 1⟩ delayMs) s.1).1 <;> rfl
  rw [hnext]
  obtain ⟨⟨r, hr, hle, hlast⟩, hdelay⟩ := h.knows i u _ hi
  refine h.tryAdd hi hclock Pace.noConfusion hjob fun hhas r' due' hr' hdeferred => ?_
  obtain rfl := Option.some.inj (hr.symm.trans hr')
  -- the job is for the next attempt, so the last one is that of this thread
  obtain ⟨r', hr', hcount⟩ := hjob hhas
  obtain rfl := Option.some.inj (hr.symm.trans hr')
  have hsame : attempts + 1 = r.attemptCount + 1 := hcount hdeferred.1
  have hdue := hlast (by omega) hdeferred.1
  obtain rfl : due = due' := Option.some.inj (hdue.symm.trans hdeferred.2.2)
  calc due = due - delayMs + delayMs := (sub_add_cancel due delayMs).symm
    _ ≤ ω.now + max delayMs 0 := add_le_add (hdelay.trans hclock) (le_max_left delayMs 0)

/-- **One call of one thread.** -/
theorem Paced.exec (h : Paced s ts) (hi : ts[i]? = some (u, q)) (hc : q.Allows u c)
    (hω : ω.Clean) (hclock : s.2 ≤ ω.now)
    (htime : ∀ job ∈ c.added, ¬ s.1.queue.Has job → s.1.NextOf job ∧
      (¬ u.Delivers → ∀ r ∈ s.1.deliveries.find? job.deliveryId, ∀ due ∈ r.nextRetryAt,
        r.Deferred due → due ≤ ω.now)) :
    Paced ((Webhooks.exec ω c s.1).2, ω.now)
      (ts.set i (u, q.next c (Webhooks.exec ω c s.1).1)) := by
  have hknows := h.knows i u q hi
  cases hc with
  | idle hidle =>
      have hnext : Pace.quiet.next c (Webhooks.exec ω c s.1).1 = .quiet := by
        cases (Webhooks.exec ω c s.1).1 with
        | error _ => rfl
        | ok r => cases c <;> first | rfl | exact absurd hidle Bool.false_ne_true
      rw [hnext]
      exact h.idle hi hidle hclock
  | add job hu =>
      have hnext : Pace.quiet.next (.addJob job 0) (Webhooks.exec ω (.addJob job 0) s.1).1 =
          .quiet := by
        cases (Webhooks.exec ω (.addJob job 0) s.1).1 <;> rfl
      rw [hnext]
      refine h.tryAdd hi hclock Pace.noConfusion (fun hhas => (htime job rfl hhas).1)
        fun hhas r due hr hdeferred => ?_
      have hle := (htime job rfl hhas).2 hu r hr due hdeferred.2.2 hdeferred
      simpa using hle
  | start d => exact h.load hi hclock
  | fetch d count request =>
      refine h.attempt hi (same_exec rfl) hclock ?_
      cases (Webhooks.exec ω (.fetch d request) s.1).1 <;> rfl
  | responseText d count =>
      refine h.attempt hi (same_exec rfl) hclock ?_
      cases (Webhooks.exec ω (.responseText d) s.1).1 <;> rfl
  | now d count => exact h.attempt hi ⟨rfl, rfl⟩ hclock rfl
  | record d count p hp =>
      cases hres : (Webhooks.exec ω (.updateDelivery d p) s.1).1 with
      | ok _ =>
          have hupdate := (exec_updateDelivery (w := s.1) (by rw [hres]; rfl)).2
          exact h.record hi hp (by rw [hupdate]) (by rw [hupdate]) hclock
      | error _ =>
          have hsame := exec_of_error hω rfl hres
          show Paced _
            (ts.set i (u, if p.status = .success then Pace.attempting d count else .quiet))
          rw [hsame]
          split_ifs
          · exact h.move hi (fun _ _ => id) (fun _ _ => Or.inl) rfl hclock
              (hknows.mono (fun _ _ => id) hclock) (fun _ => id) id
          · exact h.move hi (fun _ _ => id) (fun _ _ => Or.inl) rfl hclock trivial
              (fun _ => False.elim) Pace.noConfusion
  | clock d attempts due =>
      show Paced (s.1, ω.now) (ts.set i (u, .scheduling d attempts due (due - ω.now)))
      exact h.move hi (fun _ _ => id) (fun _ _ => Or.inl) rfl hclock
        ⟨hknows, (sub_sub_cancel due ω.now).le⟩ (fun _ => id) Pace.noConfusion
  | retry d attempts due delayMs =>
      exact h.retry hi hclock fun hhas => (htime _ rfl hhas).1
  | @complete _ hq job hu =>
      have hnext : q.next (.completeJob job) (.ok ()) = .done := by cases q <;> rfl
      show Paced _ (ts.set i (u, q.next (.completeJob job) (.ok ())))
      rw [hnext]
      exact h.finish hi hq hu rfl rfl hclock
  | @failJob _ hq job hu =>
      have hnext : q.next (.failJob job) (.ok ()) = .done := by cases q <;> rfl
      show Paced _ (ts.set i (u, q.next (.failJob job) (.ok ())))
      rw [hnext]
      exact h.finish hi hq hu rfl rfl hclock

end Paced

/-! ### No POST before its time -/

/-- The start of a run: the jobs that have not started are for the next attempts of
their deliveries, and do not start before these are due. -/
structure World.Scheduled (w : World) (now : Time) : Prop where
  fresh : ∀ job ∈ w.queue.live, job.state ≠ .active → w.NextOf job.id
  defers : ∀ r ∈ w.deliveries.rows, ∀ due ∈ r.nextRetryAt, r.Deferred due → due ≤ now ∨
    ∀ job ∈ w.queue.live, job.id.deliveryId = r.id → Defers due job.state

instance (due : Time) : (state : JobState) → Decidable (Defers due state)
  | .waiting => inferInstanceAs (Decidable False)
  | .delayed time => inferInstanceAs (Decidable (due ≤ time))
  | .active => inferInstanceAs (Decidable True)

instance (w : World) (now : Time) : Decidable (w.Scheduled now) :=
  decidable_of_iff ((∀ job ∈ w.queue.live, job.state ≠ .active → w.NextOf job.id) ∧
    ∀ r ∈ w.deliveries.rows, ∀ due ∈ r.nextRetryAt, r.Deferred due → due ≤ now ∨
      ∀ job ∈ w.queue.live, job.id.deliveryId = r.id → Defers due job.state)
    ⟨fun h => ⟨h.1, h.2⟩, fun h => ⟨h.fresh, h.defers⟩⟩

theorem World.Scheduled.paced {w : World} {now : Time} (h : w.Scheduled now) :
    Paced (w, now) [] where
  next := h.fresh
  holds i u q hi := absurd hi (by simp)
  alone i j u u' q q' hi := absurd hi (by simp)
  knows i u q hi := absurd hi (by simp)
  waits d r due hr hdeferred := by
    obtain ⟨hmem, hid⟩ := Table.find?_eq_some hr
    have hid : r.id = d := hid
    refine (h.defers r hmem due hdeferred.2.2 hdeferred).imp id fun hjobs => ⟨?_, by simp⟩
    rw [← hid]
    exact hjobs

/-- The POSTs made since there were `n`. -/
def World.postsSince (w : World) (n : ℕ) : List (Uuid × Time) :=
  w.posts.take (w.posts.length - n)

/-- For no delivery has a POST been started since `w` before the time a failed attempt
had stored in `w`. -/
def World.Awaited (w w' : World) : Prop :=
  ∀ r ∈ w.deliveries.rows, ∀ due ∈ r.nextRetryAt, r.Deferred due →
    ∀ post ∈ w'.postsSince w.posts.length, post.1 = r.id → due ≤ post.2

instance (w w' : World) : Decidable (w.Awaited w') :=
  inferInstanceAs (Decidable (∀ r ∈ w.deliveries.rows, ∀ due ∈ r.nextRetryAt, r.Deferred due →
    ∀ post ∈ w'.postsSince w.posts.length, post.1 = r.id → due ≤ post.2))

/-- What is the case with a delivery once a failed attempt has stored a time: it has
come, or the delivery has not changed; and no POST was started before. -/
structure Awaiting (d : Uuid) (due : Time) (posts : List (Uuid × Time)) (s : World × Time) :
    Prop where
  due_or_deferred : due ≤ s.2 ∨ ∃ r, s.1.deliveries.find? d = some r ∧ r.Deferred due
  posted : ∃ new, s.1.posts = new ++ posts ∧ ∀ post ∈ new, post.1 = d → due ≤ post.2

section Awaiting

variable {s : World × Time} {ts : List (Call × Pace)} {i : ℕ} {u : Call} {q : Pace} {ω : Draw}
  {c : Command} {d : Uuid} {due : Time} {posts : List (Uuid × Time)}

/-- **No call starts a POST too early.** -/
theorem Awaiting.exec (h : Awaiting d due posts s) (hpaced : Paced s ts)
    (hi : ts[i]? = some (u, q)) (hc : q.Allows u c) (hclock : s.2 ≤ ω.now) :
    Awaiting d due posts ((Webhooks.exec ω c s.1).2, ω.now) := by
  -- a thread that is about to attempt the delivery finds it due
  have hdue (hq : q.Attempts d) : due ≤ s.2 := by
    rcases h.due_or_deferred with hle | ⟨r, hr, hdeferred⟩
    · exact hle
    · rcases hpaced.waits d r due hr hdeferred with hle | ⟨-, hthreads⟩
      · exact hle
      · exact absurd hq (hthreads i u q hi)
  constructor
  · rcases h.due_or_deferred with hle | ⟨r, hr, hdeferred⟩
    · exact Or.inl (hle.trans hclock)
    · have heffect := exec_deliveries ω c s.1
      dsimp only
      generalize (Webhooks.exec ω c s.1).2.deliveries = deliveries at heffect ⊢
      cases heffect with
      | same => exact Or.inr ⟨r, hr, hdeferred⟩
      | saved hsave =>
          rcases IndexedTable.find?_insertAll (saveDeliveries_eq_some hsave).1 d with
            hfind | ⟨hnone, -⟩
          · exact Or.inr ⟨r, hfind.trans hr, hdeferred⟩
          · exact absurd (hnone.symm.trans hr) (by simp)
      | updated d' hfits =>
          cases hc with
          | idle hidle => exact absurd hidle Bool.false_ne_true
          | record _ count p hp =>
              by_cases hd : d' = d
              · exact Or.inl ((hdue hd).trans hclock)
              · exact Or.inr ⟨r, (IndexedTable.find?_update_of_ne _ (Ne.symm hd) _).trans hr,
                  hdeferred⟩
  · obtain ⟨new, hnew, hlate⟩ := h.posted
    rcases exec_posts ω c s.1 with hsame | ⟨d', request, rfl, hposted⟩
    · exact ⟨new, hsame.trans hnew, hlate⟩
    · refine ⟨(d', ω.now) :: new, ?_, fun post hpost hd => ?_⟩
      · rw [hposted, hnew]
        rfl
      · rcases List.mem_cons.1 hpost with rfl | hpost
        · cases hc with
          | idle hidle => exact absurd hidle Bool.false_ne_true
          | fetch _ count _ => exact (hdue hd).trans hclock
        · exact hlate post hpost hd

end Awaiting

/-- What a run of this kind keeps to: workers deliver, the clock does not go back, calls
that fail have no effect, and jobs are added in time. -/
def Regular (P : Clocked) (l : Label Call Draw) : Prop :=
  ByWorkers l ∧ Forward P l ∧ Clean l ∧ InTime P l

instance (P : Clocked) (l : Label Call Draw) : Decidable (Regular P l) :=
  inferInstanceAs (Decidable (_ ∧ _ ∧ _ ∧ _))

section Runs

variable {cfg : Config} {P : Clocked}

/-- A thread starts that is not a worker. -/
theorem Paced.join {s : World × Time} {ts : List (Call × Pace)} (h : Paced s ts) {t : Call}
    (ht : t.job = none) : Paced s (ts ++ [(t, .quiet)]) := by
  constructor
  · exact h.next
  · intro j v p hj hp job hjob
    rcases getElem?_append_some hj with hj | ⟨-, he⟩
    · exact h.holds j v p hj hp job hjob
    · obtain ⟨rfl, -⟩ := Prod.mk.inj he
      rw [ht] at hjob
      exact absurd hjob (by simp)
  · intro j k v v' p p' hj hk hp hp' job hjob hjob'
    rcases getElem?_append_some hj with hj | ⟨-, he⟩
    · rcases getElem?_append_some hk with hk | ⟨-, he⟩
      · exact h.alone j k v v' p p' hj hk hp hp' job hjob hjob'
      · obtain ⟨rfl, -⟩ := Prod.mk.inj he
        rw [ht] at hjob'
        exact absurd hjob' (by simp)
    · obtain ⟨rfl, -⟩ := Prod.mk.inj he
      rw [ht] at hjob
      exact absurd hjob (by simp)
  · intro j v p hj
    rcases getElem?_append_some hj with hj | ⟨-, he⟩
    · exact h.knows j v p hj
    · obtain ⟨-, rfl⟩ := Prod.mk.inj he
      trivial
  · intro d r due hr hdeferred
    refine (h.waits d r due hr hdeferred).imp id fun ⟨hjobs, hthreads⟩ => ⟨hjobs, ?_⟩
    intro j v p hj
    rcases getElem?_append_some hj with hj | ⟨-, he⟩
    · exact hthreads j v p hj
    · obtain ⟨-, rfl⟩ := Prod.mk.inj he
      exact id

/-- A thread starts. -/
theorem Paced.spawn {t : Call} {s' : World × Time} (h : Paced P.world P.stages)
    (hok : Regular P (.spawn t)) (hspawn : (clocked cfg).spawn t P.world = some s') :
    Paced s' (P.stages ++ [(t, (clocked cfg).entry t)]) := by
  cases t with
  | dispatch e =>
      obtain rfl := Option.some.inj hspawn
      exact h.join rfl
  | poll service =>
      obtain rfl := Option.some.inj hspawn
      exact h.join rfl
  | process d => exact hok.1.elim
  | work job now =>
      obtain ⟨w, hw, rfl⟩ := Option.map_eq_some_iff.1 hspawn
      obtain ⟨queue, hqueue, rfl⟩ := Option.map_eq_some_iff.1 hw
      exact h.start hqueue hok.2.1

/-- The job that a regular step adds. -/
theorem Regular.added {i : ℕ} {t : Call} {q : Pace} {c : Command} {ω : Draw}
    (h : Regular P (.step i ω)) (hi : P.stages[i]? = some (t, q))
    (hhead : P.threads[i]?.bind Thread.head = some c) :
    ∀ job ∈ c.added, ¬ P.world.1.queue.Has job → P.world.1.NextOf job ∧
      (¬ t.Delivers → ∀ r ∈ P.world.1.deliveries.find? job.deliveryId, ∀ due ∈ r.nextRetryAt,
        r.Deferred due → due ≤ ω.now) := by
  obtain ⟨th, hth, hhead⟩ := Option.bind_eq_some_iff.1 hhead
  obtain rfl : th.tag = t := by
    have := (List.getElem?_map ..).symm.trans hi
    rw [hth] at this
    exact (Prod.mk.inj (Option.some.inj this)).1
  intro job hjob
  exact h.2.2.2 th hth job (by rw [hhead]; exact hjob)

/-- **Every regular run keeps its pace.** -/
theorem paced_run {labels : List (Label Call Draw)}
    (h : Pool.Along (clocked cfg) Regular P labels)
    (htracked : Pool.Tracked (clocked cfg) (fun _ _ _ => True) P) (hP : Paced P.world P.stages) :
    Pool.Tracked (clocked cfg) (fun _ _ _ => True) (Pool.run (clocked cfg) P labels) ∧
      Paced (Pool.run (clocked cfg) P labels).world (Pool.run (clocked cfg) P labels).stages := by
  refine Pool.invariant (body_paced cfg) ?_ ?_ h htracked hP
  · exact fun P t s' hpaced hok hspawn => hpaced.spawn hok hspawn
  · exact fun P i t q c ω hpaced hok hi hhead hc =>
      hpaced.exec hi hc hok.2.2.1 hok.2.1 (hok.added hi hhead)

end Runs

/-! ### A stale event is dispatched during the backoff -/

/-- The call is made then; the receiver answers with this status. -/
def drawnAt (now : Time) (status : ℕ) : Draw := { answering status with now := now }

/-- The `i`-th thread takes the job of an attempt and makes its next `n` calls. -/
def attemptAt (i attempt : ℕ) (now : Time) (n : ℕ) : List (Label Call Draw) :=
  .spawn (.work ⟨sampleDelivery.id, attempt⟩ now) :: List.replicate n (.step i (drawnAt now 500))

/-- The `i`-th thread polls and dispatches the event, which is stale. -/
def recoverAt (i : ℕ) (now : Time) : List (Label Call Draw) :=
  .spawn (.poll 0) :: List.replicate 9 (.step i (drawnAt now 200))

end Webhooks
end LedgerEngine
