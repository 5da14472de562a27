/-
# One poll and the events of its batch

`processOutboxBatch` hands the events it is given one after the other to
`markProcessing` and `dispatchOutboxEvent`, inside a `try` of their own, and
records a failure with `markFailed` in its `catch`.  Here the other services
are a list of events and, for each position in it, how the three calls settle
(`Batch`), whatever the reason; the instance keeps its flag and the calls it
has made (`Instance`).

What throws inside the `catch` leaves the loop.  So every event is attempted
once, in order, if and only if no event but the last fails and cannot be marked
failed either (`poll_attempts_all`).  In every case the call resolves and the
flag is down again (`poll_settles`).
-/

import LedgerEngine.Async.Triple
import LedgerEngine.Webhooks.Stages

namespace LedgerEngine
namespace Webhooks

/-- How the three calls for one event settle. -/
structure Outcome where
  markProcessing : Except Exception Unit
  dispatchOutboxEvent : Except Exception Unit
  markFailed : Except Exception Unit

/-- What one poll meets: the events it is handed, how the calls for each of them
settle, and the clock at each of its calls. -/
structure Batch where
  events : List OutboxEventEntity
  outcomes : ℕ → Outcome
  clock : ℕ → Time

/-- A `JobsService`: its flag and the calls it has made, oldest first. -/
structure Instance where
  outboxRunning : Bool
  calls : List ServiceCall

/-- The event of a call of `markProcessing`. -/
def ServiceCall.marked : ServiceCall → Option Uuid
  | .markProcessing eventId => some eventId
  | _ => none

/-- The calls that attempt an event. -/
def ServiceCall.attempts : ServiceCall → Bool
  | .markProcessing _ | .dispatchOutboxEvent _ => true
  | _ => false

/-- How many events have been begun. -/
def Instance.begun (s : Instance) : ℕ := (s.calls.filterMap ServiceCall.marked).length

/-- The calls that attempted an event, oldest first. -/
def Instance.attempts (s : Instance) : List ServiceCall := s.calls.filter ServiceCall.attempts

def Instance.log (s : Instance) (c : ServiceCall) : Instance := { s with calls := s.calls ++ [c] }

/-- How a call settles: those for an event as the batch has it for the position
of the event begun last. -/
def Batch.answer (b : Batch) (s : Instance) : (c : ServiceCall) → Except Exception c.Res
  | .dateNow => .ok (b.clock s.calls.length)
  | .enterPoll _ => .ok (!s.outboxRunning)
  | .leavePoll _ => .ok ()
  | .getProcessableEvents _ _ => .ok b.events
  | .markProcessing _ => (b.outcomes s.begun).markProcessing
  | .dispatchOutboxEvent _ => (b.outcomes (s.begun - 1)).dispatchOutboxEvent
  | .markFailed _ _ _ => (b.outcomes (s.begun - 1)).markFailed

/-- The flag after a call. -/
def Instance.flag (s : Instance) : ServiceCall → Bool
  | .enterPoll _ => true
  | .leavePoll _ => false
  | _ => s.outboxRunning

/-- A batch as the handler of the calls of a poll. -/
def Batch.handler (b : Batch) : Prog.Handler ServiceCall ServiceCall.Res Exception Instance :=
  fun c s => (b.answer s c, { s.log c with outboxRunning := s.flag c })

/-- The event at a position fails, and marking it failed fails too. -/
def Batch.Blocks (b : Batch) (i : ℕ) : Prop :=
  ((b.outcomes i).markProcessing ≠ .ok () ∨ (b.outcomes i).dispatchOutboxEvent ≠ .ok ()) ∧
    (b.outcomes i).markFailed ≠ .ok ()

/-- No event but the last blocks. -/
def Batch.Passes (b : Batch) : Prop := ∀ i, i + 1 < b.events.length → ¬ b.Blocks i

/-- The calls that attempt the event at position `i` once. -/
def Batch.attempt (b : Batch) (i : ℕ) (event : OutboxEventEntity) : List ServiceCall :=
  .markProcessing event.id :: match (b.outcomes i).markProcessing with
    | .ok () => [.dispatchOutboxEvent event.id]
    | .error _ => []

/-- The calls that attempt each event of a list once, in order, from position `i`. -/
def Batch.attemptAll (b : Batch) : ℕ → List OutboxEventEntity → List ServiceCall
  | _, [] => []
  | i, event :: events => b.attempt i event ++ b.attemptAll (i + 1) events

open Classical in
/-- The same up to the first event that blocks. -/
noncomputable def Batch.attemptFirst (b : Batch) : ℕ → List OutboxEventEntity → List ServiceCall
  | _, [] => []
  | i, event :: events =>
      b.attempt i event ++ if b.Blocks i then [] else b.attemptFirst (i + 1) events

/-- Every event of the batch has been attempted exactly once and in order, the
call has resolved and the next poll will run. -/
def Batch.Done (b : Batch) (r : Except Exception Unit × Instance) : Prop :=
  r.2.attempts = b.attemptAll 0 b.events ∧ r.1 = .ok () ∧ r.2.outboxRunning = false

/-- A service that is not polling and has made no call. -/
def Instance.idle : Instance := ⟨false, []⟩

section Calls

variable {b : Batch} {cfg : Config} {s s' : Instance}

theorem attempts_log (c : ServiceCall) :
    (s.log c).attempts = s.attempts ++ if c.attempts then [c] else [] := by
  unfold Instance.attempts Instance.log
  rw [List.filter_append, List.filter_singleton]
  cases c.attempts <;> rfl

theorem begun_log (c : ServiceCall) :
    (s.log c).begun = s.begun + if c.marked.isSome then 1 else 0 := by
  unfold Instance.begun Instance.log
  rw [List.filterMap_append, List.length_append]
  cases h : c.marked <;> simp [h]

/-- The same events have been attempted, and the flag is as it was. -/
structure Instance.Rests (s s' : Instance) : Prop where
  attempts : s'.attempts = s.attempts
  begun : s'.begun = s.begun
  flag : s'.outboxRunning = s.outboxRunning

theorem Instance.Rests.refl (s : Instance) : s.Rests s := ⟨rfl, rfl, rfl⟩

/-- A call that attempts nothing. -/
theorem Instance.Rests.call (h : s.Rests s') {c : ServiceCall} (hc : c.attempts = false)
    (hm : c.marked = none) (hf : s'.flag c = s'.outboxRunning) : s.Rests (b.handler c s').2 where
  attempts := by
    refine (attempts_log c).trans ?_
    rw [hc, h.attempts]
    exact List.append_nil _
  begun := by
    refine (begun_log c).trans ?_
    rw [hm, h.begun]
    rfl
  flag := hf.trans h.flag

variable (b cfg s) in
/-- Recording a failure ends with the call of `markFailed`. -/
theorem eval_markOutboxEventForRetry (eventId : Uuid) (retryCount : ℕ) :
    ∃ s₁ nextRetryAt, s.Rests s₁ ∧
      (markOutboxEventForRetry cfg eventId retryCount).eval b.handler s =
        b.handler (.markFailed eventId (retryCount + 1) nextRetryAt) s₁ := by
  unfold markOutboxEventForRetry
  dsimp only
  split_ifs with hleft
  · exact ⟨_, _, (Instance.Rests.refl s).call rfl rfl rfl, Prog.eval_await ..⟩
  · exact ⟨s, none, Instance.Rests.refl s, Prog.eval_await ..⟩

/-- The instance after the attempt of an event: the next position is begun. -/
structure Batch.Tried (b : Batch) (event : OutboxEventEntity) (s s' : Instance) : Prop where
  attempts : s'.attempts = s.attempts ++ b.attempt s.begun event
  begun : s'.begun = s.begun + 1
  flag : s'.outboxRunning = s.outboxRunning

theorem Batch.Tried.rests {event : OutboxEventEntity} {s₁ s₂ : Instance}
    (h : b.Tried event s s₁) (h' : s₁.Rests s₂) : b.Tried event s s₂ :=
  ⟨h'.attempts.trans h.attempts, h'.begun.trans h.begun, h'.flag.trans h.flag⟩

variable (b s) in
/-- The inner `try` block attempts its event once. -/
theorem eval_attempt (event : OutboxEventEntity) :
    ∃ r s₁, ((.await (ServiceCall.markProcessing event.id) : Poller Unit).bind fun _ =>
        .await (ServiceCall.dispatchOutboxEvent event.id)).eval b.handler s = (r, s₁) ∧
      b.Tried event s s₁ ∧
      (r = .ok () ↔ (b.outcomes s.begun).markProcessing = .ok () ∧
        (b.outcomes s.begun).dispatchOutboxEvent = .ok ()) := by
  have hbegun : (s.log (.markProcessing event.id)).begun = s.begun + 1 := begun_log _
  have hmark : Prog.eval b.handler (.await (ServiceCall.markProcessing event.id)) s =
      ((b.outcomes s.begun).markProcessing, s.log (.markProcessing event.id)) :=
    Prog.eval_await ..
  have hdispatch : Prog.eval b.handler (.await (ServiceCall.dispatchOutboxEvent event.id))
      (s.log (.markProcessing event.id)) = ((b.outcomes s.begun).dispatchOutboxEvent,
        (s.log (.markProcessing event.id)).log (.dispatchOutboxEvent event.id)) := by
    rw [Prog.eval_await]
    show ((b.outcomes ((s.log (.markProcessing event.id)).begun - 1)).dispatchOutboxEvent, _) = _
    rw [hbegun]
    rfl
  rw [Prog.eval_bind, hmark]
  cases hm : (b.outcomes s.begun).markProcessing with
  | ok u =>
      refine ⟨_, _, hdispatch, ⟨?_, ?_, rfl⟩, by simp⟩
      · rw [attempts_log, attempts_log, List.append_assoc, Batch.attempt, hm]
        rfl
      · rw [begun_log, hbegun]
        rfl
  | error e =>
      refine ⟨_, _, rfl, ⟨?_, hbegun, rfl⟩, by simp⟩
      rw [attempts_log, Batch.attempt, hm]
      rfl

variable (b cfg s) in
/-- **One pass of the loop** attempts its event once, and it throws if and only
if the event blocks. -/
theorem eval_processEvent (event : OutboxEventEntity) :
    ∃ r s₁, (processEvent cfg event).eval b.handler s = (r, s₁) ∧ b.Tried event s s₁ ∧
      (r = .ok () ↔ ¬ b.Blocks s.begun) := by
  obtain ⟨r, s₁, heval, htried, hr⟩ := eval_attempt b s event
  rw [processEvent, Prog.tryCatch_eq, Prog.eval_tryCatch, Prog.bind_eq, heval]
  cases r with
  | ok u =>
      obtain ⟨hm, hd⟩ := hr.1 rfl
      exact ⟨_, _, rfl, htried, iff_of_true rfl fun h => h.1.elim (· hm) (· hd)⟩
  | error e =>
      obtain ⟨s₂, date, hrests, hretry⟩ :=
        eval_markOutboxEventForRetry b cfg s₁ event.id event.retryCount
      have hbegun : s₂.begun - 1 = s.begun := by rw [hrests.begun, htried.begun]; rfl
      refine ⟨_, _, hretry, htried.rests (hrests.call (b := b) rfl rfl rfl), ?_⟩
      show (b.outcomes (s₂.begun - 1)).markFailed = .ok () ↔ _
      rw [hbegun]
      have hfails : (b.outcomes s.begun).markProcessing ≠ .ok () ∨
          (b.outcomes s.begun).dispatchOutboxEvent ≠ .ok () :=
        not_and_or.1 fun h => by simpa using hr.2 h
      unfold Batch.Blocks
      rw [and_iff_right hfails, not_not]

variable (b cfg s) in
/-- **The loop** attempts the events up to the first that blocks. -/
theorem eval_processEvents (events : List OutboxEventEntity) :
    ((processEvents cfg events).eval b.handler s).2.attempts =
        s.attempts ++ b.attemptFirst s.begun events ∧
      ((processEvents cfg events).eval b.handler s).2.outboxRunning = s.outboxRunning := by
  induction events generalizing s with
  | nil => exact ⟨(List.append_nil _).symm, rfl⟩
  | cons event events ih =>
      obtain ⟨r, s₁, heval, htried, hr⟩ := eval_processEvent b cfg s event
      rw [processEvents, Prog.bind_eq, Prog.eval_bind, heval, Batch.attemptFirst]
      cases r with
      | ok u =>
          obtain ⟨hattempts, hflag⟩ := ih s₁
          rw [if_neg (hr.1 rfl)]
          refine ⟨hattempts.trans ?_, hflag.trans htried.flag⟩
          rw [htried.attempts, htried.begun, List.append_assoc]
      | error e =>
          have hblocks : b.Blocks s.begun := by
            by_contra hpasses
            exact absurd (hr.2 hpasses) (by simp)
          rw [if_pos hblocks, List.append_nil]
          exact ⟨htried.attempts, htried.flag⟩

theorem attemptAll_eq_nil {i : ℕ} {events : List OutboxEventEntity} :
    b.attemptAll i events = [] ↔ events = [] := by
  cases events with
  | nil => exact iff_of_true rfl rfl
  | cons event events => simp [Batch.attemptAll, Batch.attempt]

/-- The first events are all of them if and only if none but the last blocks. -/
theorem attemptFirst_eq_attemptAll (i : ℕ) (events : List OutboxEventEntity) :
    b.attemptFirst i events = b.attemptAll i events ↔
      ∀ k, k + 1 < events.length → ¬ b.Blocks (i + k) := by
  induction events generalizing i with
  | nil => simp [Batch.attemptFirst, Batch.attemptAll]
  | cons event events ih =>
      rw [Batch.attemptFirst, Batch.attemptAll, List.append_right_inj, List.length_cons]
      split_ifs with hblocks
      · rw [eq_comm, attemptAll_eq_nil]
        constructor
        · rintro rfl k hk
          simp at hk
        · intro h
          by_contra hne
          exact h 0 (by have := List.length_pos_iff.2 hne; omega) hblocks
      · rw [ih]
        constructor
        · intro h k hk
          cases k with
          | zero => exact hblocks
          | succ k => simpa [add_assoc, add_comm 1] using h k (by omega)
        · intro h k hk
          simpa [add_assoc, add_comm 1] using h (k + 1) (by omega)

/-- The poll of an idle service that is handed the batch. -/
def Batch.poll (b : Batch) (cfg : Config) (service : ℕ) : Except Exception Unit × Instance :=
  (Webhooks.poll cfg service).eval b.handler Instance.idle

variable (b cfg s) in
/-- The outer `try` block: the loop, after two calls that attempt nothing. -/
theorem eval_pollEvents :
    ∃ s₁, s.Rests s₁ ∧ (pollEvents cfg).eval b.handler s =
      (processEvents cfg b.events).eval b.handler s₁ :=
  ⟨_, ((Instance.Rests.refl s).call rfl rfl rfl).call rfl rfl rfl, rfl⟩

end Calls

/-- **A poll resolves and lowers its flag**, and it attempts the events up to the
first that blocks. -/
theorem poll_settles (b : Batch) (cfg : Config) (service : ℕ) :
    (b.poll cfg service).1 = .ok () ∧ (b.poll cfg service).2.outboxRunning = false ∧
      (b.poll cfg service).2.attempts = b.attemptFirst 0 b.events := by
  obtain ⟨s₁, hrests, hpoll⟩ := eval_pollEvents b cfg
    (b.handler (.enterPoll service) .idle).2
  have hloop := (eval_processEvents b cfg s₁ b.events).1
  rw [← hpoll, hrests.begun, hrests.attempts] at hloop
  have hcaught : ∃ s₂, ((pollEvents cfg).tryCatch fun _ => .ret ()).eval b.handler
      (b.handler (.enterPoll service) .idle).2 = (.ok (), s₂) ∧
        s₂.attempts = b.attemptFirst 0 b.events := by
    rw [Prog.eval_tryCatch]
    generalize (pollEvents cfg).eval b.handler _ = x at hloop
    obtain ⟨r, s₂⟩ := x
    cases r <;> exact ⟨s₂, rfl, hloop⟩
  obtain ⟨s₂, heval, hattempts⟩ := hcaught
  have hwhole : b.poll cfg service = b.handler (.leavePoll service) s₂ := by
    refine Eq.trans (b := (((pollEvents cfg).tryCatch fun _ => .ret ()).bind fun _ =>
      .await (ServiceCall.leavePoll service)).eval b.handler
        (b.handler (.enterPoll service) .idle).2) rfl ?_
    rw [Prog.eval_bind, heval]
    exact Prog.eval_await ..
  rw [hwhole]
  exact ⟨rfl, rfl, ((attempts_log _).trans (List.append_nil _)).trans hattempts⟩

/-- **Every event of a batch is attempted once and in order, the poll resolves and
the next one will run**, if and only if no event but the last fails and cannot be
marked failed either. -/
theorem poll_attempts_all (b : Batch) (cfg : Config) (service : ℕ) :
    b.Done (b.poll cfg service) ↔ b.Passes := by
  obtain ⟨hok, hflag, hattempts⟩ := poll_settles b cfg service
  unfold Batch.Done Batch.Passes
  rw [hattempts, attemptFirst_eq_attemptAll]
  simp [hok, hflag]

/-- Two events, and a database that goes away during the dispatch of the first. -/
def cutOff : Batch where
  events := [{ sampleEvent with status := .pending },
    { sampleEvent with status := .pending, id := .ofText (js "f") }]
  outcomes i := if i = 0 then ⟨.ok (), .error violation, .error violation⟩
    else ⟨.ok (), .ok (), .ok ()⟩
  clock _ := 0

/-- **A failure that cannot be recorded ends the batch**: the second event is not
attempted. -/
theorem cutOff_not_done : ¬ cutOff.Done (cutOff.poll sampleConfig 0) := by
  rintro ⟨hattempts, -, -⟩
  exact absurd (congrArg List.length hattempts) (by decide)

end Webhooks
end LedgerEngine
