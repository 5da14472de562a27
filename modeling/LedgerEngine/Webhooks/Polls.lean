/-
# The polls of one service

A poll as a thread of a pool: each call it makes of another service is a step, and
its stage says where in `processOutboxBatch` it is.  Before each call of the storage
that carries such a call out, others may do anything that leaves the row of one event
and the flag of the service alone (`Turn`, `Fair`).

What a poll has asked of the other services is kept in a log (`Served`).  Each call is
followed through the program that carries it out, down to what it may do to the row
(`serve_reaches`): it leaves it, or it makes one patch.
-/

import LedgerEngine.Async.Triple
import LedgerEngine.Webhooks.Stages

namespace LedgerEngine
namespace Webhooks

/-! ### Polls of one service -/

/-- What is drawn for a call of the storage, and what others do before it. -/
structure Turn where
  draw : Draw
  others : World → World

/-- The world, the time of the last call, and when a call last changed the row of
the event. -/
structure Watched where
  world : World
  clock : Time
  changed : Option Time

def Watched.row (s : Watched) (e : Uuid) : Option OutboxEventEntity := s.world.outboxEvents.find? e

/-- A call of the storage; notes whether it changes the row of the event. -/
def watch (e : Uuid) (t : Turn) : Prog.Handler Command Command.Res Exception Watched := fun c s =>
  let w := t.others s.world
  let r := exec t.draw c w
  (r.1, {
    world := r.2
    clock := t.draw.now
    changed :=
      if r.2.outboxEvents.find? e = w.outboxEvents.find? e then s.changed else some t.draw.now })

/-- The calls of the storage in turn; counts them. -/
def among (e : Uuid) (turns : ℕ → Turn) :
    Prog.Handler Command Command.Res Exception (Watched × ℕ) :=
  Prog.Handler.scripted (watch e) turns

/-- A call a poll has made: how it settled, the time before it and after it, and when
the row of the event had last been changed. -/
structure Served where
  call : ServiceCall
  result : Except Exception call.Res
  began : Time
  ended : Time
  changed : Option Time

/-- What the polls share, and the calls they have made, newest first. -/
structure Watch where
  seen : Watched
  log : List Served

/-- A call a poll makes, carried out. -/
def serve (e : Uuid) (turns : ℕ → Turn) :
    Prog.Handler ServiceCall ServiceCall.Res Exception Watch := fun c s =>
  let r := c.perform.eval (among e turns) (s.seen, 0)
  (r.1, ⟨r.2.1, ⟨c, r.1, s.seen.clock, r.2.1.clock, r.2.1.changed⟩ :: s.log⟩)

/-- What a poll is about to do. -/
inductive Polling : Type
  /-- raise the flag -/
  | entering
  /-- take the time for `staleBefore` -/
  | timing
  /-- select events -/
  | selecting (staleBefore : Time)
  /-- mark the event PROCESSING -/
  | marking (event : OutboxEventEntity) (events : List OutboxEventEntity)
  /-- dispatch the event -/
  | dispatching (event : OutboxEventEntity) (events : List OutboxEventEntity)
  /-- take the time for `nextRetryAt`: the attempt has failed -/
  | dating (event : OutboxEventEntity) (events : List OutboxEventEntity)
  /-- record the failure -/
  | recording (event : OutboxEventEntity) (nextRetryAt : Option JsDate)
      (events : List OutboxEventEntity)
  /-- lower the flag -/
  | leaving
  /-- nothing -/
  | idle

namespace Polling

/-- The stage in which the loop goes on. -/
def batch : List OutboxEventEntity → Polling
  | [] => leaving
  | event :: events => marking event events

/-- The stage after a failed attempt. -/
def failed (cfg : Config) (event : OutboxEventEntity) (events : List OutboxEventEntity) : Polling :=
  if event.retryCount + 1 < cfg.outboxMaxAttempts then dating event events
  else recording event none events

/-- The stage after a call that resolved. -/
def advance (cfg : Config) : Polling → (c : ServiceCall) → c.Res → Polling
  | entering, .enterPoll _, entered => if entered then timing else idle
  | timing, .dateNow, now => selecting (now - cfg.outboxStaleAfterMs)
  | selecting _, .getProcessableEvents _ _, events => batch events
  | marking event events, .markProcessing _, _ => dispatching event events
  | dispatching _ events, .dispatchOutboxEvent _, _ => batch events
  | dating event events, .dateNow, now => recording event
      (some (newDate (now + backoff cfg.outboxBackoffMs (event.retryCount + 1)))) events
  | recording _ _ events, .markFailed _ _ _, _ => batch events
  | leaving, .leavePoll _, _ => idle
  | q, _, _ => q

/-- The stage an error leads to. -/
def thrown (cfg : Config) : Polling → Polling
  | marking event events => failed cfg event events
  | dispatching event events => failed cfg event events
  | entering | leaving | idle => idle
  | _ => leaving

/-- The stage after a call has settled. -/
def next (cfg : Config) (q : Polling) (c : ServiceCall) : Except Exception c.Res → Polling
  | .ok r => q.advance cfg c r
  | .error _ => q.thrown cfg

/-- The calls a poll may make at a stage. -/
inductive Allows (cfg : Config) (service : ℕ) : Polling → ServiceCall → Prop
  | enter : Allows cfg service entering (.enterPoll service)
  | time : Allows cfg service timing .dateNow
  | select (staleBefore : Time) : Allows cfg service (selecting staleBefore)
      (.getProcessableEvents cfg.outboxBatchSize staleBefore)
  | mark (event : OutboxEventEntity) (events : List OutboxEventEntity) :
      Allows cfg service (marking event events) (.markProcessing event.id)
  | dispatch (event : OutboxEventEntity) (events : List OutboxEventEntity) :
      Allows cfg service (dispatching event events) (.dispatchOutboxEvent event.id)
  | date (event : OutboxEventEntity) (events : List OutboxEventEntity) :
      Allows cfg service (dating event events) .dateNow
  | record (event : OutboxEventEntity) (nextRetryAt : Option JsDate)
      (events : List OutboxEventEntity) : Allows cfg service (recording event nextRetryAt events)
        (.markFailed event.id (event.retryCount + 1) nextRetryAt)
  | leave : Allows cfg service leaving (.leavePoll service)

/-- The failure of an attempt of the event is being recorded. -/
def Records (e : Uuid) : Polling → Prop
  | dating event _ | recording event _ _ => event.id = e
  | _ => False

/-- The poll has raised the flag. -/
def Holds : Polling → Prop
  | entering | idle => False
  | _ => True

end Polling

/-- Where a poll of a service is, and what it may call there. -/
def Polling.protocol (cfg : Config) (service : ℕ) :
    Protocol ServiceCall ServiceCall.Res Exception Polling where
  next := Polling.next cfg
  allows := Polling.Allows cfg service

/-- The polls of one service. -/
def polls (cfg : Config) (service : ℕ) (e : Uuid) :
    System Unit ServiceCall ServiceCall.Res Exception Unit Watch (ℕ → Turn) Polling where
  exec := serve e
  body _ := poll cfg service
  spawn _ s := some s
  entry _ := .entering
  protocol _ := Polling.protocol cfg service

abbrev Polls := Pool Unit ServiceCall ServiceCall.Res Exception Unit Watch Polling

/-- The calls of a service call meet one clock, which does not go back, and what others
do before them leaves the row of the event and the flag of the service alone. -/
structure Fair (service : ℕ) (e : Uuid) (clock : Time) (turns : ℕ → Turn) : Prop where
  clock : clock ≤ (turns 0).draw.now
  ticks : ∀ n, (turns n).draw.now ≤ (turns (n + 1)).draw.now
  row : ∀ n w, ((turns n).others w).outboxEvents.find? e = w.outboxEvents.find? e
  flag : ∀ n w, service ∈ ((turns n).others w).polling ↔ service ∈ w.polling

section Follows

variable {cfg : Config} {service : ℕ}

/-- A pass of the loop ends where the loop goes on, or it leaves the loop. -/
def Passed (events : List OutboxEventEntity) : Except Exception Unit → Polling → Prop
  | .ok _, q => q = .batch events
  | .error _, q => q = .leaving

theorem markOutboxEventForRetry_follows (event : OutboxEventEntity)
    (events : List OutboxEventEntity) :
    (markOutboxEventForRetry cfg event.id event.retryCount).Follows
      (Polling.protocol cfg service) (Passed events) (.failed cfg event events) := by
  unfold markOutboxEventForRetry Polling.failed
  dsimp only
  split_ifs with hleft
  · refine .await_bind (.date event events) (fun now => ?_) fun _ => rfl
    refine .await (.record event _ events) fun r => ?_
    cases r <;> exact rfl
  · refine .await (.record event none events) fun r => ?_
    cases r <;> exact rfl

theorem processEvent_follows (event : OutboxEventEntity) (events : List OutboxEventEntity) :
    (processEvent cfg event).Follows (Polling.protocol cfg service) (Passed events)
      (.marking event events) := by
  refine .tryCatch (fun r q => match r with
    | .ok _ => q = .batch events
    | .error _ => q = .failed cfg event events) ?_ (fun _ _ h => h) fun _ q hq => ?_
  · refine .await_bind (.mark event events) (fun _ => ?_) fun _ => rfl
    refine .await (.dispatch event events) fun r => ?_
    cases r <;> exact rfl
  · subst hq
    exact markOutboxEventForRetry_follows event events

theorem processEvents_follows (events : List OutboxEventEntity) :
    (processEvents cfg events).Follows (Polling.protocol cfg service)
      (fun _ q => q = .leaving) (.batch events) := by
  induction events with
  | nil => exact rfl
  | cons event events ih =>
      refine .bind (processEvent_follows event events) (fun _ q hq => ?_) fun _ _ h => h
      obtain rfl : q = _ := hq
      exact ih

theorem pollEvents_follows :
    (pollEvents cfg).Follows (Polling.protocol cfg service) (fun _ q => q = .leaving) .timing := by
  refine .await_bind .time (fun now => ?_) fun _ => rfl
  refine .await_bind (.select _) (fun events => ?_) fun _ => rfl
  exact processEvents_follows events

/-- **A poll makes only the calls its stage allows.** -/
theorem poll_follows :
    (poll cfg service).Follows (Polling.protocol cfg service) (fun _ _ => True) .entering := by
  refine .await_bind .enter (fun entered => ?_) fun _ => trivial
  cases entered with
  | false => trivial
  | true =>
      have hcaught : ((pollEvents cfg).tryCatch fun _ => .ret ()).Follows
          (Polling.protocol cfg service) (fun _ q => q = .leaving) .timing :=
        .tryCatch _ pollEvents_follows (fun _ _ h => h) fun _ _ h => h
      refine .bind hcaught (fun _ q hq => ?_) fun _ _ _ => trivial
      subst hq
      exact .await .leave fun _ => trivial

end Follows

/-! ### What a call of the storage does to the row -/

/-- The row was last changed when its `updatedAt` says, or it is still as a new one. -/
def Watched.Stamped (e : Uuid) (s : Watched) : Prop :=
  ∀ r, s.row e = some r →
    (∀ u, s.changed = some u → u ≤ r.updatedAt) ∧ (s.changed = none → r.status = .pending)

section Watch

variable {service : ℕ} {e : Uuid} {clock : Time} {turns : ℕ → Turn} {t : Turn} {c : Command}
  {s s₀ : Watched} {row : Option OutboxEventEntity}

/-- Others leave the row and the flag alone. -/
def Turn.Spares (service : ℕ) (e : Uuid) (t : Turn) : Prop :=
  ∀ w, (t.others w).outboxEvents.find? e = w.outboxEvents.find? e ∧
    (service ∈ (t.others w).polling ↔ service ∈ w.polling)

theorem Fair.spares (h : Fair service e clock turns) (n : ℕ) : (turns n).Spares service e :=
  fun w => ⟨h.row n w, h.flag n w⟩

/-- **Only an update of the event changes its row.** -/
theorem row_watch (ht : t.Spares service e) (c : Command) (s : Watched) :
    (watch e t c s).2.row e = s.row e ∨ ∃ p, c = .updateEvent e p ∧
      (watch e t c s).2.row e = (s.row e).map (p.apply t.draw.now) := by
  show (exec t.draw c (t.others s.world)).2.outboxEvents.find? e = _ ∨ _
  rcases exec_outboxEvents t.draw c (t.others s.world) with hsame | ⟨e', p, hc, hnew⟩
  · rw [hsame]
    exact Or.inl (ht s.world).1
  · by_cases he : e' = e
    · refine Or.inr ⟨p, he ▸ hc, ?_⟩
      show (exec t.draw c (t.others s.world)).2.outboxEvents.find? e = _
      rw [hnew, find?_updateEvent, if_pos he, (ht s.world).1]
      rfl
    · rw [hnew, find?_updateEvent, if_neg he]
      exact Or.inl (ht s.world).1

theorem stamped_watch (ht : t.Spares service e) (hs : s.Stamped e) (c : Command) :
    (watch e t c s).2.Stamped e := by
  have hchanged : (watch e t c s).2.changed =
      if (watch e t c s).2.row e = s.row e then s.changed else some t.draw.now := by
    show (if _ = (t.others s.world).outboxEvents.find? e then _ else _) = _
    rw [(ht s.world).1]
    rfl
  intro r hr
  rw [hchanged]
  rcases row_watch ht c s with hsame | ⟨p, -, hnew⟩
  · rw [if_pos hsame]
    exact hs r (hsame ▸ hr)
  · split_ifs with hsame
    · exact hs r (hsame ▸ hr)
    · refine ⟨fun u hu => ?_, fun h => absurd h (by simp)⟩
      obtain rfl := Option.some.inj hu
      rw [hnew] at hr
      obtain ⟨r₀, -, rfl⟩ := Option.map_eq_some_iff.1 hr
      exact le_rfl

/-- The calls that leave the flags alone. -/
theorem polling_exec {ω : Draw} {w : World} (henter : ∀ n, c ≠ .enterPoll n)
    (hleave : ∀ n, c ≠ .leavePoll n) : (exec ω c w).2.polling = w.polling := by
  rcases exec_world ω c w with h | h
  · rw [h]
  · rw [h]
    cases c with
    | enterPoll n => exact absurd rfl (henter n)
    | leavePoll n => exact absurd rfl (hleave n)
    | updateEvent e p =>
        rcases answer_updateEvent ω e p w with h | h
        · rw [h]
        · rw [h]
    | updateDelivery d p =>
        obtain ⟨_, h⟩ := answer_updateDelivery ω d p w
        rw [h]
    | saveDeliveries rows =>
        obtain ⟨_, h⟩ := answer_saveDeliveries ω rows w
        rw [h]
    | _ => rfl

end Watch

/-! ### What the calls of the other services do to it -/

/-- Calls of the storage have led from `s₀` to a state whose row satisfies `R`. -/
structure Reaches (service : ℕ) (e : Uuid) (turns : ℕ → Turn) (s₀ : Watched)
    (R : Option OutboxEventEntity → Prop) (s : Watched × ℕ) : Prop where
  since : s₀.clock ≤ s.1.clock
  next : s.1.clock ≤ (turns s.2).draw.now
  stamped : s.1.Stamped e
  flag : service ∈ s.1.world.polling ↔ service ∈ s₀.world.polling
  row : R (s.1.row e)

/-- The row is as it was, or it has been patched once. -/
def Patched (row : Option OutboxEventEntity) (ok : EventPatch → Prop)
    (row' : Option OutboxEventEntity) : Prop :=
  row' = row ∨ ∃ p now, ok p ∧ row' = row.map (p.apply now)

theorem Patched.exists_row {row row' : Option OutboxEventEntity} {ok : EventPatch → Prop}
    {r : OutboxEventEntity} (h : Patched row ok row') (hr : row = some r) :
    ∃ r', row' = some r' := by
  rcases h with rfl | ⟨p, now, -, rfl⟩
  · exact ⟨r, hr⟩
  · exact ⟨_, congrArg (Option.map (p.apply now)) hr⟩

section Reaches

variable {service : ℕ} {e : Uuid} {clock : Time} {turns : ℕ → Turn} {s₀ : Watched}
  {R : Option OutboxEventEntity → Prop} {row : Option OutboxEventEntity}

theorem Reaches.weaken {s : Watched × ℕ} {R' : Option OutboxEventEntity → Prop}
    (h : Reaches service e turns s₀ R s) (hR : ∀ row, R row → R' row) :
    Reaches service e turns s₀ R' s :=
  { h with row := hR _ h.row }

/-- A call that is no update of the event. -/
theorem Reaches.call (hfair : Fair service e clock turns) {s : Watched × ℕ}
    (h : Reaches service e turns s₀ R s) {c : Command} (hupdate : ∀ p, c ≠ .updateEvent e p)
    (henter : ∀ n, c ≠ .enterPoll n) (hleave : ∀ n, c ≠ .leavePoll n) :
    Reaches service e turns s₀ R (among e turns c s).2 where
  since := h.since.trans h.next
  next := hfair.ticks s.2
  stamped := stamped_watch (hfair.spares s.2) h.stamped c
  flag := by
    show service ∈ (exec _ c _).2.polling ↔ _
    rw [polling_exec henter hleave, hfair.flag]
    exact h.flag
  row := by
    rcases row_watch (hfair.spares s.2) c s.1 with hsame | ⟨p, hc, -⟩
    · exact hsame.symm ▸ h.row
    · exact absurd hc (hupdate p)

/-- An update of an event. -/
theorem Reaches.update (hfair : Fair service e clock turns) {s : Watched × ℕ}
    (h : Reaches service e turns s₀ (· = row) s) (eventId : Uuid) (p : EventPatch) :
    Reaches service e turns s₀
      (fun row' => if eventId = e then Patched row (· = p) row' else row' = row)
      (among e turns (.updateEvent eventId p) s).2 where
  since := h.since.trans h.next
  next := hfair.ticks s.2
  stamped := stamped_watch (hfair.spares s.2) h.stamped _
  flag := by
    show service ∈ (exec _ _ _).2.polling ↔ _
    rw [polling_exec (by simp) (by simp), hfair.flag]
    exact h.flag
  row := by
    have hrow : s.1.row e = row := h.row
    show if eventId = e then Patched row (· = p) ((watch e _ _ _).2.row e)
      else (watch e _ _ _).2.row e = row
    rcases row_watch (hfair.spares s.2) (.updateEvent eventId p) s.1 with hsame | ⟨p', hc, hnew⟩
    · rw [hsame, hrow]
      split_ifs
      · exact Or.inl rfl
      · rfl
    · obtain ⟨rfl, rfl⟩ := Command.updateEvent.inj hc
      rw [if_pos rfl, hnew, hrow]
      exact Or.inr ⟨p, _, rfl, rfl⟩

/-- An update that resolves has been made. -/
theorem update_made {t : Turn} (ht : t.Spares service e) {p : EventPatch} {s : Watched}
    (h : (watch e t (.updateEvent e p) s).1 = .ok ()) :
    p.Fits ∧ (watch e t (.updateEvent e p) s).2.row e = (s.row e).map (p.apply t.draw.now) := by
  have hok : (exec t.draw (.updateEvent e p) (t.others s.world)).1 = .ok () := h
  have hexec := exec_of_ok hok
  constructor
  · by_contra hp
    rw [hexec] at hok
    simp [answer, if_neg hp] at hok
  · obtain ⟨-, hworld⟩ := exec_updateEvent (congrArg Except.isOk hok)
    show (exec t.draw (.updateEvent e p) (t.others s.world)).2.outboxEvents.find? e = _
    rw [hworld]
    dsimp only
    rw [find?_updateEvent, if_pos rfl, (ht s.world).1]
    rfl

end Reaches

/-- The patch counts no attempt, or it makes the event FAILED. -/
def EventPatch.Keeping (p : EventPatch) : Prop := p.retry.isSome = true → p.status = .failed

/-- The row after a dispatch, whether it succeeded or not. -/
def AfterDispatch (eventId e : Uuid) (row row' : Option OutboxEventEntity) : Prop :=
  if eventId = e then Patched row EventPatch.Keeping row' else row' = row

theorem Patched.retryCount_eq {row row' : Option OutboxEventEntity} {r r' : OutboxEventEntity}
    (h : Patched row EventPatch.Keeping row') (hr : row = some r) (hr' : row' = some r')
    (hstatus : r'.status = .published ∨ r'.status = .processing) :
    r'.retryCount = r.retryCount := by
  subst hr
  rcases h with hsame | ⟨p, now, hkeeps, hnew⟩
  · rw [Option.some.inj (hr'.symm.trans hsame)]
  · obtain rfl := Option.some.inj (hr'.symm.trans hnew)
    have hopen : p.status ≠ .failed := fun h => by
      rcases hstatus with hs | hs <;> exact absurd (hs.symm.trans h) (by decide)
    cases hretry : p.retry with
    | none =>
        show (p.retry.map Prod.fst).getD r.retryCount = _
        rw [hretry]
        rfl
    | some retry => exact absurd (hkeeps (by rw [hretry]; rfl)) hopen

section Dispatch

variable {α : Type} {service : ℕ} {e : Uuid} {clock : Time} {turns : ℕ → Turn} {s₀ : Watched}
  {row : Option OutboxEventEntity}

/-- From a row the program leads to a row in `R`, whatever its calls meet. -/
abbrev Brings (service : ℕ) (e : Uuid) (turns : ℕ → Turn) (s₀ : Watched)
    (row : Option OutboxEventEntity) (p : Service α) (R : Option OutboxEventEntity → Prop) : Prop :=
  Prog.Triple (among e turns) (fun _ _ => True) (Reaches service e turns s₀ (· = row)) p
    fun _ => Reaches service e turns s₀ R

theorem afterDispatch_self (eventId e : Uuid) (row : Option OutboxEventEntity) :
    AfterDispatch eventId e row row := by
  unfold AfterDispatch
  split_ifs
  · exact Or.inl rfl
  · rfl

theorem Brings.undisturbed {p : Service α} (h : Brings service e turns s₀ row p (· = row))
    (eventId : Uuid) : Brings service e turns s₀ row p (AfterDispatch eventId e row) := by
  refine h.mono (fun _ hs => hs) fun _ s hs => hs.weaken ?_
  rintro _ rfl
  exact afterDispatch_self eventId e _

/-- A call that leaves the row, and then the rest. -/
theorem bind_brings {β : Type} {p : Service α} {f : α → Service β} {eventId : Uuid}
    (hp : Brings service e turns s₀ row p (· = row))
    (hf : ∀ a, Brings service e turns s₀ row (f a) (AfterDispatch eventId e row)) :
    Brings service e turns s₀ row (p.bind f) (AfterDispatch eventId e row) := by
  refine Prog.Triple.bind _ hp hf fun _ s hs => hs.weaken ?_
  rintro _ rfl
  exact afterDispatch_self eventId e _

variable (hfair : Fair service e clock turns)

include hfair

theorem await_brings {c : Command} (hupdate : ∀ p, c ≠ .updateEvent e p)
    (henter : ∀ n, c ≠ .enterPoll n) (hleave : ∀ n, c ≠ .leavePoll n) :
    Brings service e turns s₀ row (.await c) (· = row) :=
  Prog.Triple.await fun _ hs _ => hs.call hfair hupdate henter hleave

theorem updateEvent_brings (eventId : Uuid) {p : EventPatch}
    (hp : p.Keeping) :
    Brings service e turns s₀ row (updateEvent eventId p) (AfterDispatch eventId e row) := by
  refine Prog.Triple.await fun s hs _ => (hs.update hfair eventId p).weaken fun row' h => ?_
  unfold AfterDispatch
  split_ifs at h ⊢
  · rcases h with hsame | ⟨_, now, rfl, hnew⟩
    · exact Or.inl hsame
    · exact Or.inr ⟨_, now, hp, hnew⟩
  · exact h

theorem markPublished_brings (eventId : Uuid) :
    Brings service e turns s₀ row (markPublished eventId) (AfterDispatch eventId e row) :=
  bind_brings (await_brings hfair (by simp) (by simp) (by simp)) fun _ =>
    updateEvent_brings hfair eventId fun h => absurd h Bool.false_ne_true

theorem updateOutboxStatus_brings (eventId : Uuid) :
    Brings service e turns s₀ row (updateOutboxStatus eventId) (AfterDispatch eventId e row) := by
  refine bind_brings (await_brings hfair (by simp) (by simp) (by simp)) fun deliveries => ?_
  cases aggregate deliveries with
  | published => exact markPublished_brings hfair eventId
  | failed => exact updateEvent_brings hfair eventId fun _ => rfl
  | pending => exact updateEvent_brings hfair eventId fun h => absurd h Bool.false_ne_true
  | processing => exact updateEvent_brings hfair eventId fun h => absurd h Bool.false_ne_true

theorem enqueuePending_brings (eventId : Uuid) (deliveries : List WebhookDeliveryEntity) :
    Brings service e turns s₀ row (enqueuePending eventId deliveries)
      (AfterDispatch eventId e row) := by
  unfold enqueuePending
  cases pendingOf deliveries with
  | nil => exact updateOutboxStatus_brings hfair eventId
  | cons d ds =>
      refine Brings.undisturbed (Prog.Triple.promiseAll fun p hp => ?_) eventId
      obtain ⟨delivery, -, rfl⟩ := List.mem_map.1 hp
      exact await_brings hfair (by simp) (by simp) (by simp)

theorem createMissing_brings (eventId : Uuid) (missing : List WebhookSubscriptionEntity) :
    Brings service e turns s₀ row (createMissing eventId missing) (· = row) := by
  cases missing with
  | nil => exact Prog.Triple.ret fun _ hs => hs
  | cons s missing =>
      exact Prog.Triple.bind _ (await_brings hfair (c := .dateNow) (by simp) (by simp) (by simp))
        (fun now => await_brings hfair (by simp) (by simp) (by simp)) fun _ _ hs => hs

/-- What a dispatch does once it has read its event. -/
theorem dispatchFound_brings (event : OutboxEventEntity) :
    Brings service e turns s₀ row (do
      let subscriptions ← findSubscriptions event.eventType
      let existingDeliveries ← findDeliveries event.id
      if subscriptions = [] ∧ existingDeliveries = [] then markPublished event.id
      else do
        let newDeliveries ← createMissing event.id
          (missingSubscriptions subscriptions existingDeliveries)
        enqueuePending event.id (existingDeliveries ++ newDeliveries))
      (AfterDispatch event.id e row) := by
  refine bind_brings (await_brings hfair (c := .findSubscriptions event.eventType)
    (by simp) (by simp) (by simp)) fun subscriptions => ?_
  refine bind_brings (await_brings hfair (c := .findDeliveries event.id)
    (by simp) (by simp) (by simp)) fun existing => ?_
  split_ifs
  · exact markPublished_brings hfair event.id
  · exact bind_brings (createMissing_brings hfair event.id _) fun new =>
      enqueuePending_brings hfair event.id (existing ++ new)

/-- **A dispatch leaves the count of its event**, unless it makes the event FAILED, and
the rows of the others. -/
theorem dispatchOutboxEvent_brings (eventId : Uuid) :
    Brings service e turns s₀ row (dispatchOutboxEvent eventId)
      (AfterDispatch eventId e row) := by
  refine Prog.Triple.bind (fun found s => Reaches service e turns s₀ (· = row) s ∧
    ∀ event, found = .ok (some event) → event.id = eventId) ?_ (fun found => ?_) fun _ s hs => ?_
  · refine Prog.Triple.await fun s hs _ =>
      ⟨hs.call hfair (by simp) (by simp) (by simp), fun event hfound => ?_⟩
    have hanswer : (exec (turns s.2).draw (.findEvent eventId) ((turns s.2).others s.1.world)).1 =
        .ok (some event) := hfound
    rw [exec_of_ok hanswer] at hanswer
    exact (Table.find?_eq_some (Except.ok.inj hanswer)).2
  · cases found with
    | none =>
        exact Prog.Triple.mono (Brings.undisturbed (Prog.Triple.ret fun _ hs => hs) eventId)
          (fun _ hs => hs.1) fun _ _ hs => hs
    | some event =>
        intro s hs hmeets
        obtain rfl := hs.2 event rfl
        exact dispatchFound_brings hfair event s hs.1 hmeets
  · refine hs.1.weaken ?_
    rintro _ rfl
    exact afterDispatch_self eventId e _

end Dispatch

section Serve

variable {service : ℕ} {e : Uuid} {turns : ℕ → Turn} {s : Watch}

theorem Reaches.start {s : Watched} (hfair : Fair service e s.clock turns) (hs : s.Stamped e) :
    Reaches service e turns s (· = s.row e) (s, 0) :=
  ⟨le_rfl, hfair.clock, hs, Iff.rfl, rfl⟩

theorem eval_markProcessing (e : Uuid) (turns : ℕ → Turn) (eventId : Uuid) (σ : Watched × ℕ) :
    (ServiceCall.markProcessing eventId).perform.eval (among e turns) σ =
      among e turns (.updateEvent eventId ⟨.processing, none, none⟩) σ :=
  Prog.eval_await ..

theorem eval_markFailed (e : Uuid) (turns : ℕ → Turn) (eventId : Uuid) (retryCount : ℕ)
    (nextRetryAt : Option JsDate) (σ : Watched × ℕ) :
    (ServiceCall.markFailed eventId retryCount nextRetryAt).perform.eval (among e turns) σ =
      among e turns (.updateEvent eventId (failedPatch retryCount nextRetryAt)) σ :=
  Prog.eval_await ..

theorem eval_getProcessableEvents (e : Uuid) (turns : ℕ → Turn) (limit : ℕ) (staleBefore : Time)
    (σ : Watched × ℕ) :
    (ServiceCall.getProcessableEvents limit staleBefore).perform.eval (among e turns) σ =
      among e turns (.findProcessable limit (turns σ.2).draw.now staleBefore)
        (among e turns .dateNow σ).2 :=
  Prog.eval_await ..

/-- The call may patch the row of an event, and of no other. -/
def ServiceCall.Leaves (e : Uuid) (row : Option OutboxEventEntity) :
    ServiceCall → Option OutboxEventEntity → Prop
  | .markProcessing eventId, row' =>
      if eventId = e then Patched row (· = ⟨.processing, none, none⟩) row' else row' = row
  | .dispatchOutboxEvent eventId, row' => AfterDispatch eventId e row row'
  | .markFailed eventId retryCount nextRetryAt, row' =>
      if eventId = e then Patched row (· = failedPatch retryCount nextRetryAt) row' else row' = row
  | _, row' => row' = row

/-- The event a call is about. -/
def ServiceCall.event : ServiceCall → Option Uuid
  | .markProcessing eventId | .dispatchOutboxEvent eventId | .markFailed eventId _ _ => some eventId
  | _ => none

theorem ServiceCall.Leaves.row_eq {row row' : Option OutboxEventEntity} {c : ServiceCall}
    (h : c.Leaves e row row') (hc : c.event ≠ some e) : row' = row := by
  cases c with
  | markProcessing eventId => exact (if_neg fun he => hc (congrArg some he)).mp h
  | dispatchOutboxEvent eventId => exact (if_neg fun he => hc (congrArg some he)).mp h
  | markFailed eventId _ _ => exact (if_neg fun he => hc (congrArg some he)).mp h
  | _ => exact h

/-- **What a call of another service does to the row.** -/
theorem serve_reaches (hfair : Fair service e s.seen.clock turns) (hs : s.seen.Stamped e)
    (c : ServiceCall) (henter : ∀ n, c ≠ .enterPoll n) (hleave : ∀ n, c ≠ .leavePoll n) :
    Reaches service e turns s.seen (c.Leaves e (s.seen.row e))
      (c.perform.eval (among e turns) (s.seen, 0)).2 := by
  have hstart := Reaches.start hfair hs
  cases c with
  | dateNow => exact hstart.call hfair (c := .dateNow) (by simp) (by simp) (by simp)
  | enterPoll n => exact absurd rfl (henter n)
  | leavePoll n => exact absurd rfl (hleave n)
  | getProcessableEvents limit staleBefore =>
      rw [eval_getProcessableEvents]
      exact (hstart.call hfair (c := .dateNow) (by simp) (by simp) (by simp)).call hfair (by simp)
        (by simp) (by simp)
  | markProcessing eventId =>
      rw [eval_markProcessing]
      exact hstart.update hfair eventId _
  | dispatchOutboxEvent eventId =>
      exact dispatchOutboxEvent_brings hfair eventId _ hstart
        (Prog.meets_of_forall (fun _ _ => trivial) _ _)
  | markFailed eventId retryCount nextRetryAt =>
      rw [eval_markFailed]
      exact hstart.update hfair eventId _

/-- A mark that resolves has been made. -/
theorem markProcessing_made (hfair : Fair service e s.seen.clock turns)
    (h : (serve e turns (.markProcessing e) s).1 = .ok ()) :
    ∃ now, (serve e turns (.markProcessing e) s).2.seen.row e =
      (s.seen.row e).map (EventPatch.apply now ⟨.processing, none, none⟩) := by
  have heval := eval_markProcessing e turns e (s.seen, 0)
  have hok : (watch e (turns 0) (.updateEvent e ⟨.processing, none, none⟩) s.seen).1 = .ok () :=
    (congrArg Prod.fst heval).symm.trans h
  exact ⟨_, (congrArg (fun r => r.2.1.row e) heval).trans (update_made (hfair.spares 0) hok).2⟩

/-- A failure that is recorded has been. -/
theorem markFailed_made (hfair : Fair service e s.seen.clock turns) {retryCount : ℕ}
    {nextRetryAt : Option JsDate}
    (h : (serve e turns (.markFailed e retryCount nextRetryAt) s).1 = .ok ()) :
    Storable nextRetryAt ∧ ∃ now,
      (serve e turns (.markFailed e retryCount nextRetryAt) s).2.seen.row e =
        (s.seen.row e).map ((failedPatch retryCount nextRetryAt).apply now) := by
  have heval := eval_markFailed e turns e retryCount nextRetryAt (s.seen, 0)
  have hok : (watch e (turns 0) (.updateEvent e (failedPatch retryCount nextRetryAt)) s.seen).1 =
      .ok () := (congrArg Prod.fst heval).symm.trans h
  obtain ⟨hfits, hrow⟩ := update_made (hfair.spares 0) hok
  exact ⟨hfits _ rfl, _, (congrArg (fun r => r.2.1.row e) heval).trans hrow⟩

/-- **The events a poll selects** are different rows as they are, and they are due. -/
theorem selected_rows (hfair : Fair service e s.seen.clock turns) {limit : ℕ} {staleBefore : Time}
    {events : List OutboxEventEntity}
    (h : (serve e turns (.getProcessableEvents limit staleBefore) s).1 = .ok events) :
    (events.map OutboxEventEntity.id).Nodup ∧ ∀ x ∈ events, x.id = e →
      s.seen.row e = some x ∧ ∃ now,
        now ≤ (serve e turns (.getProcessableEvents limit staleBefore) s).2.seen.clock ∧
          processable now staleBefore x = true := by
  have heval := eval_getProcessableEvents e turns limit staleBefore (s.seen, 0)
  let w : World := (turns 1).others ((turns 0).others s.seen.world)
  have hrow : w.outboxEvents.find? e = s.seen.row e :=
    (hfair.row 1 _).trans (hfair.row 0 s.seen.world)
  have hok : (exec (turns 1).draw (.findProcessable limit (turns 0).draw.now staleBefore) w).1 =
      .ok events := (congrArg Prod.fst heval).symm.trans h
  rw [exec_of_ok hok] at hok
  obtain rfl := Except.ok.inj hok
  constructor
  · refine ((List.take_sublist _ _).map _).nodup ?_
    rw [((List.perm_insertionSort _ _).map _).nodup_iff]
    exact (List.filter_sublist.map _).nodup w.outboxEvents.nodup
  · intro x hx hid
    have hmem := List.mem_of_mem_take hx
    rw [List.mem_insertionSort, List.mem_filter] at hmem
    refine ⟨?_, (turns 0).draw.now, ?_, hmem.2⟩
    · rw [← hrow, ← hid]
      exact Table.find?_key hmem.1
    · rw [show (serve e turns (.getProcessableEvents limit staleBefore) s).2.seen.clock =
        (turns 1).draw.now from congrArg (fun r => r.2.1.clock) heval]
      exact hfair.ticks 0

/-- The poll that finds the flag down raises it. -/
theorem enterPoll_enters (hfair : Fair service e s.seen.clock turns) :
    (serve e turns (.enterPoll service) s).1 = .ok (decide (service ∉ s.seen.world.polling)) ∧
      service ∈ (serve e turns (.enterPoll service) s).2.seen.world.polling := by
  have hflag := hfair.flag 0 s.seen.world
  constructor
  · show Except.ok (decide (service ∉ ((turns 0).others s.seen.world).polling)) = _
    simp only [hflag]
  · show service ∈ ((turns 0).others s.seen.world).polling.insert service
    simp

/-- A call on the flag leaves the row. -/
theorem flag_leaves (hfair : Fair service e s.seen.clock turns) (hs : s.seen.Stamped e)
    {c : ServiceCall} (h : c = .enterPoll service ∨ c = .leavePoll service) :
    s.seen.clock ≤ (serve e turns c s).2.seen.clock ∧ (serve e turns c s).2.seen.Stamped e ∧
      (serve e turns c s).2.seen.row e = s.seen.row e := by
  have hrow {c : Command} (hc : ∀ p, c ≠ .updateEvent e p) :
      (watch e (turns 0) c s.seen).2.row e = s.seen.row e := by
    rcases row_watch (hfair.spares 0) c s.seen with hsame | ⟨p, hp, -⟩
    · exact hsame
    · exact absurd hp (hc p)
  rcases h with rfl | rfl
  · exact ⟨hfair.clock, stamped_watch (hfair.spares 0) hs (.enterPoll service), hrow (by simp)⟩
  · exact ⟨hfair.clock, stamped_watch (hfair.spares 0) hs (.leavePoll service), hrow (by simp)⟩

end Serve

end Webhooks
end LedgerEngine
