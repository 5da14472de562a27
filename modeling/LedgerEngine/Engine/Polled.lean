/-
# One poll at a time

The timer starts a poll of a service whether or not the last one has ended, and its flag
`outboxRunning` sends the new one away.  In every run of the engine the flag of a service
is up if and only if a poll of it is past the test and has calls left, and there is at most
one (`polls_exclusive`): no two polls of a service work on the events at a time, and the
flag never stays up, whatever is refused, lost or thrown.

The flag is a latch in the sense of `LedgerEngine.Async.Latch`.
-/

import LedgerEngine.Async.Latch
import LedgerEngine.Engine.Calls
import LedgerEngine.Webhooks.Polls

namespace LedgerEngine
namespace Engine

open Webhooks (Config ServiceCall)

/-- Where a poll is with the flag of its service. -/
inductive Flagging : Type
  /-- about to test it -/
  | testing
  /-- it has raised it -/
  | inside
  /-- it has lowered it, or found it up -/
  | left

namespace Flagging

/-! ### A poll -/

/-- Where a poll is after a call of a service. -/
def serve : Flagging → (c : ServiceCall) → Except Exception c.Res → Flagging
  | testing, .enterPoll _, .ok true => inside
  | testing, _, _ => left
  | inside, .leavePoll _, _ => left
  | q, _, _ => q

/-- The calls of services a poll makes. -/
inductive Serves (service : ℕ) : Flagging → ServiceCall → Prop
  | test : Serves service testing (.enterPoll service)
  | work {c : ServiceCall} (henter : ∀ n, c ≠ .enterPoll n) (hleave : ∀ n, c ≠ .leavePoll n) :
      Serves service inside c
  | leave : Serves service inside (.leavePoll service)

/-- Where a poll is after a call. -/
def next : Flagging → (c : Webhooks.Command) → Except Exception c.Res → Flagging
  | testing, .enterPoll _, .ok true => inside
  | testing, _, _ => left
  | inside, .leavePoll _, _ => left
  | q, _, _ => q

/-- A call that leaves the flags alone. -/
def Apart (c : Webhooks.Command) : Prop := (∀ n, c ≠ .enterPoll n) ∧ ∀ n, c ≠ .leavePoll n

/-- The calls a poll makes. -/
inductive Allows (service : ℕ) : Flagging → Webhooks.Command → Prop
  | test : Allows service testing (.enterPoll service)
  | work {c : Webhooks.Command} (hc : Apart c) : Allows service inside c
  | leave : Allows service inside (.leavePoll service)

/-- The protocol of a poll, by the services it calls. -/
def servesProtocol (service : ℕ) : Protocol ServiceCall ServiceCall.Res Exception Flagging :=
  ⟨serve, Serves service⟩

/-- The protocol of a poll. -/
def protocol (service : ℕ) :
    Protocol Webhooks.Command Webhooks.Command.Res Exception Flagging :=
  ⟨next, Allows service⟩

theorem next_inside {c : Webhooks.Command} (hc : Apart c) (r : Except Exception c.Res) :
    next inside c r = inside := by
  cases c <;> first | rfl | exact absurd rfl (hc.2 _)

section Follows

variable {cfg : Config} {service : ℕ}

theorem serve_inside {c : ServiceCall} (hleave : ∀ n, c ≠ .leavePoll n)
    (r : Except Exception c.Res) : serve inside c r = inside := by
  cases c <;> first | rfl | exact absurd rfl (hleave _)

/-- A poller that works while the flag is up, and leaves it up. -/
def Works (service : ℕ) (p : Webhooks.Poller Unit) : Prop :=
  p.Follows (servesProtocol service) (fun _ q => q = inside) inside

theorem works_bind {α : Type} {c : ServiceCall} {f : c.Res → Webhooks.Poller α}
    {post : Except Exception α → Flagging → Prop} (henter : ∀ n, c ≠ .enterPoll n)
    (hleave : ∀ n, c ≠ .leavePoll n)
    (hok : ∀ r, (f r).Follows (servesProtocol service) post inside)
    (herror : ∀ e, post (.error e) inside) :
    (Prog.bind (.await c) f).Follows (servesProtocol service) post inside := by
  refine .await_bind (.work henter hleave) (fun r => ?_) fun e => ?_
  · show Prog.Follows _ _ _ (serve inside c (.ok r))
    rw [serve_inside hleave]
    exact hok r
  · show post _ (serve inside c (.error e))
    rw [serve_inside hleave]
    exact herror e

theorem works_await {c : ServiceCall} {post : Except Exception c.Res → Flagging → Prop}
    (henter : ∀ n, c ≠ .enterPoll n) (hleave : ∀ n, c ≠ .leavePoll n)
    (h : ∀ r, post r inside) :
    (Prog.await c : Webhooks.Poller c.Res).Follows (servesProtocol service) post inside := by
  refine .await (.work henter hleave) fun r => ?_
  show post r (serve inside c r)
  rw [serve_inside hleave]
  exact h r

theorem works_markForRetry (cfg : Config) (eventId : Uuid) (retryCount : ℕ) :
    Works service (Webhooks.markOutboxEventForRetry cfg eventId retryCount) := by
  unfold Webhooks.markOutboxEventForRetry
  dsimp only
  split_ifs
  · refine works_bind (by simp) (by simp) (fun now => ?_) fun _ => rfl
    exact works_await (c := .markFailed ..) (by simp) (by simp) fun _ => rfl
  · exact works_await (c := .markFailed ..) (by simp) (by simp) fun _ => rfl

theorem works_processEvents (cfg : Config) (events : List OutboxEventEntity) :
    Works service (Webhooks.processEvents cfg events) := by
  induction events with
  | nil => exact rfl
  | cons event events ih =>
      have hevent : Works service (Webhooks.processEvent cfg event) := by
        refine .tryCatch (fun _ q => q = inside) ?_ (fun _ _ h => h) fun _ q hq => ?_
        · refine works_bind (by simp) (by simp) (fun _ => ?_) fun _ => rfl
          exact works_await (c := .dispatchOutboxEvent event.id) (by simp) (by simp) fun _ => rfl
        · subst hq
          exact works_markForRetry cfg event.id event.retryCount
      refine .bind hevent (fun _ q hq => ?_) fun _ _ h => h
      obtain rfl : q = _ := hq
      exact ih

/-- **A poll raises the flag it finds down, and lowers it at its end.** -/
theorem poll_follows (cfg : Config) (service : ℕ) :
    (Webhooks.poll cfg service).Follows (servesProtocol service) (fun _ q => q = left)
      testing := by
  refine .await_bind .test (fun entered => ?_) fun _ => rfl
  cases entered with
  | false => rfl
  | true =>
      have hcaught : ((Webhooks.pollEvents cfg).tryCatch fun _ => .ret ()).Follows
          (servesProtocol service) (fun r q => r = .ok () ∧ q = inside) inside := by
        refine .tryCatch (fun _ q => q = inside) ?_ (fun _ _ h => ⟨rfl, h⟩) fun _ _ h => ⟨rfl, h⟩
        refine works_bind (by simp) (by simp) (fun now => ?_) fun _ => rfl
        refine works_bind (by simp) (by simp) (fun events => ?_) fun _ => rfl
        exact works_processEvents cfg events
      refine .bind hcaught (fun _ q hq => ?_) fun _ _ h => by cases h.1
      obtain rfl : q = inside := hq.2
      exact .await .leave fun _ => rfl

/-- A call a thread makes that is not a poll leaves the flags alone. -/
theorem apart_of_allows {call : Webhooks.Call} (hcall : ¬ call.Polls) {q : Webhooks.Stage}
    {c : Webhooks.Command} (h : q.Allows call c) : Apart c := by
  refine ⟨fun n he => ?_, fun n he => ?_⟩
  · subst he
    cases h with
    | enterPoll hq h => exact hcall h
  · subst he
    cases h with
    | leavePoll hq h => exact hcall h

theorem inside_dispatch (eventId : Uuid) :
    (Webhooks.dispatchOutboxEvent eventId).Follows (protocol service) (fun _ q => q = inside)
      inside := by
  have hdispatch : (Webhooks.dispatchOutboxEvent eventId).Follows
      (Webhooks.protocol (.dispatch eventId)) Webhooks.Dispatched .idle :=
    Webhooks.dispatchOutboxEvent_follows (q := .idle) trivial fun e he =>
      ⟨rfl, Webhooks.Call.dispatch.inj he⟩
  have hcall : ¬ (Webhooks.Call.dispatch eventId).Polls := fun h => h
  refine hdispatch.beside _ fun q c hallows => ?_
  have hapart : Apart c := apart_of_allows hcall hallows
  exact ⟨.work hapart, next_inside hapart⟩

/-- A call of a service, carried out. -/
theorem perform_follows (q : Flagging) (c : ServiceCall) (hc : Serves service q c) :
    c.perform.Follows (protocol service) (fun r q' => q' = serve q c r) q := by
  cases hc with
  | test =>
      refine .await .test fun r => ?_
      cases r with
      | error e => rfl
      | ok entered => cases entered <;> rfl
  | leave => exact .await .leave fun _ => rfl
  | work henter hleave =>
      have hupdate : ∀ eventId p, (Webhooks.updateEvent eventId p).Follows (protocol service)
          (fun _ q => q = inside) inside := fun eventId p =>
        .await (.work ⟨by simp, by simp⟩) fun _ => rfl
      have hinside : c.perform.Follows (protocol service) (fun _ q => q = inside) inside := by
        cases c with
        | enterPoll n => exact absurd rfl (henter n)
        | leavePoll n => exact absurd rfl (hleave n)
        | dateNow => exact .await (.work ⟨by simp, by simp⟩) fun _ => rfl
        | getProcessableEvents limit staleBefore =>
            refine .await_bind (.work ⟨by simp, by simp⟩) (fun now => ?_) fun _ => rfl
            exact .await (.work ⟨by simp, by simp⟩) fun _ => rfl
        | markProcessing eventId => exact hupdate eventId _
        | markFailed eventId retryCount nextRetryAt => exact hupdate eventId _
        | dispatchOutboxEvent eventId => exact inside_dispatch eventId
      exact hinside.mono fun r q hq => hq.trans (serve_inside hleave r).symm

theorem processOutboxBatch_follows (cfg : Config) (service : ℕ) :
    (Webhooks.processOutboxBatch cfg service).Follows (protocol service) (fun _ q => q = left)
      testing :=
  .expand_call perform_follows (poll_follows cfg service)

end Follows

end Flagging

/-! ### The flags of all services -/

/-- The flag of a service is up. -/
def World.FlagUp (w : World) (service : ℕ) : Prop := service ∈ w.webhooks.polling

/-- A call of the engine that leaves the flags alone. -/
def Command.Apart : Command → Prop
  | .webhooks (.command c) => Flagging.Apart c
  | _ => True

/-- Where a thread is with the flag after a call: only a poll gets anywhere. -/
def flagNext : Task → Flagging → (c : Command) → Except Exception c.Res → Flagging
  | .webhook (.poll _), q, .webhooks (.command c), r => q.next c r
  | _, q, _, _ => q

/-- A poll keeps to its protocol, and nobody else touches a flag. -/
def FlagAllows : Task → Flagging → Command → Prop
  | .webhook (.poll service), q, .webhooks (.command c) => q.Allows service c
  | .webhook (.poll _), _, _ => False
  | _, _, c => c.Apart

def flagProtocol (task : Task) : Protocol Command Command.Res Exception Flagging :=
  ⟨flagNext task, FlagAllows task⟩

/-- The engine, with the flags in view. -/
def flagged (env : Env) :
    System Task Command Command.Res Exception (Option Json) World Draw Flagging :=
  (system env).retrack (fun _ => .testing) flagProtocol

/-- A poll that has ended has lowered the flag, or not raised it. -/
def Lowered (_ : Task) (_ : Except Exception (Option Json)) (q : Flagging) : Prop := q ≠ .inside

theorem apart_of_stage {env : Env} {task : Task} (htask : ∀ call, task ≠ .webhook call)
    {q : Stage} {c : Command} (h : q.Allows env task c) : c.Apart := by
  cases h with
  | record hc hop => trivial
  | @operate r id request h => cases request <;> trivial
  | webhook hc => exact absurd rfl (htask _)
  | reconcile hc => trivial

/-- **Every thread keeps to the protocol of the flags.** -/
theorem flagged_follows (env : Env) (task : Task) :
    ((flagged env).body task).Follows ((flagged env).protocol task) (Lowered task)
      ((flagged env).entry task) := by
  have hother : (∀ call, task ≠ .webhook call) →
      ((system env).body task).Follows (flagProtocol task) (Lowered task) .testing := by
    intro htask
    refine ((system_follows env task).beside Flagging.testing fun q c hallows => ?_).mono
      fun r q hq => by simp [Lowered, hq]
    have hapart := apart_of_stage htask hallows
    cases task with
    | webhook call => exact absurd rfl (htask call)
    | request r => exact ⟨hapart, fun _ => rfl⟩
    | reconcile service => exact ⟨hapart, fun _ => rfl⟩
  cases task with
  | request r => exact hother (by simp)
  | reconcile service => exact hother (by simp)
  | webhook call =>
      have hcall : ((Webhooks.system env.webhooks).body call).Follows
          ((flagProtocol (.webhook call)).comap fun c => .webhooks (.command c))
          (fun _ q => q ≠ .inside) .testing := by
        have hapart : ¬ call.Polls → ((Webhooks.system env.webhooks).body call).Follows
            (⟨fun q _ _ => q, fun _ => Flagging.Apart⟩ :
              Protocol Webhooks.Command Webhooks.Command.Res Exception Flagging)
            (fun _ q => q = .testing) .testing := fun hpolls =>
          (Webhooks.body_follows env.webhooks call).beside _ fun q c hallows =>
            ⟨Flagging.apart_of_allows hpolls hallows, fun _ => rfl⟩
        cases call with
        | poll service =>
            exact (Flagging.processOutboxBatch_follows env.webhooks service).mono
              fun r q hq => by simp [hq]
        | dispatch eventId => exact (hapart id).mono fun r q hq => by simp [hq]
        | process deliveryId => exact (hapart id).mono fun r q hq => by simp [hq]
        | work job now => exact (hapart id).mono fun r q hq => by simp [hq]
      exact .bind hcall.expand_await (fun _ _ hq => hq) fun _ _ hq => hq

/-- The flag a thread has raised. -/
def raised : Task → Flagging → Option ℕ
  | .webhook (.poll service), .inside => some service
  | _, _ => none

/-- A call that leaves the flags alone. -/
theorem polling_apart {env : Env} {ω : Draw} {c : Command} (hc : c.Apart) (w : World) :
    (exec env ω c w).2.webhooks.polling = w.webhooks.polling := by
  cases c with
  | record c => rfl
  | ledger c => rfl
  | reconcile c => rfl
  | webhooks c =>
      cases c with
      | command c => exact Webhooks.polling_exec hc.1 hc.2
      | saveSubscription s =>
          show (Webhooks.storageExec _ _ _).2.polling = _
          rcases Webhooks.storageExec_save ω.webhooks s w.webhooks with h | ⟨id, -, h⟩
          · rw [h]
          · rw [h]

/-- What a thread may do to a flag. -/
inductive Flags : Task → Flagging → Command → Prop
  | apart {task : Task} {q : Flagging} {c : Command} (hc : c.Apart)
      (h : ∀ r, raised task (flagNext task q c r) = raised task q) : Flags task q c
  | test (service : ℕ) :
      Flags (.webhook (.poll service)) .testing (.webhooks (.command (.enterPoll service)))
  | leave (service : ℕ) :
      Flags (.webhook (.poll service)) .inside (.webhooks (.command (.leavePoll service)))

theorem FlagAllows.flags {task : Task} {q : Flagging} {c : Command} (h : FlagAllows task q c) :
    Flags task q c := by
  cases task with
  | request r => exact .apart h fun _ => rfl
  | reconcile service => exact .apart h fun _ => rfl
  | webhook call =>
      cases call with
      | dispatch eventId => exact .apart h fun _ => rfl
      | process deliveryId => exact .apart h fun _ => rfl
      | work job now => exact .apart h fun _ => rfl
      | poll service =>
          cases c with
          | record c => exact h.elim
          | ledger c => exact h.elim
          | reconcile c => exact h.elim
          | webhooks c =>
              cases c with
              | saveSubscription s => exact h.elim
              | command c =>
                  cases h with
                  | test => exact .test service
                  | leave => exact .leave service
                  | work hc =>
                      refine .apart hc fun r => ?_
                      show raised _ (Flagging.inside.next c r) = _
                      rw [Flagging.next_inside hc]

/-- **Every call leaves the flags alone, raises the one its poll found down, or lowers the
one its poll has raised.** -/
theorem flag_turn (env : Env) (task : Task) (q : Flagging) (c : Command) (ω : Draw) (w : World)
    (h : FlagAllows task q c) :
    Turn w.FlagUp (exec env ω c w).2.FlagUp (raised task q)
      (raised task (flagNext task q c (exec env ω c w).1)) := by
  cases h.flags with
  | apart hc hsame =>
      rw [hsame]
      refine .same fun service => ?_
      rw [World.FlagUp, polling_apart hc]
      rfl
  | test service =>
      have hpolling :
          (exec env ω (.webhooks (.command (.enterPoll service))) w).2.webhooks.polling =
          w.webhooks.polling.insert service := rfl
      have hentered : (exec env ω (.webhooks (.command (.enterPoll service))) w).1 =
          .ok (decide (service ∉ w.webhooks.polling)) := rfl
      unfold World.FlagUp
      rw [hentered, hpolling]
      by_cases hup : service ∈ w.webhooks.polling
      · rw [decide_eq_false (not_not.2 hup), List.insert_of_mem hup]
        exact .same fun _ => Iff.rfl
      · rw [decide_eq_true hup]
        exact .close hup fun service' => List.mem_insert_iff
  | leave service =>
      have hpolling :
          (exec env ω (.webhooks (.command (.leavePoll service))) w).2.webhooks.polling =
          w.webhooks.polling.filter fun s => s ≠ service := rfl
      unfold World.FlagUp
      rw [hpolling]
      exact .release fun service' => by simp

/-! ### Every run -/

theorem flagUp_spawn {env : Env} {task : Task} {w w' : World} (h : spawn env task w = some w')
    (service : ℕ) : w'.FlagUp service ↔ w.FlagUp service := by
  cases task with
  | request r =>
      obtain rfl := Option.some.inj h
      rfl
  | reconcile n =>
      obtain rfl := Option.some.inj h
      rfl
  | webhook call =>
      obtain ⟨webhooks, hspawn, rfl⟩ := Option.map_eq_some_iff.1 h
      rcases Webhooks.spawn_eq_some hspawn with rfl | ⟨_, _, _, -, -, rfl⟩ <;> rfl

theorem raised_entry (task : Task) : raised task .testing = none := by
  cases task with
  | webhook call => cases call <;> rfl
  | _ => rfl

theorem raised_eq_some {task : Task} {q : Flagging} {service : ℕ}
    (h : raised task q = some service) : task = .webhook (.poll service) ∧ q = .inside := by
  unfold raised at h
  split at h
  · obtain rfl := Option.some.inj h
    exact ⟨rfl, rfl⟩
  · cases h

/-- The flags are as the threads have raised them. -/
theorem flagged_after (env : Env) (labels : List (Label Task Draw)) :
    Pool.Tracked (flagged env) Lowered (Pool.run (flagged env) (Pool.start .empty) labels) ∧
      Latched (holding raised (Pool.run (flagged env) (Pool.start .empty) labels).stages)
        (Pool.run (flagged env) (Pool.start .empty) labels).world.FlagUp :=
  Pool.latched (flagged_follows env) raised_entry (fun _ _ _ h => flagUp_spawn h)
    (fun task q c ω w h => flag_turn env task q c ω w h) (fun _ => List.not_mem_nil) labels

/-- Thread `i` is a poll of the service that has passed the test of the flag and has calls
left to make. -/
def Polling (P : Pool Task Command Command.Res Exception (Option Json) World Stage)
    (service i : ℕ) : Prop :=
  ∃ c, P.AboutTo i (.webhook (.poll service)) c ∧ c ≠ .webhooks (.command (.enterPoll service))

/-- A poll that works is one that has raised the flag. -/
theorem polling_iff {env : Env}
    {P : Pool Task Command Command.Res Exception (Option Json) World Stage}
    {P' : Pool Task Command Command.Res Exception (Option Json) World Flagging}
    (hP : P'.erase = P.erase) (htracked : Pool.Tracked (flagged env) Lowered P') (service i : ℕ) :
    Polling P service i ↔ holding raised P'.stages i = some service := by
  constructor
  · rintro ⟨c, habout, hc⟩
    rw [← Pool.aboutTo_erase, ← hP, Pool.aboutTo_erase] at habout
    obtain ⟨⟨tag, q, rest⟩, hth, rfl, hhead⟩ := habout
    have hfollows := htracked _ (List.mem_of_getElem? hth)
    cases rest with
    | ret a => cases hhead
    | raise e => cases hhead
    | call c' k =>
        obtain rfl := Option.some.inj hhead
        have hallows : FlagAllows (.webhook (.poll service)) q c' := hfollows.1
        have hq : q = .inside := by
          cases c' with
          | webhooks c' =>
              cases c' with
              | saveSubscription s => exact hallows.elim
              | command c' =>
                  cases hallows with
                  | test => exact absurd rfl hc
                  | leave => rfl
                  | work => rfl
          | _ => exact hallows.elim
        subst hq
        unfold holding Pool.stages
        rw [List.getElem?_map, hth]
        rfl
  · intro hholds
    unfold holding Pool.stages at hholds
    rw [List.getElem?_map] at hholds
    obtain ⟨_, hmap, hraised⟩ := Option.bind_eq_some_iff.1 hholds
    obtain ⟨⟨tag, q, rest⟩, hth, rfl⟩ := Option.map_eq_some_iff.1 hmap
    obtain ⟨rfl, rfl⟩ : tag = .webhook (.poll service) ∧ q = .inside := raised_eq_some hraised
    have hfollows := htracked _ (List.mem_of_getElem? hth)
    cases rest with
    | ret a => exact absurd rfl hfollows
    | raise e => exact absurd rfl hfollows
    | call c k =>
        refine ⟨c, ?_, ?_⟩
        · rw [← Pool.aboutTo_erase, ← hP, Pool.aboutTo_erase]
          exact ⟨_, hth, rfl, rfl⟩
        · rintro rfl
          cases hfollows.1 with
          | work hc => exact hc.1 service rfl

/-- **One poll of a service at a time**, and its flag is up as long as it lasts, in every
run of the engine. -/
theorem polls_exclusive (env : Env) (labels : List (Label Task Draw)) (service : ℕ) :
    (service ∈ (after env labels).world.webhooks.polling ↔
      ∃ i, Polling (after env labels) service i) ∧
    ∀ i j, Polling (after env labels) service i → Polling (after env labels) service j →
      i = j := by
  obtain ⟨htracked, hlatched⟩ := flagged_after env labels
  have herase : (Pool.run (flagged env) (Pool.start .empty) labels).erase =
      (after env labels).erase := Pool.run_retrack ..
  have hpolling := polling_iff herase htracked service
  have hworld := congrArg Pool.world herase
  change _ = (after env labels).world at hworld
  refine ⟨?_, fun i j hi hj => ?_⟩
  · rw [← hworld]
    exact (hlatched.closed_iff service).trans (exists_congr fun i => (hpolling i).symm)
  · exact hlatched.distinct i j service ((hpolling i).1 hi) ((hpolling j).1 hj)

end Engine
end LedgerEngine
