/-
# What a delivery's row says of its attempts

Jobs for one delivery may overlap, come twice or be left behind, and each writes what it
has counted from the row it read.  Still no row says more than was done (`rows_accounted`):
`fetch` was called for the delivery as often as its `attemptCount` says, or more, there
are never more attempts recorded than the settings allow, and the other columns are those
of its status.  A call that `fetch` refuses, of a url it cannot use, is an attempt.
-/

import LedgerEngine.Engine.Tables

namespace LedgerEngine
namespace Engine

open Webhooks (Config DeliveryPatch WebhookDeliveryEntity WebhookDeliveryStatus)

/-- How many attempts there are at most: the first is always made. -/
def mostAttempts (cfg : Config) : ℕ := max cfg.webhookMaxAttempts 1

/-- How often `fetch` was called for a delivery. -/
def World.postsFor (w : World) (d : Uuid) : ℕ := w.sent.countP fun p => p.1 = d

/-- The columns of a delivery are those of its status. -/
def Columns (cfg : Config) (d : WebhookDeliveryEntity) : Prop :=
  match d.status with
  | .pending => d.attemptCount < mostAttempts cfg ∧ d.nextRetryAt.isSome ∧ d.responseStatus = none
  | .success => 0 < d.attemptCount ∧ d.attemptCount ≤ mostAttempts cfg ∧ d.nextRetryAt = none ∧
      ∃ s, d.responseStatus = some s ∧ Webhooks.responseOk s = true
  | .failed => d.attemptCount = mostAttempts cfg ∧ d.nextRetryAt = none ∧ d.responseStatus = none

/-- A delivery's row says no more than was done. -/
structure Accounted (cfg : Config) (w : World) (d : WebhookDeliveryEntity) : Prop where
  posted : d.attemptCount ≤ w.postsFor d.id
  columns : Columns cfg d
  lastAttemptAt : d.lastAttemptAt.isSome ↔ 0 < d.attemptCount
  responseBody : d.responseBody.isSome ↔ 0 < d.attemptCount

/-- What a thread knows of the delivery it has read. -/
def Delivering.Counts (cfg : Config) (w : World) : Delivering → Prop
  | .loaded l => l.subscription.isSome ∧ l.outboxEvent.isSome ∧
      l.delivery.attemptCount ≤ w.postsFor l.delivery.id ∧ Columns cfg l.delivery
  | .posted d _ => d.attemptCount + 1 ≤ w.postsFor d.id ∧ Columns cfg d
  | _ => True

section Rows

variable {cfg : Config} {w w' : World} {d : WebhookDeliveryEntity} {p : DeliveryPatch}

theorem Accounted.mono (h : Accounted cfg w d) (hposts : ∀ d, w.postsFor d ≤ w'.postsFor d) :
    Accounted cfg w' d :=
  { h with posted := h.posted.trans (hposts d.id) }

theorem Delivering.Counts.mono {q : Delivering} (h : q.Counts cfg w)
    (hposts : ∀ d, w.postsFor d ≤ w'.postsFor d) : q.Counts cfg w' := by
  cases q with
  | loaded l => exact ⟨h.1, h.2.1, h.2.2.1.trans (hposts _), h.2.2.2⟩
  | posted d status => exact ⟨h.1.trans (hposts _), h.2⟩
  | _ => trivial

/-- A delivery that was just inserted. -/
theorem accounted_new (now nextRetryAt : Time) (eventId id : Uuid)
    (s : Webhooks.WebhookSubscriptionEntity) :
    Accounted cfg w ((Webhooks.newDelivery eventId nextRetryAt s).row now id) where
  posted := Nat.zero_le _
  columns := ⟨Nat.lt_of_lt_of_le Nat.zero_lt_one (le_max_right _ _), rfl, rfl⟩
  lastAttemptAt := by simp [Webhooks.NewDelivery.row, Webhooks.newDelivery]
  responseBody := by simp [Webhooks.NewDelivery.row, Webhooks.newDelivery]

/-- The columns after an attempt that has failed. -/
theorem columns_failure (hd : d.status = .pending) (hcolumns : Columns cfg d)
    (hp : Failure cfg d p) (hfits : p.Fits) (now : Time) (old : WebhookDeliveryEntity) :
    Columns cfg (p.apply now old) := by
  unfold Columns at hcolumns
  rw [hd] at hcolumns
  obtain ⟨hlt, -, -⟩ := hcolumns
  have hstatus : (p.apply now old).status = p.status := rfl
  have hcount : (p.apply now old).attemptCount = d.attemptCount + 1 := hp.attemptCount
  have hresponse : (p.apply now old).responseStatus = none := hp.responseStatus
  have hnext : (p.apply now old).nextRetryAt = p.nextRetryAt.join := rfl
  unfold Columns
  rw [hstatus, hcount, hresponse, hnext, hp.status]
  unfold mostAttempts at *
  by_cases hleft : d.attemptCount + 1 < cfg.webhookMaxAttempts
  · rw [if_pos hleft]
    obtain ⟨date, hdate⟩ := Option.isSome_iff_exists.1 (hp.nextRetryAt.2 hleft)
    refine ⟨by omega, ?_, rfl⟩
    rw [hdate]
    cases date with
    | none => exact absurd hdate hfits.1
    | some t => rfl
  · rw [if_neg hleft]
    have hnone : p.nextRetryAt = none := by
      cases hdate : p.nextRetryAt with
      | none => rfl
      | some date => exact absurd (hp.nextRetryAt.1 (by rw [hdate]; rfl)) hleft
    rw [hnone]
    exact ⟨by omega, rfl, rfl⟩

/-- The columns after an attempt that has succeeded. -/
theorem columns_success (hd : d.status = .pending) (hcolumns : Columns cfg d) {s : ℕ}
    (hp : Success d s p) (now : Time) (old : WebhookDeliveryEntity) :
    Columns cfg (p.apply now old) := by
  unfold Columns at hcolumns
  rw [hd] at hcolumns
  obtain ⟨hlt, -, -⟩ := hcolumns
  have hcount : (p.apply now old).attemptCount = d.attemptCount + 1 := hp.attemptCount
  have hstatus : (p.apply now old).status = .success := hp.status
  have hnext : (p.apply now old).nextRetryAt = p.nextRetryAt.join := rfl
  unfold Columns
  rw [hstatus, hcount, hnext, hp.nextRetryAt]
  exact ⟨Nat.succ_pos _, hlt, rfl, s, hp.responseStatus, hp.ok⟩

/-- **The row after an attempt was recorded**, by whom who has made it. -/
theorem accounted_patch {q : Delivering} (hq : q.Counts cfg w) (hd : d.status = .pending)
    (hp : q.Tried d ∧ Failure cfg d p ∨ ∃ status, q = .posted d (some status) ∧ Success d status p)
    (hfits : p.Fits) (now : Time) {old : WebhookDeliveryEntity} (hold : old.id = d.id) :
    Accounted cfg w (p.apply now old) := by
  have hcount : p.attemptCount = d.attemptCount + 1 := by
    rcases hp with ⟨-, hp⟩ | ⟨s, -, hp⟩
    · exact hp.attemptCount
    · exact hp.attemptCount
  have hposted : d.attemptCount + 1 ≤ w.postsFor d.id ∧ Columns cfg d := by
    rcases hp with ⟨htried, -⟩ | ⟨s, rfl, -⟩
    · cases htried with
      | posted status => exact hq
      | missing _ hmissing =>
          rcases hmissing with hmissing | hmissing
          · rw [Delivering.Counts, hmissing] at hq
            cases hq.1
          · rw [Delivering.Counts, hmissing] at hq
            cases hq.2.1
    · exact hq
  refine ⟨?_, ?_, ?_, ?_⟩
  · show p.attemptCount ≤ w.postsFor old.id
    rw [hcount, hold]
    exact hposted.1
  · rcases hp with ⟨-, hp⟩ | ⟨s, -, hp⟩
    · exact columns_failure hd hposted.2 hp hfits now old
    · exact columns_success hd hposted.2 hp now old
  · show true = true ↔ 0 < p.attemptCount
    rw [hcount]
    exact ⟨fun _ => Nat.succ_pos _, fun _ => rfl⟩
  · show true = true ↔ 0 < p.attemptCount
    rw [hcount]
    exact ⟨fun _ => Nat.succ_pos _, fun _ => rfl⟩

end Rows

/-! ### Every call -/

/-- Every delivery refers to rows that exist, and says no more than was done. -/
structure Attempted (cfg : Config) (w : World) : Prop where
  linked : Linked w
  accounted : ∀ d ∈ w.webhooks.deliveries.rows, Accounted cfg w d

section Attempted

variable {env : Env} {w w' : World} {q : Delivering} {c : Webhooks.Command}

theorem postsFor_exec (env : Env) (ω : Draw) (c : Command) (w : World) (d : Uuid) :
    w.postsFor d ≤ (exec env ω c w).2.postsFor d := by
  cases c with
  | webhooks c =>
      show w.postsFor d ≤ (posted c ++ w.sent).countP _
      rw [List.countP_append]
      exact Nat.le_add_left _ _
  | _ => exact le_rfl

/-- A call of `fetch` is counted, however it goes. -/
theorem postsFor_fetch (env : Env) (ω : Draw) (d : Uuid) (request : Webhooks.WebhookRequest)
    (w : World) :
    (exec env ω (.webhooks (.command (.fetch d request))) w).2.postsFor d = w.postsFor d + 1 := by
  show List.countP _ ((d, request) :: w.sent) = _
  rw [List.countP_cons_of_pos (by simp)]
  rfl

/-- The calls that leave the deliveries alone. -/
theorem Attempted.same (h : Attempted env.webhooks w) (ω : Draw) {c : Command}
    (hdeliveries :
      ∀ d ∈ (exec env ω c w).2.webhooks.deliveries.rows, d ∈ w.webhooks.deliveries.rows) :
    Attempted env.webhooks (exec env ω c w).2 :=
  ⟨h.linked.exec env ω c,
    fun d hd => (h.accounted d (hdeliveries d hd)).mono (postsFor_exec env ω c w)⟩

/-- **A call of a thread of the webhooks** records what was done. -/
theorem Attempted.webhooks (h : Attempted env.webhooks w) (hq : q.Counts env.webhooks w)
    (hc : q.Allows env.webhooks c) (ω : Draw) :
    Attempted env.webhooks (exec env ω (.webhooks (.command c)) w).2 := by
  have hposts := postsFor_exec env ω (.webhooks (.command c)) w
  refine ⟨h.linked.exec env ω _, fun d hd => Accounted.mono ?_ hposts⟩
  change d ∈ (Webhooks.exec ω.webhooks c w.webhooks).2.deliveries.rows at hd
  have heffect := Webhooks.exec_deliveries ω.webhooks c w.webhooks
  generalize (Webhooks.exec ω.webhooks c w.webhooks).2.deliveries = deliveries at heffect hd
  cases heffect with
  | same => exact h.accounted d hd
  | saved hsave =>
      obtain ⟨hall, -, hrows⟩ := Webhooks.saveDeliveries_eq_some hsave
      rw [IndexedTable.rows_insertAll hall] at hd
      rcases List.mem_append.1 hd with hd | hd
      · exact h.accounted d hd
      · obtain ⟨new, hnew, id, rfl⟩ := hrows d hd
        obtain ⟨event, missing, now, -, rfl⟩ := hc
        obtain ⟨s, -, rfl⟩ := List.mem_map.1 hnew
        exact accounted_new ..
  | @updated id p hfits =>
      obtain ⟨old, hold, rfl⟩ := List.mem_map.1 hd
      unfold IndexedTable.changed
      split_ifs with hid
      · obtain ⟨d, rfl, hpending, hp⟩ := hc
        exact accounted_patch hq hpending hp hfits ω.webhooks.now hid
      · exact h.accounted old hold

/-- **What a thread has read is counted.** -/
theorem Delivering.Counts.next (h : Attempted env.webhooks w) (hq : q.Counts env.webhooks w)
    (hc : q.Allows env.webhooks c) (ω : Draw) :
    (q.next c (exec env ω (.webhooks (.command c)) w).1).Counts env.webhooks
      (exec env ω (.webhooks (.command c)) w).2 := by
  have hposts := postsFor_exec env ω (.webhooks (.command c)) w
  cases c with
  | findDelivery id =>
      refine Delivering.Counts.mono ?_ hposts
      cases hx : (exec env ω (.webhooks (.command (.findDelivery id))) w).1 with
      | error e => cases q <;> trivial
      | ok found =>
          have hanswer :=
            Webhooks.exec_of_ok (show (Webhooks.exec ω.webhooks _ w.webhooks).1 = _ from hx)
          have hfound : Except.ok ((w.webhooks.deliveries.find? id).map fun d =>
              ⟨d, w.webhooks.subscriptions.find? d.webhookSubscriptionId,
                w.webhooks.outboxEvents.find? d.outboxEventId⟩) = Except.ok found :=
            (congrArg Prod.fst hanswer).symm.trans hx
          obtain rfl := Except.ok.inj hfound
          cases hrow : w.webhooks.deliveries.find? id with
          | none => cases q <;> trivial
          | some d =>
              have hmem : d ∈ w.webhooks.deliveries.rows := (Table.find?_eq_some hrow).1
              have hloaded : Delivering.Counts env.webhooks w (.loaded ⟨d,
                  w.webhooks.subscriptions.find? d.webhookSubscriptionId,
                  w.webhooks.outboxEvents.find? d.outboxEventId⟩) :=
                ⟨(h.linked d hmem).1, (h.linked d hmem).2, (h.accounted d hmem).posted,
                  (h.accounted d hmem).columns⟩
              cases q <;> exact hloaded
  | fetch d request =>
      obtain ⟨l, event, s, rfl, -, -, rfl, -⟩ := hc
      have hfetch := postsFor_fetch env ω l.delivery.id request w
      have hcount : l.delivery.attemptCount ≤ w.postsFor l.delivery.id := hq.2.2.1
      exact ⟨by omega, hq.2.2.2⟩
  | findEvent id =>
      refine Delivering.Counts.mono ?_ hposts
      generalize (exec env ω (.webhooks (.command (.findEvent id))) w).1 = r
      cases r with
      | error e => cases q <;> trivial
      | ok found => cases found <;> cases q <;> trivial
  | _ =>
      refine Delivering.Counts.mono ?_ hposts
      generalize (exec env ω (.webhooks (.command _)) w).1 = r
      cases q <;> cases r <;> first | exact hq | trivial

end Attempted

/-! ### Every run -/

/-- What a thread of the webhooks knows of its attempt. -/
def Stage.Counts (env : Env) (w : World) : Stage → Prop
  | .webhook q => q.Counts env.webhooks w
  | _ => True

/-- The contract of the attempts. -/
def accounting (env : Env) : Pool.Contract (system env) where
  world := Attempted env.webhooks
  knows _ q w := q.Counts env w
  change w w' := ∀ d, w.postsFor d ≤ w'.postsFor d
  stable _ q _ _ h hposts := by
    cases q with
    | webhook q => exact Delivering.Counts.mono h hposts
    | _ => trivial
  spawn task w w' h hspawn := by
    have hs := spawned_spawn hspawn
    have hposts : ∀ d, w.postsFor d ≤ w'.postsFor d := fun d => by
      unfold World.postsFor
      rw [hs.sent]
    refine ⟨⟨h.linked.spawned hs, fun d hd => ?_⟩, hposts, ?_⟩
    · exact (h.accounted d (hs.deliveries ▸ hd)).mono hposts
    · cases task <;> trivial
  call task q c ω w h hq hallows := by
    have hposts := postsFor_exec env ω c w
    cases hallows with
    | record hc hop => exact ⟨h.same ω fun _ hd => hd, hposts, trivial⟩
    | @operate r id request hrequest =>
        refine ⟨h.same ω fun d hd => deliveries_operation env ω request w ▸ hd, hposts, ?_⟩
        cases request <;> trivial
    | webhook hc => exact ⟨h.webhooks hq hc ω, hposts, Delivering.Counts.next h hq hc ω⟩
    | reconcile hc => exact ⟨h.same ω fun _ hd => hd, hposts, trivial⟩

/-- **No delivery says more than was done**: no attempt is recorded for which `fetch` was
not called, none beyond those the settings allow, and the columns are those of the status. -/
theorem rows_accounted (env : Env) (labels : List (Label Task Draw)) :
    ∀ d ∈ (after env labels).world.webhooks.deliveries.rows,
      Accounted env.webhooks (after env labels).world d := by
  have hstart : (accounting env).world .empty :=
    ⟨fun _ h => absurd h List.not_mem_nil, fun _ h => absurd h List.not_mem_nil⟩
  exact (Pool.rely_guarantee (accounting env) (system_follows env) hstart labels).2.1.accounted

theorem rows_accounted_notified :
    ∃ d ∈ (after sampleEnv notified).world.webhooks.deliveries.rows,
      d.status = .success ∧ Accounted sampleEnv.webhooks (after sampleEnv notified).world d := by
  have hsent : ∃ d ∈ (after sampleEnv notified).world.webhooks.deliveries.rows,
      d.status = .success := by decide +kernel
  obtain ⟨d, hd, hstatus⟩ := hsent
  exact ⟨d, hd, hstatus, rows_accounted sampleEnv notified d hd⟩

end Engine
end LedgerEngine
