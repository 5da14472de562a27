/-
# What a call leaves

No call of any thread takes a row away, changes a transaction or a subscription, what an
account, an event or a delivery is about, or which request a record is for
(`World.Grows`, `grows_exec`).  So what a thread has read or done stays true, whatever
the others do; every later proof about the engine uses only this of them.

On the ledger a call does what one request alone does, or nothing (`db_exec`).
-/

import LedgerEngine.Engine.Threads
import LedgerEngine.Ledger.DoubleEntry
import LedgerEngine.Store.Keeps

namespace LedgerEngine

open Table (Keeps)

namespace Ledger

/-- What is kept of the tables of the ledger. -/
structure Preserves (db db' : Db) : Prop where
  accounts : Keeps (fun a => (a.currency, a.status, a.createdAt)) db.accounts db'.accounts
  transactions : Keeps id db.transactions db'.transactions
  events : Keeps (fun e => (e.eventType, e.payload, e.transactionId)) db.outboxEvents
    db'.outboxEvents

theorem Preserves.refl (db : Db) : Preserves db db := ⟨.refl _ _, .refl _ _, .refl _ _⟩

/-- A posting changes the balances of accounts and when they were changed, nothing else. -/
theorem preserves_posted {ar : Arith} {p : Posting} {d : Draws} {db : Db} (hp : p.Valid ar db) :
    Preserves db (p.posted ar d db) where
  accounts := by
    refine Table.keeps_of_map (g := p.move ar d) (fun a => ?_) fun id => Posting.find?_posted hp id
    unfold Posting.move Posting.moveSide
    split_ifs <;> rfl
  transactions := Table.keeps_insert _ _ _
  events := Table.keeps_insert _ _ _

theorem preserves_serve (ar : Arith) (call : Call) (db : Db) :
    Preserves db (serve ar call db).2 := by
  have hs := serve_cases ar call db
  cases hr : serve ar call db with
  | mk answer db' =>
      rw [hr] at hs
      cases hs with
      | failed => exact .refl db
      | opened => exact ⟨Table.keeps_insert _ _ _, .refl _ _, .refl _ _⟩
      | moved _ h =>
          rw [h.state]
          exact preserves_posted h.valid

end Ledger

namespace Engine

open Ledger (Arith Call serve)
open Webhooks (StorageCall)

/-! ### The ledger -/

/-- The request that a call of the ledger is. -/
def Draw.call (ω : Draw) : LedgerCall → Call
  | .createAccount dto => .createAccount ω.id ω.now dto none
  | .transaction m => .move m ω.draws ω.faults ω.commitFault

theorem ledgerAnswer_state (ar : Arith) (ω : Draw) (c : LedgerCall) (db : Db) :
    (ledgerAnswer ar ω c db).2 = (serve ar (ω.call c) db).2 := by
  cases c with
  | createAccount dto =>
      simp only [ledgerAnswer, Draw.call, serve]
      rcases Ledger.createAccount ω.id ω.now dto db with ⟨r | r, db'⟩ <;> rfl
  | transaction m =>
      simp only [ledgerAnswer, Draw.call, serve]
      rcases Ledger.transactionWithFaults ar ω.draws ω.faults ω.commitFault (m.body ar) db with
        ⟨r | r, db'⟩ <;> rfl

/-- **A call of the ledger leaves what one request alone leaves**, or nothing. -/
theorem ledger_state (ar : Arith) (ω : Draw) (c : LedgerCall) (db : Db) :
    ((ledgerAnswer ar ω).meet ω.fault c db).2 = db ∨
      ((ledgerAnswer ar ω).meet ω.fault c db).2 = (serve ar (ω.call c) db).2 := by
  rcases Prog.Handler.meet_state (ledgerAnswer ar ω) ω.fault c db with h | h
  · exact Or.inl h
  · exact Or.inr (h.trans (ledgerAnswer_state ar ω c db))

end Engine

/-! ### The other services -/

namespace Idempotency

/-- A record stays, for the request it was inserted for. -/
theorem keeps_exec (column : Jsonb) (ω : Draw) (c : Command) (w : World) :
    Keeps (fun r => (r.endpoint, r.idempotencyKey, r.requestHash)) w.records.toTable
      (exec column ω c w).2.records.toTable := by
  rcases Prog.Handler.meet_state (answer column ω) ω.fault c w with h | h
  · rw [show (exec column ω c w).2 = w from h]
    exact .refl _ _
  · rw [show (exec column ω c w).2 = (answer column ω c w).2 from h]
    cases c with
    | update id p => exact IndexedTable.keeps_update _ id fun _ => rfl
    | save id p => exact IndexedTable.keeps_update _ id fun _ => rfl
    | insert r =>
        simp only [answer]
        cases hins : w.records.insert? (r.row ω.id ω.now) with
        | none => exact .refl _ _
        | some records => exact IndexedTable.keeps_insert hins
    | findOneOrFail endpoint key =>
        simp only [answer]
        cases w.records.lookup (endpoint, key) <;> exact .refl _ _
    | operation endpoint key =>
        simp only [answer]
        cases ω.outcome <;> exact .refl _ _
    | findOne endpoint key => exact .refl _ _

end Idempotency

namespace Webhooks

/-- What is kept of the tables of the webhooks. -/
structure Preserves (w w' : World) : Prop where
  subscriptions : Keeps id w.subscriptions w'.subscriptions
  events : Keeps (fun e => (e.eventType, e.payload, e.transactionId)) w.outboxEvents
    w'.outboxEvents
  deliveries : Keeps (fun d => (d.webhookSubscriptionId, d.outboxEventId)) w.deliveries.toTable
    w'.deliveries.toTable

theorem Preserves.refl (w : World) : Preserves w w := ⟨.refl _ _, .refl _ _, .refl _ _⟩

theorem Preserves.trans {w w' w'' : World} (h : Preserves w w') (h' : Preserves w' w'') :
    Preserves w w'' where
  subscriptions := h.subscriptions.trans h'.subscriptions
  events := h.events.trans h'.events
  deliveries := h.deliveries.trans h'.deliveries

theorem keeps_updateEvent (w : World) (now : Time) (e : Uuid) (p : EventPatch) :
    Keeps (fun e => (e.eventType, e.payload, e.transactionId)) w.outboxEvents
      (w.updateEvent now e p) := by
  intro id r hr
  rw [find?_updateEvent, hr]
  split_ifs
  · exact ⟨_, rfl, rfl⟩
  · exact ⟨r, rfl, rfl⟩

theorem preserves_exec (ω : Draw) (c : Command) (w : World) : Preserves w (exec ω c w).2 where
  subscriptions := by
    rw [(kept_exec ω c w).subscriptions]
    exact .refl _ _
  events := by
    rcases exec_outboxEvents ω c w with h | ⟨e, p, -, h⟩
    · rw [h]
      exact .refl _ _
    · rw [h]
      exact keeps_updateEvent w ω.now e p
  deliveries := by
    have heffect := exec_deliveries ω c w
    generalize (exec ω c w).2.deliveries = deliveries at heffect
    cases heffect with
    | same => exact .refl _ _
    | saved h => exact IndexedTable.keeps_insertAll (saveDeliveries_eq_some h).1
    | updated d => exact IndexedTable.keeps_update _ d fun _ => rfl

theorem preserves_storageExec (ω : Draw) (c : StorageCall) (w : World) :
    Preserves w (storageExec ω c w).2 := by
  cases c with
  | command c => exact preserves_exec ω c w
  | saveSubscription s =>
      rcases storageExec_save ω s w with h | ⟨id, -, h⟩
      · rw [h]
        exact .refl w
      · rw [h]
        exact ⟨Table.keeps_insert _ _ _, .refl _ _, .refl _ _⟩

/-- **A delivery that is there was there before**, or is one of those being saved. -/
theorem mem_storageExec_deliveries {ω : Draw} {c : StorageCall} {w : World}
    {d : WebhookDeliveryEntity} (h : d ∈ (storageExec ω c w).2.deliveries.rows) :
    (∃ old ∈ w.deliveries.rows, d.webhookSubscriptionId = old.webhookSubscriptionId ∧
      d.outboxEventId = old.outboxEventId) ∨
    ∃ rows, ∃ new ∈ rows, c = .command (.saveDeliveries rows) ∧
      new.References w.subscriptions w.outboxEvents ∧
      d.webhookSubscriptionId = new.webhookSubscriptionId ∧
        d.outboxEventId = new.outboxEventId := by
  cases c with
  | saveSubscription s =>
      rcases storageExec_save ω s w with hstate | ⟨id, -, hstate⟩
      · rw [hstate] at h
        exact Or.inl ⟨d, h, rfl, rfl⟩
      · rw [hstate] at h
        exact Or.inl ⟨d, h, rfl, rfl⟩
  | command c =>
      change d ∈ (exec ω c w).2.deliveries.rows at h
      have heffect := exec_deliveries ω c w
      generalize (exec ω c w).2.deliveries = deliveries at heffect h
      cases heffect with
      | same => exact Or.inl ⟨d, h, rfl, rfl⟩
      | saved hsave =>
          obtain ⟨hall, hrefs, hrows⟩ := saveDeliveries_eq_some hsave
          rw [IndexedTable.rows_insertAll hall] at h
          rcases List.mem_append.1 h with h | h
          · exact Or.inl ⟨d, h, rfl, rfl⟩
          · obtain ⟨new, hnew, id, rfl⟩ := hrows d h
            exact Or.inr ⟨_, new, hnew, rfl, hrefs new hnew, rfl, rfl⟩
      | updated id hfits =>
          obtain ⟨old, hold, rfl⟩ := List.mem_map.1 h
          refine Or.inl ⟨old, hold, ?_⟩
          unfold IndexedTable.changed
          split_ifs <;> exact ⟨rfl, rfl⟩

end Webhooks

namespace Engine

/-! ### All of them -/

/-- What no call takes away. -/
structure World.Grows (w w' : World) : Prop where
  accounts : Keeps (fun a => (a.currency, a.status, a.createdAt)) w.accounts w'.accounts
  transactions : Keeps id w.transactions w'.transactions
  records : Keeps (fun r => (r.endpoint, r.idempotencyKey, r.requestHash))
    w.idempotency.records.toTable w'.idempotency.records.toTable
  webhooks : Webhooks.Preserves w.webhooks w'.webhooks
  received : w.received ⊆ w'.received

theorem World.Grows.refl (w : World) : w.Grows w :=
  ⟨.refl _ _, .refl _ _, .refl _ _, .refl _, List.Subset.refl _⟩

theorem World.Grows.trans {w w' w'' : World} (h : w.Grows w') (h' : w'.Grows w'') :
    w.Grows w'' where
  accounts := h.accounts.trans h'.accounts
  transactions := h.transactions.trans h'.transactions
  records := h.records.trans h'.records
  webhooks := h.webhooks.trans h'.webhooks
  received := List.Subset.trans h.received h'.received

/-- **No call takes anything back.** -/
theorem grows_exec (env : Env) (ω : Draw) (c : Command) (w : World) :
    w.Grows (exec env ω c w).2 := by
  cases c with
  | record c =>
      exact ⟨.refl _ _, .refl _ _, Idempotency.keeps_exec env.column ω.record c w.idempotency,
        .refl _, List.Subset.refl _⟩
  | ledger c =>
      have hdb : Ledger.Preserves w.db ((ledgerAnswer env.arith ω).meet ω.fault c w.db).2 := by
        rcases ledger_state env.arith ω c w.db with h | h
        · rw [h]
          exact .refl _
        · rw [h]
          exact Ledger.preserves_serve ..
      exact ⟨hdb.accounts, hdb.transactions, .refl _ _, ⟨.refl _ _, hdb.events, .refl _ _⟩,
        List.Subset.refl _⟩
  | webhooks c =>
      exact ⟨.refl _ _, .refl _ _, .refl _ _,
        Webhooks.preserves_storageExec ω.webhooks c w.webhooks, List.Subset.refl _⟩
  | reconcile c => exact ⟨.refl _ _, .refl _ _, .refl _ _, .refl _, List.Subset.refl _⟩

/-- An operation leaves the deliveries alone. -/
theorem deliveries_operation (env : Env) (ω : Draw) (request : Api.WriteRequest) (w : World) :
    (exec env ω (commandOf request) w).2.webhooks.deliveries = w.webhooks.deliveries := by
  cases request with
  | createAccount dto => rfl
  | move m => rfl
  | registerWebhook dto =>
      show (Webhooks.storageExec _ _ _).2.deliveries = _
      rcases Webhooks.storageExec_save ω.webhooks (newSubscription dto) w.webhooks with
        h | ⟨id, -, h⟩
      · rw [h]
      · rw [h]

/-- What is as it was when a thread has started. -/
structure Spawned (w w' : World) : Prop where
  db : w'.db = w.db
  idempotency : w'.idempotency = w.idempotency
  subscriptions : w'.webhooks.subscriptions = w.webhooks.subscriptions
  deliveries : w'.webhooks.deliveries = w.webhooks.deliveries
  reconciliation : w'.reconciliation = w.reconciliation
  sent : w'.sent = w.sent
  received : w.received ⊆ w'.received

/-- **A thread that starts changes no table**: a request is noted, a worker takes a job. -/
theorem spawned_spawn {env : Env} {task : Task} {w w' : World} (h : spawn env task w = some w') :
    Spawned w w' := by
  cases task with
  | request r =>
      obtain rfl := Option.some.inj h
      exact ⟨rfl, rfl, rfl, rfl, rfl, rfl, List.subset_cons_self ..⟩
  | webhook call =>
      obtain ⟨webhooks, hspawn, rfl⟩ := Option.map_eq_some_iff.1 h
      rcases Webhooks.spawn_eq_some hspawn with rfl | ⟨_, _, _, -, -, rfl⟩
      · exact ⟨rfl, rfl, rfl, rfl, rfl, rfl, List.Subset.refl _⟩
      · exact ⟨rfl, rfl, rfl, rfl, rfl, rfl, List.Subset.refl _⟩
  | reconcile service =>
      obtain rfl := Option.some.inj h
      exact ⟨rfl, rfl, rfl, rfl, rfl, rfl, List.Subset.refl _⟩

theorem Spawned.grows {w w' : World} (h : Spawned w w') : w.Grows w' := by
  have haccounts : w'.accounts = w.accounts := congrArg Db.accounts h.db
  have htransactions : w'.transactions = w.transactions := congrArg Db.transactions h.db
  have hevents : w'.webhooks.outboxEvents = w.webhooks.outboxEvents := congrArg Db.outboxEvents h.db
  refine ⟨?_, ?_, ?_, ⟨?_, ?_, ?_⟩, h.received⟩
  · rw [haccounts]
    exact .refl _ _
  · rw [htransactions]
    exact .refl _ _
  · rw [h.idempotency]
    exact .refl _ _
  · rw [h.subscriptions]
    exact .refl _ _
  · rw [hevents]
    exact .refl _ _
  · rw [h.deliveries]
    exact .refl _ _

/-- **What every call keeps of the world holds in every state of the engine.** -/
theorem after_induction {env : Env} {J : World → Prop} (hempty : J .empty)
    (hspawn : ∀ w w', J w → Spawned w w' → J w')
    (hcall : ∀ (ω : Draw) c w, J w → J (exec env ω c w).2) (labels : List (Label Task Draw)) :
    J (after env labels).world :=
  Pool.world_induction (S := system env) (fun _ w w' h hs => hspawn w w' h (spawned_spawn hs))
    (fun ω c w h => hcall ω c w h) (P := Pool.start .empty) hempty labels

/-- **What was there is there ever after.** -/
theorem grows_after (env : Env) (labels later : List (Label Task Draw)) :
    (after env labels).world.Grows (after env (labels ++ later)).world := by
  rw [after, after, Pool.run_append]
  generalize Pool.run (system env) (Pool.start .empty) labels = P
  exact Pool.world_induction (J := P.world.Grows)
    (fun _ _ _ h hspawn => h.trans (spawned_spawn hspawn).grows)
    (fun ω c w h => h.trans (grows_exec env ω c w)) (.refl _) later

end Engine
end LedgerEngine
