/-
# What is in the tables

A call of the engine changes the ledger as one request alone does, or patches the status
of an outbox event (`db_exec`).  So what the services keep holds in every state of the
engine (`db_induction`): transactions, entries and events correspond, and while the
numbers are small enough for JavaScript every balance is the sum of its entries
(`ledger_after`).  No foreign key of the migration points to nothing (`resolves_after`).
-/

import LedgerEngine.Engine.Uniqueness
import LedgerEngine.Ledger.Safe
import LedgerEngine.Reconciliation.Records

namespace LedgerEngine

namespace Webhooks

/-- An outbox event that is patched is changed in its place. -/
theorem rows_updateEvent (w : World) (now : Time) (e : Uuid) (p : EventPatch) :
    (w.updateEvent now e p).rows =
      w.outboxEvents.rows.map fun v => if v.id = e then p.apply now v else v := by
  unfold World.updateEvent
  cases hfind : w.outboxEvents.find? e with
  | none =>
      refine ((List.map_congr_left fun v hv => ?_).trans (List.map_id _)).symm
      have hne : v.id ≠ e := by
        rintro rfl
        exact Table.find?_eq_none.1 hfind (List.mem_map_of_mem hv)
      exact if_neg hne
  | some v =>
      have hkey : ∀ r : OutboxEventEntity, Keyed.key (p.apply now r) = Keyed.key r := fun _ => rfl
      exact Table.rows_put hkey hfind

end Webhooks

namespace Ledger

/-- A change of the outbox events that leaves what they are about. -/
theorem Corresponds.patched {db : Db} (h : Corresponds db)
    {g : OutboxEventEntity → OutboxEventEntity}
    (hg : ∀ v, (g v).transactionId = v.transactionId ∧ (g v).payload = v.payload)
    {events : Table OutboxEventEntity} (hrows : events.rows = db.outboxEvents.rows.map g) :
    Corresponds { db with outboxEvents := events } where
  recorded t ht := by
    obtain ⟨hstatus, hcompleted, hentries, v, hv, hpayload⟩ := h.recorded t ht
    refine ⟨hstatus, hcompleted, hentries, g v, ?_, (hg v).2.trans hpayload⟩
    have hfilter : (fun v => decide (v.transactionId = t.id)) ∘ g =
        fun v => decide (v.transactionId = t.id) := by
      funext v
      simp only [Function.comp_apply, (hg v).1]
    show events.rows.filter _ = _
    rw [hrows, List.filter_map, hfilter]
    exact congrArg (List.map g) hv
  entries := h.entries
  events v hv := by
    have hv : v ∈ events.rows := hv
    rw [hrows] at hv
    obtain ⟨v, hold, rfl⟩ := List.mem_map.1 hv
    rw [(hg v).1]
    exact h.events v hold

/-- The accounts of every transaction exist. -/
def Parties (db : Db) : Prop :=
  ∀ t ∈ db.transactions.rows, ∀ id, t.fromAccountId = some id ∨ t.toAccountId = some id →
    (db.accounts.find? id).isSome

theorem Parties.serve {ar : Arith} {db : Db} (h : Parties db) (call : Call) :
    Parties (serve ar call db).2 := by
  have hkeep := (preserves_serve ar call db).accounts
  have hs := serve_cases ar call db
  cases hr : Ledger.serve ar call db with
  | mk answer db' =>
      rw [hr] at hs hkeep
      cases hs with
      | failed => exact h
      | opened => exact fun t ht id hid => hkeep.isSome (h t ht id hid)
      | @moved m d _ p _ _ hcall hacc =>
          intro t ht id hid
          rw [hacc.state] at ht
          rcases (Table.mem_insert hacc.newKeys.transaction).1 ht with ht | rfl
          · exact hkeep.isSome (h t ht id hid)
          · refine hkeep.isSome ?_
            have hside : ∀ party, p.Reads ar db party → party.accountId = some id →
                (db.accounts.find? id).isSome := by
              intro party hreads hparty
              cases party with
              | external => cases hparty
              | account a =>
                  obtain ⟨row, hrow, -⟩ := hreads a rfl
                  obtain rfl := Option.some.inj hparty
                  rw [hrow]
                  rfl
            rcases hid with hid | hid
            · exact hside _ hacc.valid.debit_reads hid
            · exact hside _ hacc.valid.credit_reads hid

end Ledger

namespace Engine

open Ledger (Arith AllBelow Call Corresponds References Safe serve)

/-- A call of the webhooks patches an outbox event, or leaves the ledger alone. -/
theorem db_webhooks (env : Env) (ω : Draw) (c : Webhooks.StorageCall) (w : World) :
    (exec env ω (.webhooks c) w).2.db = w.db ∨
      ∃ now e p, (exec env ω (.webhooks c) w).2.db =
        { w.db with outboxEvents := w.webhooks.updateEvent now e p } := by
  have hdb : (exec env ω (.webhooks c) w).2.db = { w.db with
      outboxEvents := (Webhooks.storageExec ω.webhooks c w.webhooks).2.outboxEvents } := rfl
  cases c with
  | saveSubscription s =>
      rcases Webhooks.storageExec_save ω.webhooks s w.webhooks with h | ⟨id, -, h⟩
      · rw [h] at hdb
        exact Or.inl hdb
      · rw [h] at hdb
        exact Or.inl hdb
  | command c =>
      rcases Webhooks.exec_outboxEvents ω.webhooks c w.webhooks with h | ⟨e, p, -, h⟩
      · rw [show (Webhooks.storageExec ω.webhooks (.command c) w.webhooks).2.outboxEvents =
          w.webhooks.outboxEvents from h] at hdb
        exact Or.inl hdb
      · rw [show (Webhooks.storageExec ω.webhooks (.command c) w.webhooks).2.outboxEvents =
          w.webhooks.updateEvent ω.webhooks.now e p from h] at hdb
        exact Or.inr ⟨_, e, p, hdb⟩

/-- **What a call does to the ledger**: nothing, what one request alone does, or a patch of
one outbox event. -/
theorem db_exec (env : Env) (ω : Draw) (c : Command) (w : World) :
    (exec env ω c w).2.db = w.db ∨
      (∃ call, (exec env ω c w).2.db = (serve env.arith call w.db).2) ∨
      ∃ now e p, (exec env ω c w).2.db =
        { w.db with outboxEvents := w.webhooks.updateEvent now e p } := by
  cases c with
  | record c => exact Or.inl rfl
  | reconcile c => exact Or.inl rfl
  | ledger c =>
      rcases ledger_state env.arith ω c w.db with h | h
      · exact Or.inl h
      · exact Or.inr (Or.inl ⟨_, h⟩)
  | webhooks c => exact (db_webhooks env ω c w).imp_right Or.inr

/-- What every request keeps alone no call of the engine breaks, if patches of the outbox
events keep it. -/
theorem db_kept {env : Env} {J : Db → Prop}
    (hserve : ∀ call db, J db → J (serve env.arith call db).2)
    (hpatch : ∀ (w : Webhooks.World) db now e p, w.outboxEvents = db.outboxEvents → J db →
      J { db with outboxEvents := w.updateEvent now e p })
    {w : World} (h : J w.db) (ω : Draw) (c : Command) : J (exec env ω c w).2.db := by
  rcases db_exec env ω c w with he | ⟨call, he⟩ | ⟨now, e, p, he⟩
  · exact he ▸ h
  · exact he ▸ hserve call _ h
  · exact he ▸ hpatch _ _ now e p rfl h

/-- **What every request keeps alone holds in every state of the engine.** -/
theorem db_induction {env : Env} {J : Db → Prop} (hempty : J .empty)
    (hserve : ∀ call db, J db → J (serve env.arith call db).2)
    (hpatch : ∀ (w : Webhooks.World) db now e p, w.outboxEvents = db.outboxEvents → J db →
      J { db with outboxEvents := w.updateEvent now e p })
    (labels : List (Label Task Draw)) : J (after env labels).world.db :=
  after_induction (J := fun w => J w.db) hempty (fun _ _ h hs => by rw [hs.db]; exact h)
    (fun ω c _ h => db_kept hserve hpatch h ω c) labels

/-! ### Every state -/

theorem corresponds_exec {env : Env} {w : World} (h : Corresponds w.db) (ω : Draw) (c : Command) :
    Corresponds (exec env ω c w).2.db :=
  db_kept (fun call _ h => h.serve call) (fun w db now e p hw h => h.patched
    (fun v => by split_ifs <;> exact ⟨rfl, rfl⟩) (hw ▸ Webhooks.rows_updateEvent w now e p)) h ω c

theorem safe_exec {env : Env} {limit : ℤ} (har : env.arith.Precise limit) {w : World}
    (h : Safe limit w.db) (hbelow : AllBelow limit w.db) (ω : Draw) (c : Command)
    (hafter : AllBelow limit (exec env ω c w).2.db) : Safe limit (exec env ω c w).2.db := by
  rcases db_exec env ω c w with he | ⟨call, he⟩ | ⟨now, e, p, he⟩
  · rw [he]
    exact h
  · rw [he] at hafter ⊢
    exact h.serve har hbelow call hafter
  · rw [he]
    exact ⟨⟨⟨h.balance, h.nonneg, h.currency, h.external⟩, h.references⟩, h.amounts⟩

theorem corresponds_after (env : Env) (labels : List (Label Task Draw)) :
    Corresponds (after env labels).world.db :=
  after_induction (J := fun w => Corresponds w.db) Ledger.corresponds_empty
    (fun _ _ h hs => by rw [hs.db]; exact h) (fun ω c _ h => corresponds_exec h ω c) labels

theorem references_after (env : Env) (labels : List (Label Task Draw)) :
    References (after env labels).world.db :=
  db_induction (J := References) (fun _ h => absurd h List.not_mem_nil)
    (fun call _ h => Ledger.references_serve h call) (fun _ _ _ _ _ _ h => h) labels

theorem parties_after (env : Env) (labels : List (Label Task Draw)) :
    Ledger.Parties (after env labels).world.db :=
  db_induction (J := Ledger.Parties) (fun _ h => absurd h List.not_mem_nil)
    (fun call _ h => h.serve call) (fun _ _ _ _ _ _ h => h) labels

/-- No balance has reached the limit at any moment of the run. -/
def StaysBelow (env : Env) (limit : ℤ) (labels : List (Label Task Draw)) : Prop :=
  ∀ n, AllBelow limit (after env (labels.take n)).world.db

theorem StaysBelow.left {env : Env} {limit : ℤ} {labels later : List (Label Task Draw)}
    (h : StaysBelow env limit (labels ++ later)) : StaysBelow env limit labels := by
  intro n
  have htake : (labels ++ later).take (min n labels.length) = labels.take n := by
    rw [List.take_append_of_le_length (Nat.min_le_right ..), ← List.take_take,
      List.take_of_length_le (le_refl labels.length)]
  exact htake ▸ h (min n labels.length)

theorem StaysBelow.take {env : Env} {limit : ℤ} {labels : List (Label Task Draw)}
    (h : StaysBelow env limit labels) (n : ℕ) : StaysBelow env limit (labels.take n) := by
  rw [← List.take_append_drop n labels] at h
  exact h.left

theorem safe_after {env : Env} {limit : ℤ} (har : env.arith.Precise limit)
    {labels : List (Label Task Draw)} (h : StaysBelow env limit labels) :
    Safe limit (after env labels).world.db :=
  Pool.world_induction_along (S := system env) (P := Pool.start .empty)
    (fun w => AllBelow limit w.db) (fun w => Safe limit w.db)
    (fun _ _ _ hw hspawn => by rw [(spawned_spawn hspawn).db]; exact hw)
    (fun ω c _ hbelow hafter hw => safe_exec har hw hbelow ω c hafter)
    (Ledger.safe_empty limit) h

/-- **The ledger is sound in every state of the engine**, whatever runs beside it: until a
balance is too large for JavaScript, none has been rounded. -/
theorem ledger_after {env : Env} {limit : ℤ} (har : env.arith.Precise limit)
    {labels : List (Label Task Draw)} (h : StaysBelow env limit labels) :
    Safe limit (after env labels).world.db ∧ Corresponds (after env labels).world.db :=
  ⟨safe_after har h, corresponds_after env labels⟩

theorem deposited_staysBelow : StaysBelow sampleEnv (2 ^ 53) deposited :=
  Pool.forall_take_iff (p := fun labels => AllBelow (2 ^ 53) (after sampleEnv labels).world.db) |>.2
    (by decide +kernel)

theorem ledger_after_deposited :
    Safe (2 ^ 53) (after sampleEnv deposited).world.db ∧
      Corresponds (after sampleEnv deposited).world.db :=
  ledger_after Ledger.precise_double deposited_staysBelow

/-! ### Foreign keys -/

/-- The subscription and the event of every delivery exist. -/
def Linked (w : World) : Prop :=
  ∀ d ∈ w.webhooks.deliveries.rows,
    (w.webhooks.subscriptions.find? d.webhookSubscriptionId).isSome ∧
    (w.webhooks.outboxEvents.find? d.outboxEventId).isSome

/-- Deliveries whose rows were there before. -/
theorem linked_of_grows {w w' : World} (hw : w.Grows w')
    (h : ∀ d ∈ w'.webhooks.deliveries.rows,
      (w.webhooks.subscriptions.find? d.webhookSubscriptionId).isSome ∧
        (w.webhooks.outboxEvents.find? d.outboxEventId).isSome) : Linked w' :=
  fun d hd => ⟨hw.webhooks.subscriptions.isSome (h d hd).1, hw.webhooks.events.isSome (h d hd).2⟩

theorem Linked.spawned {w w' : World} (h : Linked w) (hs : Spawned w w') : Linked w' :=
  linked_of_grows hs.grows fun d hd => h d (hs.deliveries ▸ hd)

theorem Linked.exec {w : World} (h : Linked w) (env : Env) (ω : Draw) (c : Command) :
    Linked (exec env ω c w).2 := by
  refine linked_of_grows (grows_exec env ω c w) fun d hd => ?_
  cases c with
  | webhooks c =>
      rcases Webhooks.mem_storageExec_deliveries hd with
        ⟨old, hold, hs, he⟩ | ⟨rows, new, -, -, hrefs, hs, he⟩
      · rw [hs, he]
        exact h old hold
      · rw [hs, he]
        exact hrefs
  | _ => exact h d hd

theorem linked_after (env : Env) (labels : List (Label Task Draw)) :
    Linked (after env labels).world :=
  after_induction (J := Linked) (fun _ h => absurd h List.not_mem_nil)
    (fun _ _ h hs => h.spawned hs) (fun ω c _ h => h.exec env ω c) labels

theorem issues_exec {ω : Reconciliation.Draw} {c : Reconciliation.Command}
    {w : Reconciliation.World} (h : ∀ i ∈ w.issues.rows, (w.runs.find? i.runId).isSome) :
    ∀ i ∈ (Reconciliation.exec ω c w).2.issues.rows,
      ((Reconciliation.exec ω c w).2.runs.find? i.runId).isSome := by
  have heffect := Reconciliation.effect_exec ω c w
  generalize (Reconciliation.exec ω c w).1 = r at heffect
  generalize (Reconciliation.exec ω c w).2 = w' at heffect
  cases heffect with
  | same _ hruns hissues =>
      rw [hruns, hissues]
      exact h
  | saved run hstores => exact fun i hi => (Table.keeps_insert id _ _).isSome (h i hi)
  | stored haccepts =>
      intro i hi
      change i ∈ (w.issues.insertAll _).rows at hi
      rw [Table.rows_insertAll haccepts.1 fun i hi => (haccepts.2 i hi).1] at hi
      exact (List.mem_append.1 hi).elim (h i) fun hi => (haccepts.2 i hi).2
  | updated id p =>
      intro i hi
      show ((w.updateRun id p).find? i.runId).isSome
      rw [Reconciliation.find?_updateRun]
      split_ifs
      · rw [Option.isSome_map]
        exact h i hi
      · exact h i hi

theorem issues_after (env : Env) (labels : List (Label Task Draw)) :
    ∀ i ∈ (after env labels).world.reconciliation.issues.rows,
      ((after env labels).world.reconciliation.runs.find? i.runId).isSome := by
  refine after_induction (J := fun w => ∀ i ∈ w.reconciliation.issues.rows,
    (w.reconciliation.runs.find? i.runId).isSome) (fun _ h => absurd h List.not_mem_nil)
    (fun w w' h hs => ?_) (fun ω c w h => ?_) labels
  · rw [hs.reconciliation]
    exact h
  · cases c with
    | reconcile c => exact issues_exec h
    | _ => exact h

/-- Every foreign key of the migration refers to a row. -/
structure Resolves (w : World) : Prop where
  transaction_accounts : Ledger.Parties w.db
  entry_transaction : ∀ e ∈ w.ledgerEntries.rows, (w.transactions.find? e.transactionId).isSome
  entry_account : References w.db
  record_transaction : ∀ r ∈ w.idempotency.records.rows, ∀ t, r.transactionId = some t →
    (w.transactions.find? t).isSome
  event_transaction : ∀ v ∈ w.webhooks.outboxEvents.rows,
    (w.transactions.find? v.transactionId).isSome
  delivery : Linked w
  issue_run : ∀ i ∈ w.reconciliation.issues.rows, (w.reconciliation.runs.find? i.runId).isSome

/-- **No state of the engine violates a foreign key.** -/
theorem resolves_after (env : Env) (labels : List (Label Task Draw)) :
    Resolves (after env labels).world := by
  have hcorresponds := corresponds_after env labels
  have htransaction : ∀ t ∈ (after env labels).world.db.transactions.rows,
      ((after env labels).world.transactions.find? t.id).isSome := fun t ht =>
    Option.isSome_of_eq_some (Table.find?_key ht)
  refine ⟨parties_after env labels, fun e he => ?_, references_after env labels,
    fun r hr t ht => ?_, fun v hv => ?_, linked_after env labels, issues_after env labels⟩
  · obtain ⟨t, ht, hid⟩ := hcorresponds.entries e he
    rw [hid]
    exact htransaction t ht
  · have hfind : (after env labels).world.idempotency.records.find? r.id = some r :=
      Table.find?_key hr
    refine (named_after env labels).known (.inr r.id) t ?_
    show ((after env labels).world.idempotency.records.find? r.id).bind _ = _
    rw [hfind]
    exact ht
  · obtain ⟨t, ht, hid⟩ := hcorresponds.events v hv
    rw [hid]
    exact htransaction t ht

end Engine
end LedgerEngine
