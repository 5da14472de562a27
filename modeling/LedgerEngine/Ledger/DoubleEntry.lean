/-
# Transactions, ledger entries and outbox events correspond

In every committed state each transaction is COMPLETED, has exactly its two
entries on the sides its type dictates and exactly one event, and there are no
other entries or events (`Corresponds`).  Nothing is asked of the arithmetic,
and any statement or commit may fail.

`Corresponds.posted` is the step: the id drawn for a transaction is new, so by
the correspondence itself no entry or event refers to it yet, and what the
posting adds is exactly what is found under it afterwards.
-/

import LedgerEngine.Ledger.Posting

namespace LedgerEngine
namespace Ledger

/-- The entry is on the account, and there is one. -/
def OnAccount (e : LedgerEntryEntity) (accountId : Option Uuid) : Prop :=
  accountId.isSome ∧ e.accountId = accountId ∧ e.ledgerAccount = none

/-- The entry is on the external settlement account. -/
def OnExternal (e : LedgerEntryEntity) : Prop :=
  e.accountId = none ∧ e.ledgerAccount = some externalSettlement

/-- The two entries are where the transaction's type puts them. -/
def Placed (t : TransactionEntity) (debit credit : LedgerEntryEntity) : Prop :=
  match t.type with
  | .deposit => OnExternal debit ∧ OnAccount credit t.toAccountId
  | .withdrawal => OnAccount debit t.fromAccountId ∧ OnExternal credit
  | .transfer => OnAccount debit t.fromAccountId ∧ OnAccount credit t.toAccountId

/-- The two entries of a transaction. -/
structure Legs (t : TransactionEntity) (debit credit : LedgerEntryEntity) : Prop where
  debit_type : debit.entryType = .debit
  credit_type : credit.entryType = .credit
  debit_amount : debit.amount = t.amount
  credit_amount : credit.amount = t.amount
  debit_currency : debit.currency = t.currency
  credit_currency : credit.currency = t.currency
  placed : Placed t debit credit

/-- The payload that agrees with a transaction. -/
def payloadOf (t : TransactionEntity) : TransactionCompletedPayload where
  transactionId := t.id
  type := t.type
  amount := t.amount
  currency := t.currency
  fromAccountId := t.fromAccountId
  toAccountId := t.toAccountId
  completedAt := t.completedAt

/-- The ledger entries of a transaction. -/
def entriesOf (db : Db) (transactionId : Uuid) : List LedgerEntryEntity :=
  db.ledgerEntries.rows.filter fun e => e.transactionId = transactionId

/-- The outbox events of a transaction. -/
def eventsOf (db : Db) (transactionId : Uuid) : List OutboxEventEntity :=
  db.outboxEvents.rows.filter fun v => v.transactionId = transactionId

/-- The transaction is completed, with its two entries and its one event. -/
structure Recorded (db : Db) (t : TransactionEntity) : Prop where
  status : t.status = .completed
  completedAt : t.completedAt.isSome
  entries : ∃ debit credit, (entriesOf db t.id).Perm [debit, credit] ∧ Legs t debit credit
  event : ∃ v, eventsOf db t.id = [v] ∧ v.payload = payloadOf t

/-- Every transaction is recorded, and entries and events belong to
transactions. -/
structure Corresponds (db : Db) : Prop where
  recorded : ∀ t ∈ db.transactions.rows, Recorded db t
  entries : ∀ e ∈ db.ledgerEntries.rows, ∃ t ∈ db.transactions.rows, e.transactionId = t.id
  events : ∀ v ∈ db.outboxEvents.rows, ∃ t ∈ db.transactions.rows, v.transactionId = t.id

theorem corresponds_empty : Corresponds Db.empty where
  recorded _ h := absurd h List.not_mem_nil
  entries _ h := absurd h List.not_mem_nil
  events _ h := absurd h List.not_mem_nil

section Posted

variable {ar : Arith} {p : Posting} {d : Draws} {db : Db}

theorem Posting.transactionId_of_mem_entries {e : LedgerEntryEntity} (h : e ∈ p.entries d) :
    e.transactionId = d.transactionId := by
  obtain ⟨i, rfl | rfl⟩ := Posting.exists_of_mem_entries h <;> rfl

/-- The entries of a posting are its debit leg and its credit leg. -/
theorem Posting.perm_entries : ∃ i j, (p.entries d).Perm
    [(p.leg d.transactionId .debit p.debit).row d i,
      (p.leg d.transactionId .credit p.credit).row d j] := by
  cases ht : p.type with
  | deposit =>
      refine ⟨1, 0, ?_⟩
      simp only [Posting.entries, Posting.newEntries, ht]
      exact List.Perm.swap ..
  | withdrawal =>
      refine ⟨0, 1, ?_⟩
      simp only [Posting.entries, Posting.newEntries, ht]
      exact List.Perm.refl _
  | transfer =>
      refine ⟨0, 1, ?_⟩
      simp only [Posting.entries, Posting.newEntries, ht]
      exact List.Perm.refl _

/-- The legs of a posting are those of its transaction. -/
theorem Posting.legs (hp : p.Shaped) (i j : ℕ) :
    Legs (p.transaction d) ((p.leg d.transactionId .debit p.debit).row d i)
      ((p.leg d.transactionId .credit p.credit).row d j) where
  debit_type := rfl
  credit_type := rfl
  debit_amount := rfl
  credit_amount := rfl
  debit_currency := rfl
  credit_currency := rfl
  placed := by
    have htype : (p.transaction d).type = p.type := rfl
    unfold Placed
    unfold Posting.Shaped at hp
    rw [htype]
    cases ht : p.type with
    | deposit =>
        rw [ht] at hp
        obtain ⟨hd, b, hc⟩ := hp
        refine ⟨⟨?_, ?_⟩, ?_, rfl, ?_⟩ <;>
          simp [NewLedgerEntry.row, Posting.leg, Posting.transaction, Posting.newTransaction,
            NewTransaction.row, Party.accountId, Party.ledgerAccount, hd, hc]
    | withdrawal =>
        rw [ht] at hp
        obtain ⟨⟨a, hd⟩, hc⟩ := hp
        refine ⟨⟨?_, rfl, ?_⟩, ?_, ?_⟩ <;>
          simp [NewLedgerEntry.row, Posting.leg, Posting.transaction, Posting.newTransaction,
            NewTransaction.row, Party.accountId, Party.ledgerAccount, hd, hc]
    | transfer =>
        rw [ht] at hp
        obtain ⟨⟨a, hd⟩, b, hc⟩ := hp
        refine ⟨⟨?_, rfl, ?_⟩, ?_, rfl, ?_⟩ <;>
          simp [NewLedgerEntry.row, Posting.leg, Posting.transaction, Posting.newTransaction,
            NewTransaction.row, Party.accountId, Party.ledgerAccount, hd, hc]

theorem Posting.entriesOf_posted (hk : p.NewKeys db d) (id : Uuid) :
    entriesOf (p.posted ar d db) id =
      entriesOf db id ++ if d.transactionId = id then (p.stored ar).entries d else [] := by
  unfold entriesOf
  rw [Posting.ledgerEntries_posted hk, List.filter_append]
  congr 1
  split_ifs with h
  · exact List.filter_eq_self.2 fun e he => by simp [Posting.transactionId_of_mem_entries he, h]
  · exact List.filter_eq_nil_iff.2 fun e he => by simp [Posting.transactionId_of_mem_entries he, h]

theorem Posting.eventsOf_posted (hk : p.NewKeys db d) (id : Uuid) :
    eventsOf (p.posted ar d db) id =
      eventsOf db id ++ if d.transactionId = id then [(p.stored ar).event d] else [] := by
  unfold eventsOf
  have hrows : (p.posted ar d db).outboxEvents.rows =
      db.outboxEvents.rows ++ [(p.stored ar).event d] := Table.rows_insert hk.event
  have hid : ((p.stored ar).event d).transactionId = d.transactionId := rfl
  rw [hrows, List.filter_append, List.filter_singleton, hid]
  simp

/-- **A posting keeps the correspondence.** -/
theorem Corresponds.posted (h : Corresponds db) (hp : p.Valid ar db) (hk : p.NewKeys db d) :
    Corresponds (p.posted ar d db) := by
  have hmem : ∀ t, t ∈ (p.posted ar d db).transactions.rows ↔
      t ∈ db.transactions.rows ∨ t = (p.stored ar).transaction d :=
    fun t => Table.mem_insert hk.transaction
  have hnew : ∀ t ∈ db.transactions.rows, t.id ≠ d.transactionId := fun t ht hid =>
    Table.find?_eq_none.1 hk.transaction (hid ▸ List.mem_map_of_mem ht)
  have hnoEntries : entriesOf db d.transactionId = [] :=
    List.filter_eq_nil_iff.2 fun e he => by
      obtain ⟨t, ht, hid⟩ := h.entries e he
      simpa [hid] using hnew t ht
  have hnoEvents : eventsOf db d.transactionId = [] :=
    List.filter_eq_nil_iff.2 fun v hv => by
      obtain ⟨t, ht, hid⟩ := h.events v hv
      simpa [hid] using hnew t ht
  refine ⟨fun t ht => ?_, fun e he => ?_, fun v hv => ?_⟩
  · rcases (hmem t).1 ht with ht | rfl
    · obtain ⟨hs, hc, hes, hvs⟩ := h.recorded t ht
      have hne : d.transactionId ≠ t.id := (hnew t ht).symm
      refine ⟨hs, hc, ?_, ?_⟩
      · rwa [Posting.entriesOf_posted hk, if_neg hne, List.append_nil]
      · rwa [Posting.eventsOf_posted hk, if_neg hne, List.append_nil]
    · have hid : ((p.stored ar).transaction d).id = d.transactionId := rfl
      refine ⟨rfl, rfl, ?_, (p.stored ar).event d, ?_, rfl⟩
      · obtain ⟨i, j, hperm⟩ := Posting.perm_entries (p := p.stored ar) (d := d)
        refine ⟨_, _, ?_, Posting.legs (p := p.stored ar) hp.shape i j⟩
        rw [hid, Posting.entriesOf_posted hk, if_pos rfl, hnoEntries, List.nil_append]
        exact hperm
      · rw [hid, Posting.eventsOf_posted hk, if_pos rfl, hnoEvents, List.nil_append]
  · rw [Posting.ledgerEntries_posted hk] at he
    rcases List.mem_append.1 he with he | he
    · obtain ⟨t, ht, hid⟩ := h.entries e he
      exact ⟨t, (hmem t).2 (Or.inl ht), hid⟩
    · exact ⟨_, (hmem _).2 (Or.inr rfl), Posting.transactionId_of_mem_entries he⟩
  · rcases (Table.mem_insert hk.event).1 hv with hv | rfl
    · obtain ⟨t, ht, hid⟩ := h.events v hv
      exact ⟨t, (hmem t).2 (Or.inl ht), hid⟩
    · exact ⟨_, (hmem _).2 (Or.inr rfl), rfl⟩

end Posted

/-- One request keeps the correspondence. -/
theorem Corresponds.serve {ar : Arith} {db : Db} (h : Corresponds db) (call : Call) :
    Corresponds (serve ar call db).2 := by
  have hs := serve_cases ar call db
  cases hr : Ledger.serve ar call db with
  | mk answer db' =>
      rw [hr] at hs
      cases hs with
      | failed => exact h
      | opened => exact ⟨fun t ht => ⟨(h.recorded t ht).1, (h.recorded t ht).2,
          (h.recorded t ht).3, (h.recorded t ht).4⟩, h.entries, h.events⟩
      | moved _ hacc =>
          rw [hacc.state]
          exact h.posted hacc.valid hacc.newKeys

/-- **Transactions, entries and events correspond in every state reached, and a
request that fails changes nothing**, whatever the arithmetic and the faults. -/
theorem corresponds_run (ar : Arith) :
    (∀ calls, Corresponds (run ar .empty calls)) ∧
      ∀ call db, (∃ r, (serve ar call db).1 = .ok r) ∨ (serve ar call db).2 = db := by
  refine ⟨fun calls => ?_, fun call db => ?_⟩
  · suffices h : ∀ db, Corresponds db → Corresponds (run ar db calls) from h _ corresponds_empty
    induction calls with
    | nil => exact fun db hdb => hdb
    | cons call calls ih => exact fun db hdb => ih _ (hdb.serve call)
  · have hs := serve_cases ar call db
    cases hr : serve ar call db with
    | mk answer db' =>
        rw [hr] at hs
        cases hs with
        | failed => exact Or.inr rfl
        | opened r => exact Or.inl ⟨_, rfl⟩
        | moved => exact Or.inl ⟨_, rfl⟩

end Ledger
end LedgerEngine
