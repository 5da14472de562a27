/-
# The tables a money movement touches

The entities of `accounts`, `transactions`, `ledger_entries` and
`outbox_events` (`src/modules/*/entities`), the rows of the tables of
`1712500000000-CreateLedgerEngineTables.ts`.  Columns that no modelled method
reads or writes (`transactions.error_code`, `transactions.updated_at`) are left
out.
-/

import LedgerEngine.Common.JsString
import LedgerEngine.Store.Table

namespace LedgerEngine

inductive AccountStatus : Type
  | active
  | blocked
  deriving DecidableEq

inductive TransactionType : Type
  | deposit
  | withdrawal
  | transfer
  deriving DecidableEq

inductive TransactionStatus : Type
  | pending
  | completed
  | failed
  deriving DecidableEq

inductive LedgerEntryType : Type
  | debit
  | credit
  deriving DecidableEq

inductive OutboxStatus : Type
  | pending
  | processing
  | published
  | failed
  deriving DecidableEq

/-- A row of `accounts`. -/
structure AccountEntity where
  id : Uuid
  currency : JsString
  balance : ℤ
  status : AccountStatus
  createdAt : Time
  updatedAt : Time
  deriving DecidableEq

/-- A row of `transactions`. -/
structure TransactionEntity where
  id : Uuid
  type : TransactionType
  status : TransactionStatus
  amount : ℤ
  currency : JsString
  fromAccountId : Option Uuid
  toAccountId : Option Uuid
  description : Option JsString
  completedAt : Option Time
  createdAt : Time
  deriving DecidableEq

/-- A row of `ledger_entries`. -/
structure LedgerEntryEntity where
  id : Uuid
  transactionId : Uuid
  accountId : Option Uuid
  ledgerAccount : Option JsString
  entryType : LedgerEntryType
  amount : ℤ
  currency : JsString
  createdAt : Time
  deriving DecidableEq

/-- The payload of a `transaction.completed` event; `completedAt` is the
instant that `toISOString` spells out. -/
structure TransactionCompletedPayload where
  transactionId : Uuid
  type : TransactionType
  amount : ℤ
  currency : JsString
  fromAccountId : Option Uuid
  toAccountId : Option Uuid
  completedAt : Option Time
  deriving DecidableEq

/-- A row of `outbox_events`. -/
structure OutboxEventEntity where
  id : Uuid
  aggregateType : JsString
  aggregateId : Uuid
  eventType : JsString
  payload : TransactionCompletedPayload
  status : OutboxStatus
  retryCount : ℕ
  nextRetryAt : Option Time
  publishedAt : Option Time
  transactionId : Uuid
  createdAt : Time
  updatedAt : Time
  deriving DecidableEq

instance : Keyed AccountEntity Uuid := ⟨AccountEntity.id⟩
instance : Keyed TransactionEntity Uuid := ⟨TransactionEntity.id⟩
instance : Keyed LedgerEntryEntity Uuid := ⟨LedgerEntryEntity.id⟩
instance : Keyed OutboxEventEntity Uuid := ⟨OutboxEventEntity.id⟩

@[simp] theorem AccountEntity.key_eq (a : AccountEntity) : Keyed.key a = a.id := rfl
@[simp] theorem TransactionEntity.key_eq (t : TransactionEntity) : Keyed.key t = t.id := rfl
@[simp] theorem LedgerEntryEntity.key_eq (e : LedgerEntryEntity) : Keyed.key e = e.id := rfl
@[simp] theorem OutboxEventEntity.key_eq (e : OutboxEventEntity) : Keyed.key e = e.id := rfl

/-- The four tables of a money movement. -/
@[ext] structure Db where
  accounts : Table AccountEntity
  transactions : Table TransactionEntity
  ledgerEntries : Table LedgerEntryEntity
  outboxEvents : Table OutboxEventEntity

/-- The tables as the migration creates them. -/
def Db.empty : Db := ⟨.empty, .empty, .empty, .empty⟩

end LedgerEngine
