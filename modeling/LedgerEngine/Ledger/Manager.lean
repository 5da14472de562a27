/-
# The statements of a money movement

What the `manager` of a TypeORM transaction and the server behind it do for
`TransactionsService`: the locked reads, the inserts and updates, what they
answer, which row writes they make and which rows they lock.  `statements`
packs them as the statements of a store, so that one transaction alone and
many at once are the two semantics of `LedgerEngine.Async.TwoPhase`.

Ids and times the server draws come with the transaction (`Draws`): primary
keys from `gen_random_uuid()`, `now()`, which PostgreSQL fixes when the
transaction starts, and `new Date()` in the service.  A drawn id that is taken
is refused by the primary key.  JavaScript's numbers and what the `bigint` columns
keep of them are a parameter (`Arith`).
-/

import LedgerEngine.Async.TwoPhase
import LedgerEngine.Common.Exceptions
import LedgerEngine.Ledger.Entities

namespace LedgerEngine
namespace Ledger

/-- How a JavaScript number holds an integer, and what a `bigint` column keeps of
the number. -/
structure Arith where
  /-- The number nearest to an integer: to an exact result, or to what a column holds. -/
  round : ℤ → ℤ
  /-- The integer a number is written as. -/
  column : ℤ → ℤ
  /-- The column accepts the number. -/
  storable : ℤ → Bool
  /-- There is no sign before the text of a number that is not negative. -/
  column_nonneg : ∀ n, 0 ≤ n → 0 ≤ column n

/-- Exact integer arithmetic, over columns that accept what `storable` says. -/
def Arith.exact (storable : ℤ → Bool) : Arith := ⟨id, id, storable, fun _ h => h⟩

@[simp] theorem Arith.round_exact (storable : ℤ → Bool) (n : ℤ) :
    (Arith.exact storable).round n = n := rfl

@[simp] theorem Arith.column_exact (storable : ℤ → Bool) (n : ℤ) :
    (Arith.exact storable).column n = n := rfl

/-- What the server and the clock supply to one transaction. -/
structure Draws where
  transactionId : Uuid
  ledgerEntryId : ℕ → Uuid
  outboxEventId : Uuid
  /-- `now()`: the start of the database transaction. -/
  startedAt : Time
  /-- `new Date()` when the service asks for it. -/
  clock : Time

/-- Draws whose ids all end in the given text. -/
def drawsEnding (s : String) : Draws where
  transactionId := .ofText (js ("transaction" ++ s))
  ledgerEntryId i := .ofText (js ("ledgerEntry" ++ s) ++ [i.toUInt16])
  outboxEventId := .ofText (js ("outboxEvent" ++ s))
  startedAt := 0
  clock := 1

/-- A transaction row to insert, its id and times left to the server. -/
structure NewTransaction where
  type : TransactionType
  status : TransactionStatus
  amount : ℤ
  currency : JsString
  fromAccountId : Option Uuid
  toAccountId : Option Uuid
  description : Option JsString

/-- A ledger entry to insert. -/
structure NewLedgerEntry where
  transactionId : Uuid
  accountId : Option Uuid
  ledgerAccount : Option JsString
  entryType : LedgerEntryType
  amount : ℤ
  currency : JsString

/-- An outbox event to insert. -/
structure NewOutboxEvent where
  aggregateType : JsString
  aggregateId : Uuid
  transactionId : Uuid
  eventType : JsString
  payload : TransactionCompletedPayload
  status : OutboxStatus

/-- The row an insert into `transactions` makes; the description as it was given, unpaired
surrogates included. -/
def NewTransaction.row (d : Draws) (t : NewTransaction) : TransactionEntity where
  id := d.transactionId
  type := t.type
  status := t.status
  amount := t.amount
  currency := t.currency
  fromAccountId := t.fromAccountId
  toAccountId := t.toAccountId
  description := t.description
  completedAt := none
  createdAt := d.startedAt

/-- The row the `i`-th entry of an insert into `ledger_entries` makes. -/
def NewLedgerEntry.row (d : Draws) (i : ℕ) (e : NewLedgerEntry) : LedgerEntryEntity where
  id := d.ledgerEntryId i
  transactionId := e.transactionId
  accountId := e.accountId
  ledgerAccount := e.ledgerAccount
  entryType := e.entryType
  amount := e.amount
  currency := e.currency
  createdAt := d.startedAt

/-- The row an insert into `outbox_events` makes, with the column defaults. -/
def NewOutboxEvent.row (d : Draws) (e : NewOutboxEvent) : OutboxEventEntity where
  id := d.outboxEventId
  aggregateType := e.aggregateType
  aggregateId := e.aggregateId
  eventType := e.eventType
  payload := e.payload
  status := e.status
  retryCount := 0
  nextRetryAt := none
  publishedAt := none
  transactionId := e.transactionId
  createdAt := d.startedAt
  updatedAt := d.startedAt

/-- What the table keeps of an account. -/
def storedAccount (ar : Arith) (a : AccountEntity) : AccountEntity :=
  { a with balance := ar.column a.balance }

/-- Of a transaction. -/
def storedTransaction (ar : Arith) (t : TransactionEntity) : TransactionEntity :=
  { t with amount := ar.column t.amount }

/-- Of a ledger entry. -/
def storedEntry (ar : Arith) (e : LedgerEntryEntity) : LedgerEntryEntity :=
  { e with amount := ar.column e.amount }

/-- Of an outbox event, whose payload is JSON: a number in it is its text. -/
def storedEvent (ar : Arith) (v : OutboxEventEntity) : OutboxEventEntity :=
  { v with payload := { v.payload with amount := ar.column v.payload.amount } }

/-- The rows one insert into `ledger_entries` makes. -/
def entryRows (d : Draws) (es : List NewLedgerEntry) : List LedgerEntryEntity :=
  es.zipIdx.map fun e => e.1.row d e.2

/-- The calls of the services to the transaction's manager.  `manager.save` of
an entity without an id is an insert, of one with an id an update; a query that
locks several rows is one `findAccountForUpdate` for each of them. -/
inductive Statement : Type
  | findAccountForUpdate (id : Uuid)
  | insertTransaction (t : NewTransaction)
  | saveAccount (a : AccountEntity)
  | insertLedgerEntries (es : List NewLedgerEntry)
  | newDate
  | saveTransaction (t : TransactionEntity)
  | insertOutboxEvent (e : NewOutboxEvent)

/-- What each statement resolves with. -/
abbrev Statement.Res : Statement → Type
  | .findAccountForUpdate _ => Option AccountEntity
  | .insertTransaction _ => TransactionEntity
  | .saveAccount _ => AccountEntity
  | .insertLedgerEntries _ => List LedgerEntryEntity
  | .newDate => Time
  | .saveTransaction _ => TransactionEntity
  | .insertOutboxEvent _ => OutboxEventEntity

/-- A row of one of the four tables. -/
inductive RowKey : Type
  | account (id : Uuid)
  | transaction (id : Uuid)
  | ledgerEntry (id : Uuid)
  | outboxEvent (id : Uuid)
  deriving DecidableEq

/-- A write of one row. -/
inductive RowWrite : Type
  | putAccount (a : AccountEntity)
  | addTransaction (t : TransactionEntity)
  | putTransaction (t : TransactionEntity)
  | addLedgerEntry (e : LedgerEntryEntity)
  | addOutboxEvent (e : OutboxEventEntity)

def RowWrite.key : RowWrite → RowKey
  | .putAccount a => .account a.id
  | .addTransaction t | .putTransaction t => .transaction t.id
  | .addLedgerEntry e => .ledgerEntry e.id
  | .addOutboxEvent e => .outboxEvent e.id

def RowWrite.apply : RowWrite → Db → Db
  | .putAccount a, db => { db with accounts := db.accounts.put a }
  | .addTransaction t, db => { db with transactions := db.transactions.insert t }
  | .putTransaction t, db => { db with transactions := db.transactions.put t }
  | .addLedgerEntry e, db => { db with ledgerEntries := db.ledgerEntries.insert e }
  | .addOutboxEvent e, db => { db with outboxEvents := db.outboxEvents.insert e }

/-- A primary key or a column type refuses the statement. -/
def duplicateKey (constraint : String) : Exception :=
  .queryFailed (js "duplicate key value violates unique constraint " ++ js constraint)

def outOfRange : Exception := .queryFailed (js "value is out of range for type bigint")

/-- What a statement answers and writes on the state the transaction sees. -/
def exec (ar : Arith) (d : Draws) :
    (s : Statement) → Db → Except Exception s.Res × List RowWrite
  -- `bigintTransformer.from` reads the balance as a JavaScript number
  | .findAccountForUpdate id, db =>
      (.ok ((db.accounts.find? id).map fun a => { a with balance := ar.round a.balance }), [])
  | .insertTransaction t, db =>
      if (db.transactions.find? d.transactionId).isSome then
        (.error (duplicateKey "PK_transactions_id"), [])
      else if ar.storable t.amount then
        (.ok (t.row d), [.addTransaction (storedTransaction ar (t.row d))])
      else (.error outOfRange, [])
  | .saveAccount a, _ =>
      if ar.storable a.balance then
        (.ok { a with updatedAt := d.startedAt },
          [.putAccount (storedAccount ar { a with updatedAt := d.startedAt })])
      else (.error outOfRange, [])
  | .insertLedgerEntries es, db =>
      if ((entryRows d es).map LedgerEntryEntity.id).Nodup ∧
          ∀ e ∈ entryRows d es, db.ledgerEntries.find? e.id = none then
        if es.all fun e => ar.storable e.amount then
          (.ok (entryRows d es), (entryRows d es).map fun e => .addLedgerEntry (storedEntry ar e))
        else (.error outOfRange, [])
      else (.error (duplicateKey "PK_ledger_entries_id"), [])
  | .newDate, _ => (.ok d.clock, [])
  | .saveTransaction t, _ =>
      if ar.storable t.amount then (.ok t, [.putTransaction (storedTransaction ar t)])
      else (.error outOfRange, [])
  | .insertOutboxEvent e, db =>
      if (db.outboxEvents.find? d.outboxEventId).isSome then
        (.error (duplicateKey "PK_outbox_events_id"), [])
      else (.ok (e.row d), [.addOutboxEvent (storedEvent ar (e.row d))])

/-- The rows a statement locks.  A locked read of a missing row locks nothing;
a write locks its row, an insert the key it claims and the rows its foreign
keys refer to. -/
def locks (d : Draws) : Statement → Db → List RowKey
  | .findAccountForUpdate id, db => if (db.accounts.find? id).isSome then [.account id] else []
  | .insertTransaction t, _ =>
      .transaction d.transactionId ::
        (t.fromAccountId.toList ++ t.toAccountId.toList).map .account
  | .saveAccount a, _ => [.account a.id]
  | .insertLedgerEntries es, _ =>
      (entryRows d es).map (fun e => .ledgerEntry e.id) ++
        es.map (fun e => .transaction e.transactionId) ++
        (es.filterMap NewLedgerEntry.accountId).map .account
  | .newDate, _ => []
  | .saveTransaction t, _ => [.transaction t.id]
  | .insertOutboxEvent e, _ => [.outboxEvent d.outboxEventId, .transaction e.transactionId]

/-- The two states hold the same row under a key. -/
def SameRow : RowKey → Db → Db → Prop
  | .account id, db, db' => db.accounts.find? id = db'.accounts.find? id
  | .transaction id, db, db' => db.transactions.find? id = db'.transactions.find? id
  | .ledgerEntry id, db, db' => db.ledgerEntries.find? id = db'.ledgerEntries.find? id
  | .outboxEvent id, db, db' => db.outboxEvents.find? id = db'.outboxEvents.find? id

/-- The two states have the same accounts, whatever their balances. -/
def SameAccountIds (db db' : Db) : Prop :=
  db.accounts.rows.map AccountEntity.id = db'.accounts.rows.map AccountEntity.id

/-- The statements of a money movement, as the statements of a store. -/
def statements (ar : Arith) :
    TwoPhase.Statements Statement Statement.Res Exception Db Draws RowKey RowWrite where
  exec := exec ar
  apply := RowWrite.apply
  keyOf := RowWrite.key
  locks := locks
  same := SameRow
  frozen := SameAccountIds

/-- The body of a `dataSource.transaction` callback. -/
abbrev Query := Prog Statement Statement.Res Exception

def findAccountForUpdate (id : Uuid) : Query (Option AccountEntity) :=
  .await (Statement.findAccountForUpdate id)

def insertTransaction (t : NewTransaction) : Query TransactionEntity :=
  .await (Statement.insertTransaction t)

def saveAccount (a : AccountEntity) : Query AccountEntity := .await (Statement.saveAccount a)

def insertLedgerEntries (es : List NewLedgerEntry) : Query (List LedgerEntryEntity) :=
  .await (Statement.insertLedgerEntries es)

def newDate : Query Time := .await Statement.newDate

def saveTransaction (t : TransactionEntity) : Query TransactionEntity :=
  .await (Statement.saveTransaction t)

def insertOutboxEvent (e : NewOutboxEvent) : Query OutboxEventEntity :=
  .await (Statement.insertOutboxEvent e)

end Ledger
end LedgerEngine
