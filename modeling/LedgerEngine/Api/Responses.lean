/-
# What the endpoints answer

The bodies of the responses as JSON, the members in the order of the source.  A `Date`
is written by `toISOString`, an invalid one as `null`, and a `bigint` column read by
`bigintTransformer` is a JavaScript number.

The endpoints that read are `getBalance` and `getStatement`
(`src/modules/accounts/accounts.service.ts`) and `getTransaction`
(`src/modules/transactions/transactions.service.ts`); they take the tables as they are
committed when each of their queries runs.
-/

import LedgerEngine.Api.Requests
import LedgerEngine.Common.IsoDate
import LedgerEngine.Ledger.Statement
import LedgerEngine.Ops.Service

namespace LedgerEngine

/-- The value of the enumeration in the API and in the database. -/
def TransactionType.text : TransactionType → JsString
  | .deposit => js "deposit"
  | .withdrawal => js "withdrawal"
  | .transfer => js "transfer"

/-- The value of the enumeration in the API and in the database. -/
def TransactionStatus.text : TransactionStatus → JsString
  | .pending => js "pending"
  | .completed => js "completed"
  | .failed => js "failed"

/-- The value of the enumeration in the API and in the database. -/
def LedgerEntryType.text : LedgerEntryType → JsString
  | .debit => js "debit"
  | .credit => js "credit"

namespace Json

/-- `Date.prototype.toJSON`. -/
def date (t : Time) : Json := if IsoDate.IsValid t then .str (IsoDate.toISOString t) else .null

/-- A value that may be `null`. -/
def nullable {α : Type} (f : α → Json) : Option α → Json
  | some a => f a
  | none => .null

def uuid (id : Uuid) : Json := .str id.text

end Json

namespace Api

open Ledger (AccountResponse Arith TransactionResponse toTransactionResponse)
open Paging (OrderBy)
open Webhooks (RegisteredWebhook)

/-! ### Bodies -/

def accountJson (r : AccountResponse) : Json :=
  .obj [(js "id", .uuid r.id), (js "currency", .str r.currency), (js "balance", .num r.balance),
    (js "status", .str r.status.text), (js "createdAt", .date r.createdAt)]

def transactionJson (r : TransactionResponse) : Json :=
  .obj [(js "id", .uuid r.id), (js "type", .str r.type.text), (js "status", .str r.status.text),
    (js "amount", .num r.amount), (js "currency", .str r.currency),
    (js "fromAccountId", .nullable .uuid r.fromAccountId),
    (js "toAccountId", .nullable .uuid r.toAccountId),
    (js "description", .nullable .str r.description),
    (js "completedAt", .nullable .date r.completedAt), (js "createdAt", .date r.createdAt)]

def webhookJson (r : RegisteredWebhook) : Json :=
  .obj [(js "id", .uuid r.id), (js "targetUrl", .str r.targetUrl),
    (js "eventType", .str r.eventType), (js "status", .str r.status.text),
    (js "createdAt", .date r.createdAt)]

/-! ### Queries -/

/-- The entity of a transaction: `bigintTransformer.from` reads the amount. -/
def readTransaction (ar : Arith) (t : TransactionEntity) : TransactionEntity :=
  { t with amount := ar.round t.amount }

/-- A parameter of a path, as PostgreSQL reads it for a `uuid` column. -/
def uuidParameter (text : JsString) : Except Exception Uuid :=
  match Ops.readUuid text with
  | some id => .ok id
  | none => .error (Ops.invalidUuid text)

/-- `TransactionsService.getTransaction`. -/
def getTransaction (ar : Arith) (db : Db) (transactionId : JsString) :
    Except Exception TransactionResponse := do
  let id ← uuidParameter transactionId
  match db.transactions.find? id with
  | none => throw (.domain (.transactionNotFound transactionId))
  | some t => return toTransactionResponse (readTransaction ar t)

/-- What `getBalance` answers. -/
structure BalanceResponse where
  accountId : Uuid
  currency : JsString
  balance : ℤ
  status : AccountStatus
  updatedAt : Time
  deriving DecidableEq

/-- `accountsRepository.findOne` with the id of a path. -/
def findAccount (ar : Arith) (db : Db) (accountId : JsString) :
    Except Exception AccountEntity := do
  let id ← uuidParameter accountId
  match db.accounts.find? id with
  | none => throw (.domain (.accountNotFound accountId))
  | some row => return Ledger.Posting.read ar row

/-- `AccountsService.getBalance`. -/
def getBalance (ar : Arith) (db : Db) (accountId : JsString) :
    Except Exception BalanceResponse := do
  let account ← findAccount ar db accountId
  return {
    accountId := account.id
    currency := account.currency
    balance := account.balance
    status := account.status
    updatedAt := account.updatedAt }

/-- A line of a statement. -/
structure StatementLine where
  id : Uuid
  transactionId : Uuid
  entryType : LedgerEntryType
  amount : ℤ
  currency : JsString
  createdAt : Time
  transactionType : TransactionType
  transactionStatus : TransactionStatus
  description : Option JsString
  deriving DecidableEq

/-- The line of an entry; a property of its transaction is read where there may be
none. -/
def statementLine (db : Db) (entry : LedgerEntryEntity) : Except Exception StatementLine :=
  match db.transactions.find? entry.transactionId with
  | some transaction => .ok {
      id := entry.id
      transactionId := entry.transactionId
      entryType := entry.entryType
      amount := entry.amount
      currency := entry.currency
      createdAt := entry.createdAt
      transactionType := transaction.type
      transactionStatus := transaction.status
      description := transaction.description }
  | none => .error Webhooks.typeError

/-- What `getStatement` answers. -/
structure StatementResponse where
  accountId : Uuid
  currency : JsString
  entries : List StatementLine
  deriving DecidableEq

/-- `AccountsService.getStatement`: the account as the first query finds it, the
entries as the second does.  `limit` has its default. -/
def getStatement (ar : Arith) (sort : OrderBy LedgerEntryEntity.createdAt) (db db' : Db)
    (accountId : JsString) (limit : Option ℕ) : Except Exception StatementResponse := do
  let account ← findAccount ar db accountId
  let id ← uuidParameter accountId
  let entries ← (Ledger.getAccountStatement ar sort db' id (limit.getD 20)).mapM
    (statementLine db')
  return { accountId := account.id, currency := account.currency, entries }

end Api
end LedgerEngine
