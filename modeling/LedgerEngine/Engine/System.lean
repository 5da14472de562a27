/-
# The whole engine

Any number of clients send write requests, retries among them, while the pollers
dispatch events, the workers deliver them and the reconciliation job runs: `system` is
the pool of all of them over one world.

| thread | program | source |
| --- | --- | --- |
| `request r` | the pipe, then `execute` around one service call | `src/modules/*/*.controller.ts` |
| `webhook call` | a poll, a job of the queue, a dispatch, a delivery | `src/jobs`, `src/modules/webhooks` |
| `reconcile service` | `runReconciliation` | `src/modules/reconciliation` |

A call of the ledger is a whole `dataSource.transaction`; that its statements run one by one
between those of others makes no difference (`LedgerEngine.Engine.Interleaved`).  Any call of
the database may be refused, or have its effect and lose its answer.
-/

import LedgerEngine.Api.Responses
import LedgerEngine.Async.Composition
import LedgerEngine.Idempotency.Stages
import LedgerEngine.Reconciliation.Service
import LedgerEngine.Webhooks.Stages

namespace LedgerEngine

/-- The key of an idempotency record has the endpoint in it. -/
def Idempotency.WriteEndpoint.path : Idempotency.WriteEndpoint → JsString
  | .createAccount => js "POST:/accounts"
  | .deposit => js "POST:/transactions/deposit"
  | .withdraw => js "POST:/transactions/withdraw"
  | .transfer => js "POST:/transactions/transfer"
  | .registerWebhook => js "POST:/webhooks"

namespace Engine

open Api (WriteRequest accept accountJson transactionJson webhookJson)
open Idempotency (Body OperationResult Validators WriteEndpoint)
open Ledger (AccountResponse Arith CreateAccountDto Draws Movement TransactionResponse)
open Webhooks (NewSubscription SavedSubscription StorageCall WebhookRequest)

/-- What the engine is given: JavaScript's numbers and the `bigint` columns, the `jsonb`
column of the records, the checks of `validator`, SHA-256 and the settings of the
queue. -/
structure Env where
  arith : Arith
  column : Jsonb
  validators : Validators
  sha256 : ByteArray → List UInt8
  webhooks : Webhooks.Config

/-- The hash of a request's body. -/
abbrev Env.requestHash (env : Env) : WriteEndpoint → Body → JsString :=
  Idempotency.requestHash env.validators env.sha256

/-- A write request as it arrives. -/
structure HttpRequest where
  endpoint : WriteEndpoint
  idempotencyKey : Option JsString
  body : Body

/-! ### The world -/

/-- The tables, the queue, and what is kept of the past: the requests that have arrived
and what `fetch` was called with, newest first, with the delivery each request was for.
The outbox events are those of `webhooks`. -/
structure World where
  accounts : Table AccountEntity
  transactions : Table TransactionEntity
  ledgerEntries : Table LedgerEntryEntity
  idempotency : Idempotency.World
  webhooks : Webhooks.World
  reconciliation : Reconciliation.World
  received : List HttpRequest
  sent : List (Uuid × WebhookRequest)

/-- The engine after the migration, before the first request. -/
def World.empty : World where
  accounts := .empty
  transactions := .empty
  ledgerEntries := .empty
  idempotency := .empty
  webhooks := ⟨.empty, .empty, .empty, .empty, [], []⟩
  reconciliation := .empty
  received := []
  sent := []

/-- The tables of the ledger. -/
def World.db (w : World) : Db :=
  ⟨w.accounts, w.transactions, w.ledgerEntries, w.webhooks.outboxEvents⟩

def World.withDb (w : World) (db : Db) : World :=
  { w with
    accounts := db.accounts
    transactions := db.transactions
    ledgerEntries := db.ledgerEntries
    webhooks := { w.webhooks with outboxEvents := db.outboxEvents } }

@[simp] theorem World.db_withDb (w : World) (db : Db) : (w.withDb db).db = db := rfl

@[simp] theorem World.withDb_db (w : World) : w.withDb w.db = w := rfl

/-! ### The calls -/

/-- A call of the ledger: one insert, or one database transaction. -/
inductive LedgerCall : Type
  | createAccount (dto : CreateAccountDto)
  | transaction (m : Movement)

abbrev LedgerCall.Res : LedgerCall → Type
  | .createAccount _ => AccountResponse
  | .transaction _ => TransactionResponse

/-- A call of any of the services.  `record` is one of the idempotency service other than
the operation it is handed, which is carried out by calls of its own. -/
inductive Command : Type
  | record (c : Idempotency.Command)
  | ledger (c : LedgerCall)
  | webhooks (c : StorageCall)
  | reconcile (c : Reconciliation.Command)

abbrev Command.Res : Command → Type
  | .record c => c.Res
  | .ledger c => c.Res
  | .webhooks c => c.Res
  | .reconcile c => c.Res

/-- What is drawn for one call. -/
structure Draw where
  fault : Option (Fault Exception)
  record : Idempotency.Draw
  webhooks : Webhooks.Draw
  reconcile : Reconciliation.Draw
  /-- The id and the time of an account. -/
  id : Uuid
  now : Time
  /-- What a movement draws, and the faults of its statements and its commit. -/
  draws : Draws
  faults : List (Option Exception)
  commitFault : Option Exception

/-- A call of the ledger that meets no fault of its own. -/
def ledgerAnswer (ar : Arith) (ω : Draw) : Prog.Handler LedgerCall LedgerCall.Res Exception Db
  | .createAccount dto => Ledger.createAccount ω.id ω.now dto
  | .transaction m => Ledger.transactionWithFaults ar ω.draws ω.faults ω.commitFault (m.body ar)

/-- The request that a call hands to `fetch`, if it is one. -/
def posted : StorageCall → List (Uuid × WebhookRequest)
  | .command (.fetch deliveryId request) => [(deliveryId, request)]
  | _ => []

/-- A call, with what was drawn for it. -/
def exec (env : Env) (ω : Draw) : Prog.Handler Command Command.Res Exception World
  | .record c, w =>
      let settled := Idempotency.exec env.column ω.record c w.idempotency
      (settled.1, { w with idempotency := settled.2 })
  | .ledger c, w =>
      let settled := (ledgerAnswer env.arith ω).meet ω.fault c w.db
      (settled.1, w.withDb settled.2)
  | .webhooks c, w =>
      let settled := Webhooks.storageExec ω.webhooks c w.webhooks
      (settled.1, { w with webhooks := settled.2, sent := posted c ++ w.sent })
  | .reconcile c, w =>
      let settled := Reconciliation.exec { ω.reconcile with snapshot := w.db } c w.reconciliation
      (settled.1, { w with reconciliation := settled.2 })

/-! ### The programs -/

abbrev Service := Prog Command Command.Res Exception

/-- The operation a controller hands to `execute`. -/
def operation : WriteRequest → Service OperationResult
  | .createAccount dto => do
      let account : AccountResponse ← .await (Command.ledger (.createAccount dto))
      return { statusCode := 201, body := accountJson account, transactionId := none }
  | .move m => do
      let transaction : TransactionResponse ← .await (Command.ledger (.transaction m))
      return { statusCode := 201, body := transactionJson transaction,
               transactionId := some transaction.id }
  | .registerWebhook dto => do
      let webhook ← (Webhooks.registerWebhook dto).expand fun c => .await (Command.webhooks c)
      return { statusCode := 201, body := webhookJson webhook, transactionId := none }

/-- What `execute` calls: a call of its repository, or the operation. -/
def perform (request : WriteRequest) : (c : Idempotency.Command) → Service c.Res
  | .operation _ _ => operation request
  | c => .await (Command.record c)

/-- What the pipe throws. -/
def badRequest : Exception :=
  .http 400 (.inr (.obj [(js "statusCode", .num 400), (js "error", .str (js "Bad Request"))]))

/-- A write request: the pipe, then the controller. -/
def handle (env : Env) (r : HttpRequest) : Service Json :=
  match accept env.validators r.endpoint r.body with
  | none => throw badRequest
  | some request =>
      (Idempotency.execute (env.requestHash r.endpoint) r.endpoint.path r.idempotencyKey
        r.body).expand (perform request)

/-- What a thread runs. -/
inductive Task : Type
  | request (r : HttpRequest)
  | webhook (call : Webhooks.Call)
  | reconcile (service : ℕ)

/-- The body a thread answers with, if it is a request. -/
def body (env : Env) : Task → Service (Option Json)
  | .request r => do
      let answer ← handle env r
      return some answer
  | .webhook call => do
      ((Webhooks.system env.webhooks).body call).expand fun c =>
        .await (Command.webhooks (.command c))
      return none
  | .reconcile service => do
      let _ ← (Reconciliation.runReconciliation env.arith service).expand fun c =>
        .await (Command.reconcile c)
      return none

/-- A request that arrives is noted; a worker takes its job. -/
def spawn (env : Env) : Task → World → Option World
  | .request r, w => some { w with received := r :: w.received }
  | .webhook call, w =>
      ((Webhooks.system env.webhooks).spawn call w.webhooks).map fun webhooks =>
        { w with webhooks }
  | .reconcile _, w => some w

end Engine
end LedgerEngine
