/-
# The idempotency service

`IdempotencyService.execute` (`src/modules/idempotency/idempotency.service.ts`)
as a program over the calls it awaits: those of its repository and the
operation it was handed.  `exec` answers them over the table of
`idempotency_records`, whose unique `(endpoint, idempotency_key)` is part of the
table's type, and notes which requests' operations were invoked and which have
taken effect.

What a call meets is drawn with it (`Draw`): the id and time of the server, the
outcome of the operation, and a fault.
-/

import LedgerEngine.Async.Pool
import LedgerEngine.Common.Exceptions
import LedgerEngine.Store.Indexed

namespace LedgerEngine
namespace Idempotency

inductive IdempotencyStatus : Type
  | processing
  | completed
  | failed
  deriving DecidableEq

/-- A row of `idempotency_records`; `responseBody` is `null` where the column is. -/
structure IdempotencyRecordEntity where
  id : Uuid
  endpoint : JsString
  idempotencyKey : JsString
  requestHash : JsString
  status : IdempotencyStatus
  transactionId : Option Uuid
  responseCode : Option ℕ
  responseBody : Json
  createdAt : Time
  updatedAt : Time

instance : Keyed IdempotencyRecordEntity Uuid := ⟨IdempotencyRecordEntity.id⟩

/-- `UQ_idempotency_records_endpoint_key`. -/
instance : Indexed IdempotencyRecordEntity (JsString × JsString) :=
  ⟨fun r => (r.endpoint, r.idempotencyKey)⟩

/-- What the operation resolves with. -/
structure OperationResult where
  statusCode : ℕ
  body : Json
  transactionId : Option Uuid

/-- How the operation settles. -/
inductive Outcome : Type
  | resolve (result : OperationResult)
  | reject (error : Exception)

/-- The columns an `update` or `save` sets; `transactionId` may be left alone. -/
structure Patch where
  status : IdempotencyStatus
  responseCode : Option ℕ
  responseBody : Json
  transactionId : Option (Option Uuid)

/-- A row with the columns of a patch, its body as the `jsonb` column keeps it. -/
def Patch.apply (column : Jsonb) (now : Time) (p : Patch) (r : IdempotencyRecordEntity) :
    IdempotencyRecordEntity :=
  { r with
    status := p.status
    responseCode := p.responseCode
    responseBody := column.store p.responseBody
    transactionId := p.transactionId.getD r.transactionId
    updatedAt := now }

def Patch.change (column : Jsonb) (now : Time) (p : Patch) : Change IdempotencyRecordEntity where
  apply := p.apply column now
  key_apply _ := rfl
  index_apply _ := rfl

/-- A record to insert. -/
structure NewRecord where
  endpoint : JsString
  idempotencyKey : JsString
  requestHash : JsString
  status : IdempotencyStatus

def NewRecord.row (id : Uuid) (now : Time) (r : NewRecord) : IdempotencyRecordEntity where
  id := id
  endpoint := r.endpoint
  idempotencyKey := r.idempotencyKey
  requestHash := r.requestHash
  status := r.status
  transactionId := none
  responseCode := none
  responseBody := .null
  createdAt := now
  updatedAt := now

/-- What `execute` awaits.  `operation` is the closure it was handed, named by
the request it was handed for. -/
inductive Command : Type
  | findOne (endpoint idempotencyKey : JsString)
  | update (id : Uuid) (p : Patch)
  | insert (r : NewRecord)
  | findOneOrFail (endpoint idempotencyKey : JsString)
  | operation (endpoint idempotencyKey : JsString)
  | save (id : Uuid) (p : Patch)

/-- What each call resolves with. -/
abbrev Command.Res : Command → Type
  | .findOne _ _ => Option IdempotencyRecordEntity
  | .update _ _ => Unit
  | .insert _ => Unit
  | .findOneOrFail _ _ => IdempotencyRecordEntity
  | .operation _ _ => OperationResult
  | .save _ _ => Unit

/-- What is drawn for one call. -/
structure Draw where
  fault : Option (Fault Exception)
  id : Uuid
  now : Time
  outcome : Outcome

/-- The records and, newest first, the requests whose operation was invoked and
those whose operation took effect, one entry each time. -/
structure World where
  records : IndexedTable IdempotencyRecordEntity
  invocations : List (JsString × JsString)
  commits : List (JsString × JsString)

/-- The world before any request. -/
def World.empty : World := ⟨.empty, [], []⟩

def duplicateRecord : Exception :=
  .queryFailed (js "duplicate key value violates unique constraint")

def entityNotFound : Exception :=
  .error (js "Could not find any entity of type \"IdempotencyRecordEntity\"")

/-- A call that goes through. -/
def answer (column : Jsonb) (ω : Draw) : (c : Command) → World → Except Exception c.Res × World
  | .findOne endpoint key, w => (.ok (w.records.lookup (endpoint, key)), w)
  | .update id p, w =>
      (.ok (), { w with records := w.records.update id (p.change column ω.now) })
  | .insert r, w =>
      match w.records.insert? (r.row ω.id ω.now) with
      | some records => (.ok (), { w with records })
      | none => (.error duplicateRecord, w)
  | .findOneOrFail endpoint key, w =>
      match w.records.lookup (endpoint, key) with
      | some r => (.ok r, w)
      | none => (.error entityNotFound, w)
  | .operation endpoint key, w =>
      match ω.outcome with
      | .resolve result =>
          (.ok result, { w with
            invocations := (endpoint, key) :: w.invocations
            commits := (endpoint, key) :: w.commits })
      | .reject e => (.error e, { w with invocations := (endpoint, key) :: w.invocations })
  | .save id p, w =>
      (.ok (), { w with records := w.records.update id (p.change column ω.now) })

/-- A call, with what was drawn for it. -/
def exec (column : Jsonb) (ω : Draw) : Prog.Handler Command Command.Res Exception World :=
  Prog.Handler.meet (answer column ω) ω.fault

/-! ### The service -/

abbrev Service := Prog Command Command.Res Exception

def findOne (endpoint key : JsString) : Service (Option IdempotencyRecordEntity) :=
  .await (Command.findOne endpoint key)

def update (id : Uuid) (p : Patch) : Service Unit := .await (Command.update id p)

def insert (r : NewRecord) : Service Unit := .await (Command.insert r)

def findOneOrFail (endpoint key : JsString) : Service IdempotencyRecordEntity :=
  .await (Command.findOneOrFail endpoint key)

def operation (endpoint key : JsString) : Service OperationResult :=
  .await (Command.operation endpoint key)

def save (id : Uuid) (p : Patch) : Service Unit := .await (Command.save id p)

def assertRequestHash (existingHash requestHash : JsString) : Service Unit :=
  if existingHash ≠ requestHash then throw (.domain .idempotencyPayloadMismatch) else pure ()

/-- The status and body a rejection is stored with. -/
def normalizeError : Exception → Except Exception (ℕ × Json)
  | .domain e => .ok (e.getStatus, e.getResponse)
  | .http status (.inl response) =>
      .ok (status, .obj [(js "message", .str response), (js "statusCode", .num status)])
  | .http status (.inr response) => .ok (status, response)
  | .queryFailed message | .error message =>
      .ok (500, .obj [(js "message", .str message), (js "statusCode", .num 500)])
  | .notAnError =>
      .error (.http 500 (.inr (.obj
        [(js "message", .str (js "Internal Server Error")), (js "statusCode", .num 500)])))

/-- A record that is replayed: completed, with a body to replay. -/
def replayable (r : IdempotencyRecordEntity) : Bool :=
  r.status = .completed && r.responseBody.truthy

/-- The patch that claims an existing record again. -/
def reclaimed : Patch where
  status := .processing
  responseCode := none
  responseBody := .null
  transactionId := some none

/-- The insert of a new record, and what is made of a conflict. -/
def insertRecord (endpoint key requestHash : JsString) : Service (Option Json) :=
  tryCatch
    (do
      insert { endpoint, idempotencyKey := key, requestHash, status := .processing }
      return none)
    fun error =>
      match error with
      | .queryFailed _ => do
          match ← findOne endpoint key with
          | some duplicate => do
              assertRequestHash duplicate.requestHash requestHash
              if replayable duplicate then return some duplicate.responseBody
              else throw error
          | none => throw error
      | _ => throw error

/-- The first half of `execute`: the record is claimed (`none`), or the method
returns the stored body or throws. -/
def claim (endpoint key requestHash : JsString) : Service (Option Json) := do
  match ← findOne endpoint key with
  | some existingRecord => do
      assertRequestHash existingRecord.requestHash requestHash
      if replayable existingRecord then return some existingRecord.responseBody
      else if existingRecord.status = .processing then
        throw (.domain .idempotencyKeyProcessing)
      else do
        update existingRecord.id reclaimed
        return none
  | none => insertRecord endpoint key requestHash

/-- The patch of an operation that resolved. -/
def completed (result : OperationResult) : Patch where
  status := .completed
  responseCode := some result.statusCode
  responseBody := result.body
  transactionId := some result.transactionId

/-- The patch of an attempt that failed. -/
def failed (normalized : ℕ × Json) : Patch where
  status := .failed
  responseCode := some normalized.1
  responseBody := normalized.2
  transactionId := none

/-- The `catch` around the operation and the save of its result. -/
def recordFailure (id : Uuid) (error : Exception) : Service Json :=
  match normalizeError error with
  | .error e => throw e
  | .ok normalized => do
      save id (failed normalized)
      throw error

/-- The second half of `execute`: the operation runs for the claimed record. -/
def runClaimed (endpoint key : JsString) : Service Json := do
  let record ← findOneOrFail endpoint key
  tryCatch
    (do
      let result ← operation endpoint key
      save record.id (completed result)
      return result.body)
    (recordFailure record.id)

/-- The two halves for a request that has a key. -/
def executeWithKey (endpoint key requestHash : JsString) : Service Json := do
  match ← claim endpoint key requestHash with
  | some body => return body
  | none => runClaimed endpoint key

/-- `IdempotencyService.execute`; `createPayloadHash` is the hash of the
payload's JSON text. -/
def execute {π : Type} (createPayloadHash : π → JsString) (endpoint : JsString)
    (idempotencyKey : Option JsString) (payload : π) : Service Json :=
  match idempotencyKey with
  | none | some [] => throw (.domain .idempotencyKeyRequired)
  | some key => executeWithKey endpoint key (createPayloadHash payload)

end Idempotency
end LedgerEngine
