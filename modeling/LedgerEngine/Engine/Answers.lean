/-
# Where a write request is

A request passes through the stages of `RequestStage`: those of `execute`, the operation
being one call of the ledger or of the subscriptions.  A request that returns has been
answered with the body that stage names: the body of the record it found, or that of the
result it has saved (`handle_follows`).
-/

import LedgerEngine.Engine.System

namespace LedgerEngine
namespace Engine

open Api (WriteRequest accept accountJson transactionJson webhookJson)
open Idempotency (OperationResult completed failed normalizeError reclaimed replayable)
open Webhooks (NewSubscription RegisterWebhookDto RegisteredWebhook SavedSubscription)

/-- What a request is about to do. -/
inductive RequestStage : Type
  /-- look its record up -/
  | entering
  /-- move the record with this id back to PROCESSING -/
  | reclaiming (id : Uuid)
  /-- insert a record -/
  | inserting
  /-- look up the record that made its insert fail -/
  | racing
  /-- reload the record it has claimed -/
  | claimed
  /-- run the operation -/
  | operating (id : Uuid)
  /-- save the result -/
  | completing (id : Uuid) (result : OperationResult)
  /-- save the failure -/
  | failing (id : Uuid)
  /-- nothing: it returns this body -/
  | answered (body : Json)
  /-- nothing any more -/
  | settled

namespace RequestStage

/-- Where an error leads that the `catch` around the operation meets. -/
def caught (id : Uuid) (e : Exception) : RequestStage :=
  match normalizeError e with
  | .ok _ => failing id
  | .error _ => settled

/-- The stage once a record has been found by the first lookup. -/
def found (hash : JsString) (r : Idempotency.IdempotencyRecordEntity) : RequestStage :=
  if r.requestHash ≠ hash then settled
  else if replayable r then answered r.responseBody
  else if r.status = .processing then settled
  else reclaiming r.id

/-- The stage once a record has been found that made the insert fail. -/
def overtaken (hash : JsString) (r : Idempotency.IdempotencyRecordEntity) : RequestStage :=
  if r.requestHash ≠ hash then settled
  else if replayable r then answered r.responseBody
  else settled

/-- The stage after a call of `execute` has settled. -/
def next (hash : JsString) :
    RequestStage → (c : Idempotency.Command) → Except Exception c.Res → RequestStage
  | entering, .findOne _ _, .ok none => inserting
  | entering, .findOne _ _, .ok (some r) => found hash r
  | reclaiming _, .update _ _, .ok _ => claimed
  | inserting, .insert _, .ok _ => claimed
  | inserting, .insert _, .error (.queryFailed _) => racing
  | racing, .findOne _ _, .ok (some r) => overtaken hash r
  | claimed, .findOneOrFail _ _, .ok r => operating r.id
  | operating id, .operation _ _, .ok result => completing id result
  | operating id, .operation _ _, .error e => caught id e
  | completing _ result, .save _ _, .ok _ => answered result.body
  | completing id _, .save _ _, .error e => caught id e
  | _, _, _ => settled

/-- The calls `execute` may make at a stage. -/
inductive Allows (key : JsString × JsString) (hash : JsString) :
    RequestStage → Idempotency.Command → Prop
  | find {endpoint k : JsString} (h : (endpoint, k) = key) (hk : k ≠ []) :
      Allows key hash entering (.findOne endpoint k)
  | reclaim (id : Uuid) : Allows key hash (reclaiming id) (.update id reclaimed)
  | insert {endpoint k : JsString} (h : (endpoint, k) = key) :
      Allows key hash inserting (.insert ⟨endpoint, k, hash, .processing⟩)
  | race {endpoint k : JsString} (h : (endpoint, k) = key) :
      Allows key hash racing (.findOne endpoint k)
  | reload {endpoint k : JsString} (h : (endpoint, k) = key) :
      Allows key hash claimed (.findOneOrFail endpoint k)
  | operate (id : Uuid) {endpoint k : JsString} (h : (endpoint, k) = key) :
      Allows key hash (operating id) (.operation endpoint k)
  | complete (id : Uuid) (result : OperationResult) :
      Allows key hash (completing id result) (.save id (completed result))
  | fail (id : Uuid) (normalized : ℕ × Json) :
      Allows key hash (failing id) (.save id (failed normalized))

end RequestStage

/-! ### `execute` -/

section Execute

variable {key : JsString × JsString} {hash : JsString}

/-- The protocol of `execute`. -/
def executeProtocol (key : JsString × JsString) (hash : JsString) :
    Protocol Idempotency.Command Idempotency.Command.Res Exception RequestStage :=
  ⟨RequestStage.next hash, RequestStage.Allows key hash⟩

/-- A call that returns a body has been answered with it. -/
def Answers : Except Exception Json → RequestStage → Prop
  | .ok body, q => q = .answered body
  | .error _, _ => True

theorem recordFailure_answers (id : Uuid) (e : Exception) :
    (Idempotency.recordFailure id e).Follows (executeProtocol key hash) Answers
      (.caught id e) := by
  unfold Idempotency.recordFailure RequestStage.caught
  cases normalizeError e with
  | error e' => exact trivial
  | ok normalized => exact .await_bind (.fail id normalized) (fun _ => trivial) fun _ => trivial

/-- The stage at which an error reaches the `catch` around the operation. -/
def AnswersOrCatches (id : Uuid) : Except Exception Json → RequestStage → Prop
  | .ok body, q => q = .answered body
  | .error e, q => q = .caught id e

theorem runClaimed_answers {endpoint k : JsString} (hkey : (endpoint, k) = key) :
    (Idempotency.runClaimed endpoint k).Follows (executeProtocol key hash) Answers .claimed := by
  refine .await_bind (.reload hkey) (fun record => ?_) fun _ => trivial
  refine .tryCatch (AnswersOrCatches record.id) ?_ (fun _ _ h => h) fun e q hq => ?_
  · refine .await_bind (.operate record.id hkey) (fun result => ?_) fun _ => rfl
    exact .await_bind (.complete record.id result) (fun _ => rfl) fun _ => rfl
  · obtain rfl : q = .caught record.id e := hq
    exact recordFailure_answers ..

/-- The stages at which the first half of a call ends. -/
def Claims : Except Exception (Option Json) → RequestStage → Prop
  | .ok none, q => q = .claimed
  | .ok (some body), q => q = .answered body
  | .error _, _ => True

/-- The stages at which the insert of a record ends. -/
def Inserts : Except Exception (Option Json) → RequestStage → Prop
  | .ok none, q => q = .claimed
  | .ok (some _), _ => False
  | .error (.queryFailed _), q => q = .racing
  | .error _, _ => True

theorem insertRecord_claims {endpoint k : JsString} (hkey : (endpoint, k) = key) :
    (Idempotency.insertRecord endpoint k hash).Follows (executeProtocol key hash) Claims
      .inserting := by
  refine .tryCatch Inserts ?_ ?_ ?_
  · refine .await_bind (.insert hkey) (fun _ => rfl) fun e => ?_
    cases e <;> first | exact rfl | exact trivial
  · intro result q hq
    cases result with
    | none => exact hq
    | some _ => exact hq.elim
  · intro e q hq
    cases e with
    | queryFailed message =>
        obtain rfl : q = .racing := hq
        refine .await_bind (.race hkey) (fun duplicate => ?_) fun _ => trivial
        cases duplicate with
        | none => trivial
        | some duplicate =>
            show Prog.Follows _ _ _ (RequestStage.overtaken hash duplicate)
            unfold Idempotency.assertRequestHash RequestStage.overtaken
            dsimp only
            by_cases hhash : duplicate.requestHash ≠ hash
            · simp only [if_pos hhash]
              trivial
            · simp only [if_neg hhash, Prog.pure_eq, Prog.bind_eq, Prog.bind_ret]
              split_ifs
              · rfl
              · trivial
    | _ => trivial

theorem claim_claims {endpoint k : JsString} (hkey : (endpoint, k) = key) (hk : k ≠ []) :
    (Idempotency.claim endpoint k hash).Follows (executeProtocol key hash) Claims .entering := by
  refine .await_bind (.find hkey hk) (fun found => ?_) fun _ => trivial
  cases found with
  | none => exact insertRecord_claims hkey
  | some existingRecord =>
      show Prog.Follows _ _ _ (RequestStage.found hash existingRecord)
      unfold Idempotency.assertRequestHash RequestStage.found
      dsimp only
      by_cases hhash : existingRecord.requestHash ≠ hash
      · simp only [if_pos hhash]
        trivial
      · simp only [if_neg hhash, Prog.pure_eq, Prog.bind_eq, Prog.bind_ret]
        split_ifs
        · rfl
        · trivial
        · exact .await_bind (.reclaim existingRecord.id) (fun _ => rfl) fun _ => trivial

/-- **`execute` makes only the calls its stage allows**, and returns the body it is
answered with. -/
theorem execute_answers {π : Type} (createPayloadHash : π → JsString) (endpoint : JsString)
    (idempotencyKey : Option JsString) (payload : π) :
    (Idempotency.execute createPayloadHash endpoint idempotencyKey payload).Follows
      (executeProtocol (endpoint, idempotencyKey.getD []) (createPayloadHash payload)) Answers
      .entering := by
  unfold Idempotency.execute
  cases idempotencyKey with
  | none => trivial
  | some key =>
      cases key with
      | nil => trivial
      | cons u us =>
          refine .bind (claim_claims rfl (List.cons_ne_nil u us)) (fun claimed q hq => ?_)
            fun _ _ _ => trivial
          cases claimed with
          | none =>
              obtain rfl : q = .claimed := hq
              exact runClaimed_answers rfl
          | some body => exact hq

end Execute

/-! ### A request -/

/-- The row `registerWebhook` saves; its texts as they were given, unpaired surrogates
included. -/
def newSubscription (dto : RegisterWebhookDto) : NewSubscription where
  targetUrl := dto.targetUrl
  eventType := dto.eventType
  secret := dto.secret
  status := dto.status.getD .active

/-- What `registerWebhook` returns of the row it has saved. -/
def registered (saved : SavedSubscription) : RegisteredWebhook where
  id := saved.row.id
  targetUrl := saved.row.targetUrl
  eventType := saved.row.eventType
  status := saved.row.status
  createdAt := saved.createdAt

/-- The one call of an operation. -/
def commandOf : WriteRequest → Command
  | .createAccount dto => .ledger (.createAccount dto)
  | .move m => .ledger (.transaction m)
  | .registerWebhook dto => .webhooks (.saveSubscription (newSubscription dto))

/-- What an operation makes of what its call resolves with. -/
def resultOf : (c : Command) → c.Res → Option OperationResult
  | .ledger (.createAccount _), account => some ⟨201, accountJson account, none⟩
  | .ledger (.transaction _), transaction =>
      some ⟨201, transactionJson transaction, some transaction.id⟩
  | .webhooks (.saveSubscription _), saved => some ⟨201, webhookJson (registered saved), none⟩
  | _, _ => none

namespace RequestStage

/-- The stage once the operation has settled. -/
def performed (id : Uuid) (c : Command) : Except Exception c.Res → RequestStage
  | .ok r =>
      match resultOf c r with
      | some result => completing id result
      | none => settled
  | .error e => caught id e

/-- The stage after a call has settled. -/
def advance (hash : JsString) (q : RequestStage) :
    (c : Command) → Except Exception c.Res → RequestStage
  | .record c, r => q.next hash c r
  | c, r =>
      match q with
      | operating id => performed id c r
      | _ => settled

/-- The calls a request may make at a stage. -/
inductive Makes (env : Env) (r : HttpRequest) : RequestStage → Command → Prop
  | record {q : RequestStage} {c : Idempotency.Command}
      (h : Allows (r.endpoint.path, r.idempotencyKey.getD [])
        (env.requestHash r.endpoint r.body) q c)
      (hc : ∀ endpoint key, c ≠ .operation endpoint key) : Makes env r q (.record c)
  | operate (id : Uuid) {request : WriteRequest}
      (h : accept env.validators r.endpoint r.body = some request) :
      Makes env r (operating id) (commandOf request)

end RequestStage

/-- The protocol of a request. -/
def requestProtocol (env : Env) (r : HttpRequest) :
    Protocol Command Command.Res Exception RequestStage where
  next := RequestStage.advance (env.requestHash r.endpoint r.body)
  allows := RequestStage.Makes env r

section Handle

variable {env : Env} {r : HttpRequest} {request : WriteRequest}

/-- **An operation is one call**, and its result what the call resolves with. -/
theorem operation_follows (h : accept env.validators r.endpoint r.body = some request) (id : Uuid)
    (endpoint key : JsString) :
    (operation request).Follows (requestProtocol env r)
      (fun settled q => q = (RequestStage.operating id).next
        (env.requestHash r.endpoint r.body) (.operation endpoint key) settled)
      (.operating id) := by
  cases request with
  | createAccount dto => exact .await_bind (.operate id h) (fun _ => rfl) fun _ => rfl
  | move m => exact .await_bind (.operate id h) (fun _ => rfl) fun _ => rfl
  | registerWebhook dto =>
      refine ⟨.operate id h, fun settled => ?_⟩
      cases settled with
      | ok saved => exact rfl
      | error e => exact rfl

theorem perform_follows (h : accept env.validators r.endpoint r.body = some request)
    (q : RequestStage) (c : Idempotency.Command)
    (hc : q.Allows (r.endpoint.path, r.idempotencyKey.getD [])
      (env.requestHash r.endpoint r.body) c) :
    (perform request c).Follows (requestProtocol env r)
      (fun settled q' => q' = q.next (env.requestHash r.endpoint r.body) c settled) q := by
  cases hc with
  | operate id hkey => exact operation_follows h id _ _
  | find hkey hk => exact .await (.record (.find hkey hk) (by simp)) fun _ => rfl
  | reclaim id => exact .await (.record (.reclaim id) (by simp)) fun _ => rfl
  | insert hkey => exact .await (.record (.insert hkey) (by simp)) fun _ => rfl
  | race hkey => exact .await (.record (.race hkey) (by simp)) fun _ => rfl
  | reload hkey => exact .await (.record (.reload hkey) (by simp)) fun _ => rfl
  | complete id result => exact .await (.record (.complete id result) (by simp)) fun _ => rfl
  | fail id normalized => exact .await (.record (.fail id normalized) (by simp)) fun _ => rfl

/-- A request that returns a body has passed the pipe and been answered with it. -/
def Passes (env : Env) (r : HttpRequest) : Except Exception Json → RequestStage → Prop
  | .ok body, q => q = .answered body ∧ (accept env.validators r.endpoint r.body).isSome
  | .error _, _ => True

/-- **A write request makes only the calls its stage allows**, and returns the body it
is answered with. -/
theorem handle_follows (env : Env) (r : HttpRequest) :
    (handle env r).Follows (requestProtocol env r) (Passes env r) .entering := by
  unfold handle
  cases h : accept env.validators r.endpoint r.body with
  | none => trivial
  | some request =>
      have hexecute := execute_answers (env.requestHash r.endpoint) r.endpoint.path
        r.idempotencyKey r.body
      refine (Prog.Follows.expand_call (perform_follows h) hexecute).mono fun settled q hq => ?_
      cases settled with
      | ok body => exact ⟨hq, Option.isSome_of_eq_some h⟩
      | error e => trivial

end Handle

end Engine
end LedgerEngine
