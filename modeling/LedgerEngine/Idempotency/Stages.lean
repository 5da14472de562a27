/-
# Where a call of `execute` is

Many requests call `execute` at the same time, or one after the other with
faults between: `system` is the pool they form.  A request passes through the
stages of `Stage`; from `claimed` on it *holds* its record, which it alone is
meant to write until it has settled.  `execute_follows` says that `execute`
makes only the calls its stage allows.
-/

import LedgerEngine.Idempotency.Service

namespace LedgerEngine
namespace Idempotency

variable {π : Type}

/-- The arguments of a call of `execute`, its operation apart. -/
structure Request (π : Type) where
  endpoint : JsString
  idempotencyKey : Option JsString
  payload : π
  deriving DecidableEq

/-- What the record of a request is found by. -/
def Request.key (r : Request π) : JsString × JsString := (r.endpoint, r.idempotencyKey.getD [])

/-- What a request is about to do. -/
inductive Stage : Type
  /-- look its record up -/
  | entering
  /-- move the record with this id back to PROCESSING -/
  | reclaiming (id : Uuid)
  /-- insert a record -/
  | inserting
  /-- look up the record that made its insert fail -/
  | racing
  /-- reload the record it has claimed -/
  | claimed
  /-- run the operation -/
  | operating (id : Uuid)
  /-- save the result -/
  | completing (id : Uuid) (result : OperationResult)
  /-- save the failure -/
  | failing (id : Uuid)
  /-- nothing any more -/
  | settled

/-- Where an error leads that the `catch` around the operation meets. -/
def Stage.caught (id : Uuid) (e : Exception) : Stage :=
  match normalizeError e with
  | .ok _ => .failing id
  | .error _ => .settled

/-- The stage after a call has settled. -/
def Stage.next (requestHash : JsString) :
    Stage → (c : Command) → Except Exception c.Res → Stage
  | .entering, .findOne _ _, .ok none => .inserting
  | .entering, .findOne _ _, .ok (some r) =>
      if r.requestHash ≠ requestHash ∨ replayable r ∨ r.status = .processing then .settled
      else .reclaiming r.id
  | .reclaiming _, .update _ _, .ok _ => .claimed
  | .inserting, .insert _, .ok _ => .claimed
  | .inserting, .insert _, .error (.queryFailed _) => .racing
  | .claimed, .findOneOrFail _ _, .ok r => .operating r.id
  | .operating id, .operation _ _, .ok result => .completing id result
  | .operating id, .operation _ _, .error e => .caught id e
  | .completing id _, .save _ _, .error e => .caught id e
  | _, _, _ => .settled

/-- The calls a request may make at a stage. -/
inductive Stage.Allows (key : JsString × JsString) (requestHash : JsString) :
    Stage → Command → Prop
  | find {endpoint k : JsString} (h : (endpoint, k) = key) :
      Allows key requestHash .entering (.findOne endpoint k)
  | reclaim (id : Uuid) : Allows key requestHash (.reclaiming id) (.update id reclaimed)
  | insert {endpoint k : JsString} (h : (endpoint, k) = key) :
      Allows key requestHash .inserting (.insert ⟨endpoint, k, requestHash, .processing⟩)
  | race {endpoint k : JsString} (h : (endpoint, k) = key) :
      Allows key requestHash .racing (.findOne endpoint k)
  | reload {endpoint k : JsString} (h : (endpoint, k) = key) :
      Allows key requestHash .claimed (.findOneOrFail endpoint k)
  | operate (id : Uuid) {endpoint k : JsString} (h : (endpoint, k) = key) :
      Allows key requestHash (.operating id) (.operation endpoint k)
  | complete (id : Uuid) (result : OperationResult) :
      Allows key requestHash (.completing id result) (.save id (completed result))
  | fail (id : Uuid) (normalized : ℕ × Json) :
      Allows key requestHash (.failing id) (.save id (failed normalized))

/-- The protocol of a request. -/
def protocol (createPayloadHash : π → JsString) (r : Request π) :
    Protocol Command Command.Res Exception Stage where
  next := Stage.next (createPayloadHash r.payload)
  allows := Stage.Allows r.key (createPayloadHash r.payload)

/-- The pool of requests. -/
def system (createPayloadHash : π → JsString) (column : Jsonb) :
    System (Request π) Command Command.Res Exception Json World Draw Stage where
  exec := exec column
  body r := execute createPayloadHash r.endpoint r.idempotencyKey r.payload
  spawn _ w := some w
  entry _ := .entering
  protocol := protocol createPayloadHash

section Follows

variable {createPayloadHash : π → JsString} {r : Request π}

/-- What may be left of a request that has ended. -/
def Ended : Except Exception Json → Stage → Prop := fun _ _ => True

theorem recordFailure_follows (id : Uuid) (e : Exception) :
    (recordFailure id e).Follows (protocol createPayloadHash r) Ended (.caught id e) := by
  unfold recordFailure Stage.caught
  cases normalizeError e with
  | error e' => exact trivial
  | ok normalized =>
      exact .await_bind (.fail id normalized) (fun _ => trivial) fun _ => trivial

/-- The stage at which an error reaches the `catch` around the operation. -/
def Caught (id : Uuid) : Except Exception Json → Stage → Prop
  | .ok _, _ => True
  | .error e, q => q = .caught id e

theorem runClaimed_follows {key : JsString} (hkey : r.idempotencyKey = some key) :
    (runClaimed r.endpoint key).Follows (protocol createPayloadHash r) Ended .claimed := by
  have hk : (r.endpoint, key) = r.key := by rw [Request.key, hkey, Option.getD_some]
  refine .await_bind (.reload hk) (fun record => ?_) fun _ => trivial
  refine .tryCatch (Caught record.id) ?_ (fun _ _ _ => trivial) fun e q hq => ?_
  · refine .await_bind (.operate record.id hk) (fun result => ?_) fun _ => rfl
    exact .await_bind (.complete record.id result) (fun _ => trivial) fun _ => rfl
  · obtain rfl : q = .caught record.id e := hq
    exact recordFailure_follows ..

/-- The stages at which the first half of a call ends. -/
def Claimed : Except Exception (Option Json) → Stage → Prop
  | .ok none, q => q = .claimed
  | _, _ => True

/-- The stages at which the insert of a record ends. -/
def Inserted : Except Exception (Option Json) → Stage → Prop
  | .ok none, q => q = .claimed
  | .ok (some _), _ => False
  | .error (.queryFailed _), q => q = .racing
  | .error _, _ => True

theorem insertRecord_follows {key : JsString} (hkey : r.idempotencyKey = some key) :
    (insertRecord r.endpoint key (createPayloadHash r.payload)).Follows
      (protocol createPayloadHash r) Claimed .inserting := by
  have hk : (r.endpoint, key) = r.key := by rw [Request.key, hkey, Option.getD_some]
  refine .tryCatch Inserted ?_ ?_ ?_
  · refine .await_bind (.insert hk) (fun _ => rfl) fun e => ?_
    cases e <;> first | exact rfl | exact trivial
  · intro result q hq
    cases result with
    | none => exact hq
    | some _ => exact hq.elim
  · intro e q hq
    cases e with
    | queryFailed message =>
        obtain rfl : q = .racing := hq
        refine .await_bind (.race hk) (fun duplicate => ?_) fun _ => trivial
        cases duplicate with
        | none => trivial
        | some duplicate =>
            unfold assertRequestHash
            dsimp only
            split_ifs <;> trivial
    | _ => trivial

theorem claim_follows {key : JsString} (hkey : r.idempotencyKey = some key) :
    (claim r.endpoint key (createPayloadHash r.payload)).Follows
      (protocol createPayloadHash r) Claimed .entering := by
  have hk : (r.endpoint, key) = r.key := by rw [Request.key, hkey, Option.getD_some]
  refine .await_bind (.find hk) (fun found => ?_) fun _ => trivial
  cases found with
  | none => exact insertRecord_follows hkey
  | some existingRecord =>
      by_cases hh : existingRecord.requestHash = createPayloadHash r.payload
      · by_cases hr : replayable existingRecord = true
        · simp [assertRequestHash, hh, hr, Prog.Follows, Claimed]
        · by_cases hp : existingRecord.status = .processing
          · simp [assertRequestHash, hh, hr, hp, Prog.Follows, Claimed]
          · have hnext : (protocol createPayloadHash r).next .entering
                (.findOne r.endpoint key) (.ok (some existingRecord)) =
                .reclaiming existingRecord.id := by
              simp [protocol, Stage.next, hh, hr, hp]
            rw [hnext]
            simp only [assertRequestHash, hh, ne_eq, not_true_eq_false, if_false, hr, hp,
              Prog.bind_eq, Prog.pure_eq, Prog.bind_ret]
            exact .await_bind (.reclaim existingRecord.id) (fun _ => rfl) fun _ => trivial
      · simp [assertRequestHash, hh, Prog.Follows, Claimed]

/-- **`execute` makes only the calls its stage allows.** -/
theorem execute_follows (createPayloadHash : π → JsString) (column : Jsonb) (r : Request π) :
    ((system createPayloadHash column).body r).Follows ((system createPayloadHash column).protocol r)
      Ended ((system createPayloadHash column).entry r) := by
  show (execute createPayloadHash r.endpoint r.idempotencyKey r.payload).Follows
    (protocol createPayloadHash r) Ended .entering
  unfold execute
  cases hkey : r.idempotencyKey with
  | none => trivial
  | some key =>
      cases key with
      | nil => trivial
      | cons u us =>
          refine .bind (claim_follows hkey) (fun claimed q hq => ?_) fun _ _ _ => trivial
          cases claimed with
          | none =>
              obtain rfl : q = .claimed := hq
              exact runClaimed_follows hkey
          | some body => trivial

end Follows
end Idempotency
end LedgerEngine
