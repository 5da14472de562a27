/-
# A request that loses the race for its key

`execute` decides about an existing record twice.  A request whose `findOne`
sees the record throws on another payload, replays a completed record and
throws `IdempotencyKeyProcessingException` on one in progress
(`lookup_answer`).  A request that comes too early to see it meets the unique
constraint at its `insert` and decides in the `catch`, from a second look at
the record: the first two branches are there and the third is not
(`race_answer`), so the error of the database goes on to the caller.

Hence the two agree, and the answer is one of the three, exactly when the
payloads differ or the record can be replayed (`race_agrees`).  While the winner
is still at work the loser is told of a `QueryFailedError`
(`loser_of_processing`).
-/

import LedgerEngine.Idempotency.Replay

namespace LedgerEngine

/-- Thrown by the same class; other `HttpException`s are told apart by status. -/
def Exception.SameClass : Exception → Exception → Prop
  | .domain e, .domain e' => e.ctorIdx = e'.ctorIdx
  | .http status _, .http status' _ => status = status'
  | .queryFailed _, .queryFailed _ => True
  | .error _, .error _ => True
  | .notAnError, .notAnError => True
  | _, _ => False

theorem Exception.SameClass.refl (e : Exception) : e.SameClass e := by
  cases e <;> simp [Exception.SameClass]

namespace Idempotency

/-- The same body returned, or exceptions of one class. -/
def SameReply : Except Exception Json → Except Exception Json → Prop
  | .ok a, .ok b => a = b
  | .error e, .error e' => e.SameClass e'
  | _, _ => False

theorem SameReply.refl : ∀ reply : Except Exception Json, SameReply reply reply
  | .ok _ => rfl
  | .error e => Exception.SameClass.refl e

/-- The answers a duplicate may get: the stored body, or one of two conflicts. -/
def IsDuplicateReply (r : IdempotencyRecordEntity) (reply : Except Exception Json) : Prop :=
  reply = .ok r.responseBody ∨ reply = .error (.domain .idempotencyKeyProcessing) ∨
    reply = .error (.domain .idempotencyPayloadMismatch)

/-- The answer of a request whose `findOne` is answered in `w`, and all of it after. -/
def lookupReply {π : Type} (createPayloadHash : π → JsString) (column : Jsonb) (ω : Draw)
    (endpoint key : JsString) (payload : π) (w : World) : Except Exception Json :=
  ((execute createPayloadHash endpoint (some key) payload).eval (answer column ω) w).1

/-- The answer of a request whose `findOne` is answered in `w₀`, and the rest in
the `w` the winner has brought about since. -/
def raceReply {π : Type} (createPayloadHash : π → JsString) (column : Jsonb) (ω : Draw)
    (endpoint key : JsString) (payload : π) (w₀ w : World) : Except Exception Json :=
  ((execute createPayloadHash endpoint (some key) payload).overtaken (answer column ω) w₀ w).1

/-- The insert-race path does what the lookup path does, and that is an answer
for a duplicate. -/
structure RaceAgrees (r : IdempotencyRecordEntity) (race lookup : Except Exception Json) :
    Prop where
  same : SameReply race lookup
  duplicate : IsDuplicateReply r race

section Replies

variable {π : Type} (createPayloadHash : π → JsString) (column : Jsonb) (ω : Draw)
  {endpoint key : JsString} (payload : π) {w₀ w : World} {r : IdempotencyRecordEntity}

theorem execute_some (h : key ≠ []) :
    execute createPayloadHash endpoint (some key) payload =
      executeWithKey endpoint key (createPayloadHash payload) := by
  cases key with
  | nil => exact absurd rfl h
  | cons u us => rfl

/-- The conflict branch: the record is there and the insert is refused. -/
theorem eval_insertRecord_taken {requestHash : JsString}
    (h : w.records.lookup (endpoint, key) = some r) :
    (insertRecord endpoint key requestHash).eval (answer column ω) w =
      if r.requestHash ≠ requestHash then (.error (.domain .idempotencyPayloadMismatch), w)
      else if replayable r then (.ok (some r.responseBody), w)
      else (.error duplicateRecord, w) := by
  have hinsert : w.records.insert? (NewRecord.row ω.id ω.now
      { endpoint, idempotencyKey := key, requestHash, status := .processing }) = none :=
    IndexedTable.insert?_of_lookup h
  have hfind : (findOne endpoint key).eval (answer column ω) w = (.ok (some r), w) := by
    rw [findOne, Prog.eval_await, answer, h]
  dsimp only [insertRecord, Prog.tryCatch_eq]
  simp only [Prog.bind_eq, insert, Prog.await, Prog.bind_call, Prog.tryCatch, Prog.eval_call,
    answer, hinsert, Prog.bind_raise, duplicateRecord]
  rw [Prog.eval_bind, hfind]
  dsimp only
  rw [Prog.eval_bind, eval_assertRequestHash]
  split_ifs <;> rfl

/-- **The lookup path.**  A request that sees a record in progress, or one it
may replay or must not touch, is answered from the record alone. -/
theorem lookup_answer (hkey : key ≠ []) (h : w.records.lookup (endpoint, key) = some r)
    (hr : r.requestHash ≠ createPayloadHash payload ∨ replayable r ∨ r.status = .processing) :
    lookupReply createPayloadHash column ω endpoint key payload w =
      if r.requestHash ≠ createPayloadHash payload then
        .error (.domain .idempotencyPayloadMismatch)
      else if replayable r then .ok r.responseBody
      else .error (.domain .idempotencyKeyProcessing) := by
  rw [lookupReply, execute_some _ _ hkey, executeWithKey, Prog.bind_eq, Prog.eval_bind,
    eval_claim_found h]
  by_cases hh : r.requestHash ≠ createPayloadHash payload
  · rw [if_pos hh, if_pos hh]
  · rw [if_neg hh, if_neg hh]
    by_cases hrep : replayable r
    · rw [if_pos hrep, if_pos hrep]
      rfl
    · have hp : r.status = .processing := (hr.resolve_left hh).resolve_left hrep
      rw [if_neg hrep, if_pos hp, if_neg hrep]

/-- **The insert-race path.**  A record that is neither of another payload nor
replayable leaves the loser with the error of the database. -/
theorem race_answer (hkey : key ≠ []) (h₀ : w₀.records.lookup (endpoint, key) = none)
    (h : w.records.lookup (endpoint, key) = some r) :
    raceReply createPayloadHash column ω endpoint key payload w₀ w =
      if r.requestHash ≠ createPayloadHash payload then
        .error (.domain .idempotencyPayloadMismatch)
      else if replayable r then .ok r.responseBody
      else .error duplicateRecord := by
  have hmiss : (answer column ω (Command.findOne endpoint key) w₀).1 = .ok none := by
    rw [answer, h₀]
  rw [raceReply, execute_some _ _ hkey]
  simp only [executeWithKey, claim, findOne, Prog.await, Prog.bind_eq, Prog.bind_call,
    Prog.overtaken, hmiss, Prog.bind_ret]
  rw [Prog.eval_bind, eval_insertRecord_taken column ω h]
  split_ifs <;> rfl

end Replies

/-- **A duplicate that loses the race is answered like one that comes late, if
and only if** it carries another payload or the record can be replayed.  The
record may be in any state. -/
theorem race_agrees {π : Type} (createPayloadHash : π → JsString) (column : Jsonb) (ω : Draw)
    {endpoint key : JsString} (payload : π) {w₀ w : World} {r : IdempotencyRecordEntity}
    (hkey : key ≠ []) (h₀ : w₀.records.lookup (endpoint, key) = none)
    (h : w.records.lookup (endpoint, key) = some r) :
    RaceAgrees r (raceReply createPayloadHash column ω endpoint key payload w₀ w)
        (lookupReply createPayloadHash column ω endpoint key payload w) ↔
      r.requestHash ≠ createPayloadHash payload ∨ replayable r := by
  have hrace := race_answer createPayloadHash column ω payload hkey h₀ h
  constructor
  · intro hagrees
    by_contra hnot
    obtain ⟨hh, hrep⟩ := not_or.1 hnot
    rw [if_neg hh, if_neg hrep] at hrace
    -- what the loser gets is none of the three answers
    rcases hagrees.duplicate with hdup | hdup | hdup <;> rw [hrace] at hdup <;> cases hdup
  · intro hr
    have hlookup := lookup_answer createPayloadHash column ω payload hkey h (hr.imp_right Or.inl)
    by_cases hh : r.requestHash ≠ createPayloadHash payload
    · rw [if_pos hh] at hrace hlookup
      refine ⟨?_, Or.inr (Or.inr hrace)⟩
      rw [hrace, hlookup]
      exact SameReply.refl _
    · have hrep : replayable r = true := hr.resolve_left hh
      rw [if_neg hh, if_pos hrep] at hrace hlookup
      refine ⟨?_, Or.inl hrace⟩
      rw [hrace, hlookup]
      exact SameReply.refl _

/-- The draws of the counterexample: no fault, and an operation that resolves. -/
def racing : Draw := ⟨none, .ofText (js "a"), 0, .resolve ⟨201, .obj [], none⟩⟩

/-- The record the winner of the race inserts. -/
def winning (status : IdempotencyStatus) : NewRecord :=
  ⟨js "POST:/transactions/deposit", js "key", js "5", status⟩

/-- The winner has inserted its record and is still at work. -/
def won (status : IdempotencyStatus) : World :=
  (answer .verbatim racing (.insert (winning status)) .empty).2

/-- Its record in a status and with a body. -/
def wonRecord (status : IdempotencyStatus) : IdempotencyRecordEntity :=
  NewRecord.row racing.id racing.now (winning status)

/-- The loser sends another payload and is told so. -/
theorem race_agrees_mismatch :
    RaceAgrees (wonRecord .processing)
      (raceReply id .verbatim racing (winning .processing).endpoint (js "key") (js "6") .empty
        (won .processing))
      (lookupReply id .verbatim racing (winning .processing).endpoint (js "key") (js "6")
        (won .processing)) :=
  have hrow : (won .processing).records.lookup ((winning .processing).endpoint, js "key") =
      some (wonRecord .processing) := rfl
  (race_agrees id .verbatim racing (js "6") (by decide) rfl hrow).2 (Or.inl (by decide))

/-- **The loser of a race still under way gets the error of the database**, where
a later duplicate gets `IdempotencyKeyProcessingException`. -/
theorem loser_of_processing :
    ¬ RaceAgrees (wonRecord .processing)
      (raceReply id .verbatim racing (winning .processing).endpoint (js "key") (js "5") .empty
        (won .processing))
      (lookupReply id .verbatim racing (winning .processing).endpoint (js "key") (js "5")
        (won .processing)) := by
  intro hagrees
  exact hagrees.same

end Idempotency
end LedgerEngine
