/-
# Sequential idempotency is a replay map

Without storage failures and with calls one after the other, the service
behaves like a map from `(endpoint, key)` to the payload the key was first used
with and, once an attempt has resolved, its body (`replay`).  `Represents` says
which records stand for which map, `serve_refines` that one call of `execute`
does what the map does, and `refines_replay` that every sequence of calls does.
-/

import LedgerEngine.Idempotency.Service

namespace LedgerEngine
namespace Idempotency

variable {π : Type}

/-- A call of `execute`: its arguments, what the server draws for it, and how
its operation settles if it is invoked. -/
structure Call (π : Type) where
  endpoint : JsString
  idempotencyKey : Option JsString
  payload : π
  id : Uuid
  now : Time
  outcome : Outcome

/-- The draws of a call that meets no fault. -/
def Call.draw (call : Call π) : Draw := ⟨none, call.id, call.now, call.outcome⟩

/-- One call on its own. -/
def serve (createPayloadHash : π → JsString) (column : Jsonb) (call : Call π) (w : World) :
    Except Exception Json × World :=
  (execute createPayloadHash call.endpoint call.idempotencyKey call.payload).eval
    (exec column call.draw) w

/-- The operation resolves with an object body or rejects with an `Error`. -/
def Outcome.Regular : Outcome → Prop
  | .resolve result => result.body.isObject
  | .reject e => e ≠ .notAnError

/-! ### The map -/

/-- What a key stands for: the payload of its first call, and the body once an
attempt has resolved. -/
structure Entry (π : Type) where
  payload : π
  body : Option Json

/-- The entries of all keys. -/
abbrev ReplayMap (π : Type) := JsString × JsString → Option (Entry π)

/-- What the map says to a call: whether the operation is invoked, and the answer. -/
structure Reply where
  invoked : Bool
  result : Except Exception Json

/-- An attempt: the operation is invoked and its outcome noted. -/
def attempt (m : ReplayMap π) (k : JsString × JsString) (payload : π) :
    Outcome → Reply × ReplayMap π
  | .resolve result =>
      (⟨true, .ok result.body⟩, Function.update m k (some ⟨payload, some result.body⟩))
  | .reject e => (⟨true, .error e⟩, Function.update m k (some ⟨payload, none⟩))

/-- One call of the map. -/
def replay [DecidableEq π] (m : ReplayMap π) (call : Call π) : Reply × ReplayMap π :=
  match call.idempotencyKey with
  | none | some [] => (⟨false, .error (.domain .idempotencyKeyRequired)⟩, m)
  | some key =>
      match m (call.endpoint, key) with
      | none => attempt m (call.endpoint, key) call.payload call.outcome
      | some entry =>
          if entry.payload ≠ call.payload then
            (⟨false, .error (.domain .idempotencyPayloadMismatch)⟩, m)
          else
            match entry.body with
            | some body => (⟨false, .ok body⟩, m)
            | none => attempt m (call.endpoint, key) call.payload call.outcome

/-! ### What it means to behave like the map -/

/-- The same answer: the same error, or the same JSON document. -/
def SameAnswer : Except Exception Json → Except Exception Json → Prop
  | .ok a, .ok b => a.Same b
  | .error e, .error e' => e = e'
  | _, _ => False

/-- The call `call`, made in `w`, answered `answer` and left `w'`, agrees with the
reply of the map. -/
structure Agrees (call : Call π) (w : World) (answer : Except Exception Json) (w' : World)
    (reply : Reply) : Prop where
  answer : SameAnswer answer reply.result
  /-- The operation is invoked as often as the map says: once or not at all. -/
  invocations : w'.invocations =
    if reply.invoked then (call.endpoint, call.idempotencyKey.getD []) :: w.invocations
    else w.invocations
  /-- A call that invokes nothing changes no record. -/
  unchanged : reply.invoked = false → w'.records = w.records
  /-- No call changes the record of another key. -/
  others : ∀ k, k ≠ (call.endpoint, call.idempotencyKey.getD []) →
    w'.records.lookup k = w.records.lookup k

/-- Every call of a sequence agrees with the map. -/
def Refines [DecidableEq π] (createPayloadHash : π → JsString) (column : Jsonb) :
    World → ReplayMap π → List (Call π) → Prop
  | _, _, [] => True
  | w, m, call :: calls =>
      Agrees call w (serve createPayloadHash column call w).1
          (serve createPayloadHash column call w).2 (replay m call).1 ∧
        Refines createPayloadHash column (serve createPayloadHash column call w).2
          (replay m call).2 calls

/-- The record stands for the entry. -/
structure Stands (createPayloadHash : π → JsString) (r : IdempotencyRecordEntity)
    (entry : Entry π) : Prop where
  hash : r.requestHash = createPayloadHash entry.payload
  status : match entry.body with
    | none => r.status = .failed
    | some body => r.status = .completed ∧ r.responseBody.Same body ∧ body.truthy

/-- The records stand for the map. -/
def Represents (createPayloadHash : π → JsString) (records : IndexedTable IdempotencyRecordEntity)
    (m : ReplayMap π) : Prop :=
  ∀ k, match m k with
    | none => records.lookup k = none
    | some entry => ∃ r, records.lookup k = some r ∧ Stands createPayloadHash r entry

/-! ### What the two halves of a call do -/

section Eval

variable {column : Jsonb} {ω : Draw} {w : World} {endpoint key requestHash : JsString}

theorem eval_assertRequestHash (existingHash : JsString) :
    (assertRequestHash existingHash requestHash).eval (answer column ω) w =
      if existingHash ≠ requestHash then (.error (.domain .idempotencyPayloadMismatch), w)
      else (.ok (), w) := by
  unfold assertRequestHash
  split_ifs <;> rfl

/-- A call that finds a record. -/
theorem eval_claim_found {r : IdempotencyRecordEntity}
    (h : w.records.lookup (endpoint, key) = some r) :
    (claim endpoint key requestHash).eval (answer column ω) w =
      if r.requestHash ≠ requestHash then (.error (.domain .idempotencyPayloadMismatch), w)
      else if replayable r then (.ok (some r.responseBody), w)
      else if r.status = .processing then (.error (.domain .idempotencyKeyProcessing), w)
      else (.ok none, { w with
        records := w.records.update r.id (reclaimed.change column ω.now) }) := by
  have hfind : (findOne endpoint key).eval (answer column ω) w = (.ok (some r), w) := by
    rw [findOne, Prog.eval_await, answer, h]
  rw [claim, Prog.bind_eq, Prog.eval_bind, hfind]
  simp only [Prog.bind_eq, Prog.eval_bind, eval_assertRequestHash]
  by_cases hh : r.requestHash = requestHash
  · rw [if_neg (not_not.2 hh), if_neg (not_not.2 hh)]
    dsimp only
    split_ifs
    · rfl
    · rfl
    · rfl
  · rw [if_pos hh, if_pos hh]

/-- A call that finds none, with a new id drawn for its record. -/
theorem eval_claim_new {records : IndexedTable IdempotencyRecordEntity}
    (h : w.records.lookup (endpoint, key) = none)
    (hi : w.records.insert? (NewRecord.row ω.id ω.now
      { endpoint, idempotencyKey := key, requestHash, status := .processing }) = some records) :
    (claim endpoint key requestHash).eval (answer column ω) w = (.ok none, { w with records }) := by
  have hfind : (findOne endpoint key).eval (answer column ω) w = (.ok none, w) := by
    rw [findOne, Prog.eval_await, answer, h]
  rw [claim, Prog.bind_eq, Prog.eval_bind, hfind]
  dsimp only [insertRecord, Prog.tryCatch_eq]
  simp only [Prog.bind_eq, insert, Prog.await, Prog.bind_call, Prog.tryCatch, Prog.eval_call,
    answer, hi]
  rfl

/-- The second half of a call whose record is there. -/
theorem eval_runClaimed {r : IdempotencyRecordEntity}
    (h : w.records.lookup (endpoint, key) = some r) :
    (runClaimed endpoint key).eval (answer column ω) w =
      match ω.outcome with
      | .resolve result =>
          (.ok result.body, {
            records := w.records.update r.id ((completed result).change column ω.now)
            invocations := (endpoint, key) :: w.invocations
            commits := (endpoint, key) :: w.commits })
      | .reject e =>
          match normalizeError e with
          | .ok normalized =>
              (.error e, { w with
                records := w.records.update r.id ((failed normalized).change column ω.now)
                invocations := (endpoint, key) :: w.invocations })
          | .error e' => (.error e', { w with invocations := (endpoint, key) :: w.invocations }) := by
  have hfind : (findOneOrFail endpoint key).eval (answer column ω) w = (.ok r, w) := by
    rw [findOneOrFail, Prog.eval_await, answer, h]
  rw [runClaimed, Prog.bind_eq, Prog.eval_bind, hfind]
  dsimp only [Prog.tryCatch_eq]
  simp only [Prog.bind_eq, operation, Prog.await, Prog.bind_call, Prog.tryCatch, Prog.eval_call,
    answer]
  cases ho : ω.outcome with
  | resolve result => rfl
  | reject e =>
      dsimp only
      cases hn : normalizeError e with
      | ok n => simp only [Prog.bind_raise, Prog.tryCatch, recordFailure, hn]; rfl
      | error e' => simp only [Prog.bind_raise, Prog.tryCatch, recordFailure, hn]; rfl

end Eval

/-! ### The simulation -/

section Simulation

variable {createPayloadHash : π → JsString} {column : Jsonb} {m : ReplayMap π}

theorem find?_update_eq_none {records : IndexedTable IdempotencyRecordEntity} {id id' : Uuid}
    (h : records.find? id = none) (f : Change IdempotencyRecordEntity) :
    (records.update id' f).find? id = none := by
  rw [IndexedTable.find?_update, h]
  rfl

/-- What a call does that has claimed its record. -/
structure Attempted (createPayloadHash : π → JsString) (m : ReplayMap π) (k : JsString × JsString)
    (payload : π) (outcome : Outcome) (w : World) (r : Except Exception Json × World) : Prop where
  answer : SameAnswer r.1 (attempt m k payload outcome).1.result
  invocations : r.2.invocations = k :: w.invocations
  others : ∀ k', k' ≠ k → r.2.records.lookup k' = w.records.lookup k'
  represents : Represents createPayloadHash r.2.records (attempt m k payload outcome).2
  ids : ∀ id, w.records.find? id = none → r.2.records.find? id = none

/-- **An attempt does what the map does**, from any state in which the key's
record is claimed for the payload. -/
theorem attempted {endpoint key : JsString} {payload : π} {ω : Draw} {w : World}
    {r : IdempotencyRecordEntity} (hr : w.records.lookup (endpoint, key) = some r)
    (hh : r.requestHash = createPayloadHash payload) (hout : ω.outcome.Regular)
    (hothers : ∀ k, k ≠ (endpoint, key) → match m k with
      | none => w.records.lookup k = none
      | some entry => ∃ r, w.records.lookup k = some r ∧ Stands createPayloadHash r entry) :
    Attempted createPayloadHash m (endpoint, key) payload ω.outcome w
      ((runClaimed endpoint key).eval (answer column ω) w) := by
  rw [eval_runClaimed hr]
  have hlookup : ∀ (p : Patch) k, k ≠ (endpoint, key) →
      (w.records.update r.id (p.change column ω.now)).lookup k = w.records.lookup k :=
    fun p k hk => IndexedTable.lookup_update_of_ne hr hk _
  -- an update of the claimed record, to a row that stands for the new entry
  have hupdate : ∀ (p : Patch) (entry : Entry π),
      Stands createPayloadHash (p.apply column ω.now r) entry →
      Represents createPayloadHash (w.records.update r.id (p.change column ω.now))
        (Function.update m (endpoint, key) (some entry)) := by
    intro p entry hstands k
    by_cases hk : k = (endpoint, key)
    · subst hk
      rw [Function.update_self]
      exact ⟨_, IndexedTable.lookup_update_self hr _, hstands⟩
    · rw [Function.update_of_ne hk, hlookup p k hk]
      exact hothers k hk
  cases ho : ω.outcome with
  | resolve result =>
      rw [ho] at hout
      have hbody : result.body.isObject = true := hout
      refine ⟨Json.Same.refl _, rfl, hlookup _, hupdate _ _ ⟨hh, ?_⟩,
        fun id hid => find?_update_eq_none hid _⟩
      exact ⟨rfl, column.same _, Json.truthy_of_isObject hbody⟩
  | reject e =>
      rw [ho] at hout
      cases hn : normalizeError e with
      | ok normalized =>
          simp only [hn]
          exact ⟨rfl, rfl, hlookup _, hupdate _ _ ⟨hh, rfl⟩,
            fun id hid => find?_update_eq_none hid _⟩
      | error e' =>
          cases e with
          | notAnError => exact absurd rfl hout
          | http status response => cases response <;> simp [normalizeError] at hn
          | _ => simp [normalizeError] at hn

/-- A call whose first half claims the record is an attempt. -/
theorem attempted_of_claim {endpoint key requestHash : JsString} {payload : π} {ω : Draw}
    {w w₁ : World} {r : IdempotencyRecordEntity} (h : Represents createPayloadHash w.records m)
    (hout : ω.outcome.Regular)
    (hclaim : (claim endpoint key requestHash).eval (answer column ω) w = (.ok none, w₁))
    (hr : w₁.records.lookup (endpoint, key) = some r)
    (hh : r.requestHash = createPayloadHash payload)
    (hothers : ∀ k, k ≠ (endpoint, key) → w₁.records.lookup k = w.records.lookup k) :
    Attempted createPayloadHash m (endpoint, key) payload ω.outcome w₁
      ((executeWithKey endpoint key requestHash).eval (answer column ω) w) := by
  rw [executeWithKey, Prog.bind_eq, Prog.eval_bind, hclaim]
  refine attempted hr hh hout fun k hk => ?_
  rw [hothers k hk]
  exact h k

/-- An attempt is a call that agrees with the map. -/
theorem Attempted.agrees {call : Call π} {key : JsString} {w w₁ : World}
    {r : Except Exception Json × World} (hkey : call.idempotencyKey = some key)
    (h : Attempted createPayloadHash m (call.endpoint, key) call.payload call.outcome w₁ r)
    (hinv : w₁.invocations = w.invocations)
    (hothers : ∀ k, k ≠ (call.endpoint, key) → w₁.records.lookup k = w.records.lookup k) :
    Agrees call w r.1 r.2 (attempt m (call.endpoint, key) call.payload call.outcome).1 := by
  have hinvoked : (attempt m (call.endpoint, key) call.payload call.outcome).1.invoked = true := by
    cases call.outcome <;> rfl
  refine ⟨h.answer, ?_, fun hfalse => ?_, fun k hk => ?_⟩
  · rw [h.invocations, hinv, if_pos hinvoked, hkey, Option.getD_some]
  · rw [hinvoked] at hfalse
    exact absurd hfalse (by decide)
  · rw [hkey, Option.getD_some] at hk
    rw [h.others k hk, hothers k hk]

/-- **One call does what the map does.** -/
theorem serve_refines [DecidableEq π] (column : Jsonb)
    (hinj : Function.Injective createPayloadHash) {call : Call π}
    {w : World} (h : Represents createPayloadHash w.records m) (hout : call.outcome.Regular)
    (hid : w.records.find? call.id = none) :
    Agrees call w (serve createPayloadHash column call w).1
        (serve createPayloadHash column call w).2 (replay m call).1 ∧
      Represents createPayloadHash (serve createPayloadHash column call w).2.records
        (replay m call).2 ∧
      ∀ id, id ≠ call.id → w.records.find? id = none →
        (serve createPayloadHash column call w).2.records.find? id = none := by
  -- a call that invokes nothing
  have hidle : ∀ a b, SameAnswer a b →
      Agrees call w a w ⟨false, b⟩ := fun a b hab => ⟨hab, rfl, fun _ => rfl, fun _ _ => rfl⟩
  unfold serve execute replay
  cases hkey : call.idempotencyKey with
  | none => exact ⟨hidle _ _ rfl, h, fun _ _ hid => hid⟩
  | some key =>
      cases key with
      | nil => exact ⟨hidle _ _ rfl, h, fun _ _ hid => hid⟩
      | cons u us =>
          dsimp only
          rw [show exec column call.draw = answer column call.draw from rfl]
          have hK := h (call.endpoint, u :: us)
          cases hm : m (call.endpoint, u :: us) with
          | none =>
              rw [hm] at hK
              obtain ⟨records, hi⟩ := IndexedTable.insert?_isSome
                (r := NewRecord.row call.id call.now
                  ⟨call.endpoint, u :: us, createPayloadHash call.payload, .processing⟩) hid hK
              have hothers : ∀ k, k ≠ (call.endpoint, u :: us) →
                  records.lookup k = w.records.lookup k := fun k hk =>
                (IndexedTable.lookup_insert hi k).trans (if_neg (Ne.symm hk))
              have hclaim : (claim call.endpoint (u :: us) (createPayloadHash call.payload)).eval
                  (answer column call.draw) w = (.ok none, { w with records }) :=
                eval_claim_new hK hi
              have ha := attempted_of_claim h hout hclaim
                ((IndexedTable.lookup_insert hi _).trans (if_pos rfl)) rfl hothers
              refine ⟨ha.agrees hkey rfl hothers, ha.represents, fun id hne hid => ha.ids id ?_⟩
              exact (IndexedTable.find?_insert hi id).trans ((if_neg (Ne.symm hne)).trans hid)
          | some entry =>
              rw [hm] at hK
              obtain ⟨r, hr, hstands⟩ := hK
              have hclaim : (claim call.endpoint (u :: us) (createPayloadHash call.payload)).eval
                  (answer column call.draw) w = _ := eval_claim_found hr
              by_cases hp : entry.payload = call.payload
              · have hh : r.requestHash = createPayloadHash call.payload := hp ▸ hstands.hash
                have hstatus := hstands.status
                rw [if_neg (not_not.2 hh)] at hclaim
                dsimp only
                rw [if_neg (not_not.2 hp)]
                cases hb : entry.body with
                | some body =>
                    rw [hb] at hstatus
                    obtain ⟨hs, hsame, htruthy⟩ := hstatus
                    have hreplay : replayable r = true := by
                      simp [replayable, hs, hsame.truthy_eq, htruthy]
                    rw [if_pos hreplay] at hclaim
                    rw [executeWithKey, Prog.bind_eq, Prog.eval_bind, hclaim]
                    exact ⟨hidle _ _ hsame, h, fun _ _ hid => hid⟩
                | none =>
                    rw [hb] at hstatus
                    have hs : r.status = .failed := hstatus
                    rw [if_neg (by simp [replayable, hs]), if_neg (by simp [hs])] at hclaim
                    have hothers : ∀ k, k ≠ (call.endpoint, u :: us) →
                        (w.records.update r.id
                          (reclaimed.change column call.draw.now)).lookup k = w.records.lookup k :=
                      fun k hk => IndexedTable.lookup_update_of_ne hr hk _
                    have ha := attempted_of_claim h hout hclaim
                      (IndexedTable.lookup_update_self hr _) hh hothers
                    exact ⟨ha.agrees hkey rfl hothers, ha.represents,
                      fun id _ hid => ha.ids id (find?_update_eq_none hid _)⟩
              · have hh : r.requestHash ≠ createPayloadHash call.payload := fun e =>
                  hp (hinj (hstands.hash.symm.trans e))
                rw [if_pos hh] at hclaim
                dsimp only
                rw [if_pos hp, executeWithKey, Prog.bind_eq, Prog.eval_bind, hclaim]
                exact ⟨hidle _ _ rfl, h, fun _ _ hid => hid⟩

/-- **Sequential idempotency refines the replay map.**  The hash is injective,
operations resolve with an object or reject with an `Error`, and the server
draws a new id for every record. -/
theorem refines_replay [DecidableEq π] (hinj : Function.Injective createPayloadHash)
    (column : Jsonb) {calls : List (Call π)} (hout : ∀ call ∈ calls, call.outcome.Regular)
    (hids : (calls.map Call.id).Nodup) :
    Refines createPayloadHash column .empty (fun _ => none) calls := by
  suffices h : ∀ w m, Represents createPayloadHash w.records m →
      (∀ call ∈ calls, w.records.find? call.id = none) →
      Refines createPayloadHash column w m calls from
    h _ _ (fun _ => rfl) fun _ _ => rfl
  induction calls with
  | nil => exact fun _ _ _ _ => trivial
  | cons call calls ih =>
      intro w m hrep hfresh
      rw [List.map_cons, List.nodup_cons] at hids
      obtain ⟨hagrees, hrep', hids'⟩ := serve_refines column hinj hrep
        (hout call (List.mem_cons_self ..)) (hfresh call (List.mem_cons_self ..))
      refine ⟨hagrees, ih (fun c hc => hout c (List.mem_cons_of_mem _ hc)) hids.2 _ _ hrep'
        fun c hc => hids' c.id (fun e => hids.1 ?_) (hfresh c (List.mem_cons_of_mem _ hc))⟩
      exact e ▸ List.mem_map_of_mem hc

end Simulation

/-- A deposit that is rejected, retried until it resolves, replayed, and sent
with another payload. -/
def retriedDeposit : List (Call JsString) :=
  let call (payload : JsString) (id : JsString) (outcome : Outcome) : Call JsString :=
    ⟨js "POST:/transactions/deposit", some (js "key"), payload, .ofText id, 0, outcome⟩
  [call (js "5") (js "a") (.reject (.domain (.insufficientFunds 0 5))),
    call (js "5") (js "b") (.resolve ⟨201, .obj [], none⟩),
    call (js "5") (js "c") (.resolve ⟨201, .obj [(js "id", .null)], none⟩),
    call (js "6") (js "d") (.resolve ⟨201, .obj [], none⟩)]

theorem refines_replay_retriedDeposit :
    Refines id .verbatim .empty (fun _ => none) retriedDeposit := by
  refine refines_replay Function.injective_id .verbatim (fun call hcall => ?_) (by decide)
  simp only [retriedDeposit, List.mem_cons, List.not_mem_nil, or_false] at hcall
  rcases hcall with rfl | rfl | rfl | rfl
  · exact Exception.noConfusion
  all_goals rfl
end Idempotency
end LedgerEngine
