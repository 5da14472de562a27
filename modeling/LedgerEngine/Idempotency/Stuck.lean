/-
# Which claimed keys are left PROCESSING

A call of `execute` that has claimed its record reads it again, runs the
operation and saves COMPLETED, or FAILED in the `catch`.  Three exits miss both
saves: the second read stands before the `try`; `normalizeError` throws a value
of its own where the operation rejected with what is no `Error`; and the save
of FAILED is refused where the column does not take the body.  Nothing ever
releases a record that is PROCESSING.

The storage works here, save for that read (`serving`).  A `jsonb` column takes
some documents and not others (`accepts`).  Before each call other requests may
do anything that leaves the record of this key alone (`Turn`).  Then the record
ends COMPLETED or FAILED, and the caller gets what the operation rejected with,
if and only if the read resolves and a rejection can be recorded
(`execute_unstuck_iff`).
-/

import LedgerEngine.Async.Triple
import LedgerEngine.Idempotency.Service

namespace LedgerEngine
namespace Idempotency

/-- A document the column does not take. -/
def unstorable : Exception := .queryFailed (js "the value cannot be stored")

/-- A call where only the second read of the record may fail, and a save if the
column does not take its body. -/
def serving (column : Jsonb) (accepts : Json → Bool) (ω : Draw) :
    Prog.Handler Command Command.Res Exception World
  | .findOneOrFail endpoint key, w => exec column ω (.findOneOrFail endpoint key) w
  | .save id p, w =>
      if accepts p.responseBody then answer column ω (.save id p) w else (.error unstorable, w)
  | c, w => answer column ω c w

/-- What is drawn for a call, and what others do before it. -/
structure Turn where
  draw : Draw
  others : World → World

/-- The calls of one request, each after what others do. -/
def among (column : Jsonb) (accepts : Json → Bool) (turns : ℕ → Turn) :
    Prog.Handler Command Command.Res Exception (World × ℕ) :=
  Prog.Handler.scripted (fun t c w => serving column accepts t.draw c (t.others w)) turns

/-- What others do leaves the record of a key alone. -/
def Turn.Spares (t : Turn) (key : JsString × JsString) : Prop :=
  ∀ w, (t.others w).records.lookup key = w.records.lookup key

/-- The status of the record of a key. -/
def World.statusOf (w : World) (key : JsString × JsString) : Option IdempotencyStatus :=
  (w.records.lookup key).map IdempotencyRecordEntity.status

/-- The record is COMPLETED or FAILED. -/
def World.Unstuck (w : World) (key : JsString × JsString) : Prop :=
  w.statusOf key = some .completed ∨ w.statusOf key = some .failed

/-- What the operation rejected with has a status and a body that can be stored. -/
def Recordable (accepts : Json → Bool) (e : Exception) : Prop :=
  ∃ normalized, normalizeError e = .ok normalized ∧ accepts normalized.2 = true

section Calls

variable {column : Jsonb} {accepts : Json → Bool} {turns : ℕ → Turn} {endpoint key : JsString}
  {w w' : World} {n m : ℕ} {r : IdempotencyRecordEntity}

theorem eval_call_among (c : Command) :
    (Prog.await c : Service c.Res).eval (among column accepts turns) (w, n) =
      ((serving column accepts (turns n).draw c ((turns n).others w)).1,
        (serving column accepts (turns n).draw c ((turns n).others w)).2, n + 1) :=
  Prog.eval_await ..

variable (column) in
/-- A save of the record whose body the column takes. -/
theorem eval_save_ok (hspares : (turns n).Spares (endpoint, key))
    (hr : w.records.lookup (endpoint, key) = some r) {p : Patch}
    (hbody : accepts p.responseBody = true) :
    ∃ w', w'.statusOf (endpoint, key) = some p.status ∧
      (save r.id p).eval (among column accepts turns) (w, n) = (.ok (), w', n + 1) := by
  have hserving : serving column accepts (turns n).draw (.save r.id p) ((turns n).others w) =
      (.ok (), { (turns n).others w with records :=
        ((turns n).others w).records.update r.id (p.change column (turns n).draw.now) }) := by
    simp only [serving, if_pos hbody, answer]
  refine ⟨_, ?_, (eval_call_among _).trans (by rw [hserving])⟩
  unfold World.statusOf
  rw [show r.id = Keyed.key r from rfl,
    IndexedTable.lookup_update_self ((hspares w).trans hr)]
  rfl

variable (column turns w n) in
/-- A save whose body it does not take. -/
theorem eval_save_refused (id : Uuid) {p : Patch} (hbody : accepts p.responseBody = false) :
    (save id p).eval (among column accepts turns) (w, n) =
      (.error unstorable, (turns n).others w, n + 1) := by
  refine (eval_call_among _).trans ?_
  simp [serving, hbody]

/-- How a call of `runClaimed` ends and what it leaves of the record. -/
structure Left (column : Jsonb) (accepts : Json → Bool) (turns : ℕ → Turn)
    (k : JsString × JsString) (p : Service Json) (s : World × ℕ) (r : Except Exception Json)
    (status : IdempotencyStatus) : Prop where
  result : (p.eval (among column accepts turns) s).1 = r
  status : (p.eval (among column accepts turns) s).2.1.statusOf k = some status

variable (column accepts) in
/-- **The `catch`** stores FAILED and throws what it caught, where that can be
recorded; else the record stays as it is. -/
theorem left_recordFailure (hspares : (turns n).Spares (endpoint, key))
    (hr : w.records.lookup (endpoint, key) = some r) (e : Exception) :
    (Recordable accepts e → Left column accepts turns (endpoint, key) (recordFailure r.id e)
        (w, n) (.error e) .failed) ∧
      (¬ Recordable accepts e → ∃ e', Left column accepts turns (endpoint, key)
        (recordFailure r.id e) (w, n) (.error e') r.status) := by
  unfold recordFailure
  cases hnormalized : normalizeError e with
  | error e' =>
      refine ⟨fun h => ?_, fun _ => ⟨e', rfl, ?_⟩⟩
      · obtain ⟨normalized, hok, -⟩ := h
        rw [hnormalized] at hok
        cases hok
      · exact congrArg (Option.map _) hr
  | ok normalized =>
      cases hbody : accepts normalized.2 with
      | true =>
          obtain ⟨w', hstatus, heval⟩ := eval_save_ok column hspares hr
            (p := failed normalized) hbody
          refine ⟨fun _ => ⟨?_, ?_⟩, fun h => absurd ⟨_, hnormalized, hbody⟩ h⟩
          · simp only [Prog.bind_eq, Prog.eval_bind, heval]
            rfl
          · simp only [Prog.bind_eq, Prog.eval_bind, heval]
            exact hstatus
      | false =>
          have heval := eval_save_refused column turns w n r.id (p := failed normalized) hbody
          refine ⟨fun h => ?_, fun _ => ⟨unstorable, ?_, ?_⟩⟩
          · obtain ⟨normalized', hok, htakes⟩ := h
            rw [hnormalized] at hok
            obtain rfl := Except.ok.inj hok
            rw [hbody] at htakes
            cases htakes
          · simp only [Prog.bind_eq, Prog.eval_bind, heval]
          · simp only [Prog.bind_eq, Prog.eval_bind, heval]
            exact congrArg (Option.map _) ((hspares w).trans hr)

variable (column accepts) in
/-- The second half of `execute` when the second read fails: the operation is not
run. -/
theorem left_runClaimed_of_fault (hspares : (turns n).Spares (endpoint, key))
    (hr : w.records.lookup (endpoint, key) = some r) (hfault : (turns n).draw.fault ≠ none) :
    ∃ e, Left column accepts turns (endpoint, key) (runClaimed endpoint key) (w, n) (.error e)
      r.status := by
  have hlookup := (hspares w).trans hr
  have hread : ∃ e, (findOneOrFail endpoint key).eval (among column accepts turns) (w, n) =
      (.error e, (turns n).others w, n + 1) := by
    obtain ⟨fault, hsome⟩ := Option.ne_none_iff_exists'.1 hfault
    have hserving : ∃ e, serving column accepts (turns n).draw (.findOneOrFail endpoint key)
        ((turns n).others w) = (.error e, (turns n).others w) := by
      simp only [serving, exec, hsome]
      cases fault with
      | refused e => exact ⟨e, rfl⟩
      | lost e => exact ⟨e, by simp only [Prog.Handler.meet, answer, hlookup]⟩
    obtain ⟨e, he⟩ := hserving
    exact ⟨e, (eval_call_among _).trans (by rw [he])⟩
  obtain ⟨e, he⟩ := hread
  unfold runClaimed
  refine ⟨e, ?_, ?_⟩
  · rw [Prog.bind_eq, Prog.eval_bind, he]
  · rw [Prog.bind_eq, Prog.eval_bind, he]
    exact congrArg (Option.map _) hlookup

variable (column accepts) in
/-- The second half when it resolves: the operation, and what follows it. -/
theorem eval_runClaimed_among (hspares : (turns n).Spares (endpoint, key))
    (hr : w.records.lookup (endpoint, key) = some r) (hfault : (turns n).draw.fault = none) :
    (runClaimed endpoint key).eval (among column accepts turns) (w, n) =
      ((do
          let result ← operation endpoint key
          save r.id (completed result)
          return result.body : Service Json).tryCatch (recordFailure r.id)).eval
        (among column accepts turns) ((turns n).others w, n + 1) := by
  have hread : (findOneOrFail endpoint key).eval (among column accepts turns) (w, n) =
      (.ok r, (turns n).others w, n + 1) := by
    refine (eval_call_among _).trans ?_
    simp only [serving, exec, hfault, Prog.Handler.meet, answer, (hspares w).trans hr]
  unfold runClaimed
  rw [Prog.bind_eq, Prog.eval_bind, hread]
  rfl

variable (column accepts) in
/-- The operation leaves the record alone. -/
theorem eval_operation (hspares : (turns n).Spares (endpoint, key))
    (hr : w.records.lookup (endpoint, key) = some r) :
    ∃ w', w'.records.lookup (endpoint, key) = some r ∧
      (operation endpoint key).eval (among column accepts turns) (w, n) =
        (match (turns n).draw.outcome with
          | .resolve result => .ok result
          | .reject e => .error e, w', n + 1) := by
  have hlookup := (hspares w).trans hr
  refine ⟨(serving column accepts (turns n).draw (.operation endpoint key)
    ((turns n).others w)).2, ?_, (eval_call_among _).trans ?_⟩
  · cases houtcome : (turns n).draw.outcome <;> simpa only [serving, answer, houtcome] using hlookup
  · cases houtcome : (turns n).draw.outcome <;> simp only [serving, answer, houtcome]

variable (column accepts) in
/-- **What the second half does** once the operation has settled. -/
theorem eval_runClaimed_settled (hspares : ∀ n, (turns n).Spares (endpoint, key))
    (hr : w.records.lookup (endpoint, key) = some r) (hfault : (turns n).draw.fault = none) :
    ∃ w', w'.records.lookup (endpoint, key) = some r ∧
      (runClaimed endpoint key).eval (among column accepts turns) (w, n) =
        (match (turns (n + 1)).draw.outcome with
          | .resolve result => ((do
              save r.id (completed result)
              return result.body : Service Json).tryCatch (recordFailure r.id))
          | .reject e => recordFailure r.id e).eval (among column accepts turns) (w', n + 2) := by
  have heval := eval_runClaimed_among column accepts (hspares n) hr hfault
  obtain ⟨w', hr', hop⟩ := eval_operation column accepts (hspares (n + 1)) ((hspares n _).trans hr)
  refine ⟨w', hr', heval.trans ?_⟩
  rw [Prog.eval_tryCatch, Prog.bind_eq, Prog.eval_bind, hop]
  cases (turns (n + 1)).draw.outcome with
  | resolve result => exact (Prog.eval_tryCatch ..).symm
  | reject e => rfl

variable (column accepts) in
/-- An operation that resolves leaves the record COMPLETED, or FAILED where its body
is refused. -/
theorem left_of_resolve (hspares : ∀ n, (turns n).Spares (endpoint, key))
    (hplain : Recordable accepts unstorable) (hr : w.records.lookup (endpoint, key) = some r)
    (hfault : (turns n).draw.fault = none) {result : OperationResult}
    (houtcome : (turns (n + 1)).draw.outcome = .resolve result) :
    ∃ r' status, (status = .completed ∨ status = .failed) ∧
      Left column accepts turns (endpoint, key) (runClaimed endpoint key) (w, n) r' status := by
  obtain ⟨w₂, hr₂, heval⟩ := eval_runClaimed_settled column accepts hspares hr hfault
  rw [houtcome] at heval
  dsimp only at heval
  rw [Prog.eval_tryCatch] at heval
  cases hbody : accepts result.body with
  | true =>
      obtain ⟨w₃, hstatus, hsave⟩ := eval_save_ok column (hspares (n + 2)) hr₂
        (p := completed result) hbody
      rw [Prog.bind_eq, Prog.eval_bind, hsave] at heval
      refine ⟨.ok result.body, .completed, Or.inl rfl, ?_, ?_⟩
      · rw [heval]
        rfl
      · rw [heval]
        exact hstatus
  | false =>
      have hsave := eval_save_refused column turns w₂ (n + 2) r.id (p := completed result) hbody
      rw [Prog.bind_eq, Prog.eval_bind, hsave] at heval
      obtain ⟨hresult, hstatus⟩ := (left_recordFailure column accepts
        (hspares (n + 3)) ((hspares (n + 2) _).trans hr₂) unstorable).1 hplain
      refine ⟨.error unstorable, .failed, Or.inr rfl, ?_, ?_⟩
      · rw [heval]
        exact hresult
      · rw [heval]
        exact hstatus

variable (column accepts) in
/-- An operation that rejects leaves it FAILED, where that can be recorded. -/
theorem left_of_reject (hspares : ∀ n, (turns n).Spares (endpoint, key))
    (hr : w.records.lookup (endpoint, key) = some r) (hfault : (turns n).draw.fault = none)
    {e : Exception} (houtcome : (turns (n + 1)).draw.outcome = .reject e) :
    (Recordable accepts e → Left column accepts turns (endpoint, key)
        (runClaimed endpoint key) (w, n) (.error e) .failed) ∧
      (¬ Recordable accepts e → ∃ e', Left column accepts turns (endpoint, key)
        (runClaimed endpoint key) (w, n) (.error e') r.status) := by
  obtain ⟨w₂, hr₂, heval⟩ := eval_runClaimed_settled column accepts hspares hr hfault
  rw [houtcome] at heval
  dsimp only at heval
  obtain ⟨hyes, hno⟩ := left_recordFailure column accepts (hspares (n + 2)) hr₂ e
  constructor
  · intro h
    obtain ⟨hresult, hstatus⟩ := hyes h
    exact ⟨by rw [heval]; exact hresult, by rw [heval]; exact hstatus⟩
  · intro h
    obtain ⟨e', hresult, hstatus⟩ := hno h
    exact ⟨e', by rw [heval]; exact hresult, by rw [heval]; exact hstatus⟩

/-- A record that is inserted is PROCESSING. -/
theorem processing_of_insertRecord (hspares : ∀ n, (turns n).Spares (endpoint, key))
    {requestHash : JsString} (hw : w.records.lookup (endpoint, key) = none)
    (h : (insertRecord endpoint key requestHash).eval (among column accepts turns) (w, n) =
      (.ok none, w', m)) :
    ∃ r, w'.records.lookup (endpoint, key) = some r ∧ r.status = .processing := by
  unfold insertRecord at h
  rw [Prog.tryCatch_eq, Prog.eval_tryCatch, Prog.bind_eq, Prog.eval_bind, insert,
    eval_call_among] at h
  simp only [serving, answer] at h
  have hnone := (hspares n w).trans hw
  cases hinsert : ((turns n).others w).records.insert? (NewRecord.row (turns n).draw.id
      (turns n).draw.now ⟨endpoint, key, requestHash, .processing⟩) with
  | some records =>
      rw [hinsert] at h
      simp only [Prog.pure_eq, Prog.eval_ret, Prod.mk.injEq] at h
      rw [← h.2.1]
      exact ⟨_, (IndexedTable.lookup_insert hinsert _).trans (if_pos rfl), rfl⟩
  | none =>
      rw [hinsert] at h
      simp only [duplicateRecord] at h
      rw [Prog.bind_eq, Prog.eval_bind, findOne, eval_call_among] at h
      simp only [serving, answer, (hspares (n + 1) _).trans hnone, Prog.throw_eq,
        Prog.eval_raise] at h
      simp at h

/-- **A record that is claimed is PROCESSING.** -/
theorem processing_of_claim (hspares : ∀ n, (turns n).Spares (endpoint, key))
    {requestHash : JsString}
    (h : (claim endpoint key requestHash).eval (among column accepts turns) (w, n) =
      (.ok none, w', m)) :
    ∃ r, w'.records.lookup (endpoint, key) = some r ∧ r.status = .processing := by
  have hlookup := hspares n w
  unfold claim at h
  rw [Prog.bind_eq, Prog.eval_bind, findOne, eval_call_among] at h
  simp only [serving, answer] at h
  cases hw : w.records.lookup (endpoint, key) with
  | none =>
      rw [hw] at hlookup
      rw [hlookup] at h
      exact processing_of_insertRecord hspares hlookup h
  | some r =>
      rw [hw] at hlookup
      rw [hlookup] at h
      dsimp only at h
      by_cases hhash : r.requestHash = requestHash
      · rw [assertRequestHash, if_neg (not_not.2 hhash), Prog.pure_eq, Prog.bind_eq,
          Prog.bind_ret] at h
        split_ifs at h with hreplay hprocessing
        · simp at h
        · simp at h
        · rw [Prog.bind_eq, Prog.eval_bind, update, eval_call_among] at h
          simp only [serving, answer, Prog.pure_eq, Prog.eval_ret, Prod.mk.injEq] at h
          rw [← h.2.1, show r.id = Keyed.key r from rfl]
          exact ⟨_, IndexedTable.lookup_update_self ((hspares (n + 1) _).trans hlookup) _, rfl⟩
      · rw [assertRequestHash, if_pos hhash, Prog.throw_eq, Prog.bind_eq, Prog.bind_raise] at h
        simp at h

end Calls

/-- The record has not been left PROCESSING, and the caller has got what the
operation, if it ran, rejected with: `n` is the number of the second read. -/
structure Releases (turns : ℕ → Turn) (k : JsString × JsString) (n : ℕ)
    (r : Except Exception Json × World × ℕ) : Prop where
  unstuck : r.2.1.Unstuck k
  rethrown : ∀ e, (turns n).draw.fault = none → (turns (n + 1)).draw.outcome = .reject e →
    r.1 = .error e

/-- The second read resolves, and a rejection can be recorded. -/
structure Recoverable (accepts : Json → Bool) (turns : ℕ → Turn) (n : ℕ) : Prop where
  read : (turns n).draw.fault = none
  recordable : ∀ e, (turns (n + 1)).draw.outcome = .reject e → Recordable accepts e

/-- **A request that claims its key leaves the record COMPLETED or FAILED and hands
on what its operation rejected with**, if and only if the record can be read again
and the rejection can be recorded. -/
theorem execute_unstuck_iff {π : Type} (createPayloadHash : π → JsString) (column : Jsonb)
    (accepts : Json → Bool) (turns : ℕ → Turn) (endpoint key : JsString) (payload : π)
    (w w₁ : World) (n : ℕ) (hkey : key ≠ [])
    (hspares : ∀ n, (turns n).Spares (endpoint, key)) (hplain : Recordable accepts unstorable)
    (hclaim : (claim endpoint key (createPayloadHash payload)).eval
      (among column accepts turns) (w, 0) = (.ok none, w₁, n)) :
    Releases turns (endpoint, key) n
        ((execute createPayloadHash endpoint (some key) payload).eval
          (among column accepts turns) (w, 0)) ↔
      Recoverable accepts turns n := by
  have hexecute : (execute createPayloadHash endpoint (some key) payload).eval
      (among column accepts turns) (w, 0) =
        (runClaimed endpoint key).eval (among column accepts turns) (w₁, n) := by
    cases key with
    | nil => exact absurd rfl hkey
    | cons c cs =>
        show (executeWithKey endpoint (c :: cs) (createPayloadHash payload)).eval _ _ = _
        rw [executeWithKey, Prog.bind_eq, Prog.eval_bind, hclaim]
  rw [hexecute]
  obtain ⟨r, hr, hprocessing⟩ := processing_of_claim hspares hclaim
  have hstuck : ∀ {s : World × ℕ}, s.1.statusOf (endpoint, key) = some r.status →
      ¬ s.1.Unstuck (endpoint, key) := by
    intro s hs h
    rw [World.Unstuck, hs, hprocessing] at h
    simp at h
  by_cases hfault : (turns n).draw.fault = none
  · cases houtcome : (turns (n + 1)).draw.outcome with
    | resolve result =>
        obtain ⟨r', status, hsettled, hleft⟩ :=
          left_of_resolve column accepts hspares hplain hr hfault houtcome
        refine iff_of_true ⟨?_, fun e _ he => ?_⟩ ⟨hfault, fun e he => ?_⟩
        · rw [World.Unstuck, hleft.status]
          exact hsettled.imp (congrArg some) (congrArg some)
        · cases houtcome.symm.trans he
        · cases houtcome.symm.trans he
    | reject e =>
        obtain ⟨hyes, hno⟩ := left_of_reject column accepts hspares hr hfault houtcome
        by_cases hrecordable : Recordable accepts e
        · obtain ⟨hresult, hstatus⟩ := hyes hrecordable
          refine iff_of_true ⟨Or.inr hstatus, fun e' _ he => ?_⟩ ⟨hfault, fun e' he => ?_⟩
          · obtain rfl := Outcome.reject.inj (houtcome.symm.trans he)
            exact hresult
          · obtain rfl := Outcome.reject.inj (houtcome.symm.trans he)
            exact hrecordable
        · obtain ⟨e', -, hstatus⟩ := hno hrecordable
          exact iff_of_false (fun h => hstuck hstatus h.unstuck)
            fun h => hrecordable (h.recordable e houtcome)
  · obtain ⟨e, -, hstatus⟩ :=
      left_runClaimed_of_fault column accepts (hspares n) hr hfault
    exact iff_of_false (fun h => hstuck hstatus h.unstuck) fun h => hfault h.read

/-- Nobody else is there, no call fails, and the operation settles so. -/
def settling (outcome : Outcome) : ℕ → Turn := fun _ =>
  ⟨⟨none, .ofText (js "r"), 0, outcome⟩, id⟩

/-- A first request with a key, whose operation settles so. -/
def firstRequest (outcome : Outcome) : Except Exception Json × World × ℕ :=
  (execute (fun _ : Unit => js "hash") (js "deposit") (some (js "key")) ()).eval
    (among .verbatim (fun _ => true) (settling outcome)) (.empty, 0)

/-- An `Error` is stored and handed on. -/
theorem execute_unstuck_iff_error :
    Releases (settling (.reject (.error (js "no")))) (js "deposit", js "key") 2
      (firstRequest (.reject (.error (js "no")))) := by
  refine (execute_unstuck_iff (fun _ : Unit => js "hash") .verbatim (fun _ => true)
    (settling (.reject (.error (js "no")))) (js "deposit") (js "key") () .empty _ 2 (by decide)
    (fun _ _ => rfl) ⟨_, rfl, rfl⟩ rfl).2 ⟨rfl, fun e he => ?_⟩
  obtain rfl := Outcome.reject.inj he
  exact ⟨_, rfl, rfl⟩

/-- **What is no `Error` leaves the key PROCESSING**, and the caller gets another
value. -/
theorem notAnError_stuck :
    (firstRequest (.reject .notAnError)).2.1.statusOf (js "deposit", js "key") =
        some .processing ∧
      (firstRequest (.reject .notAnError)).1 ≠ .error .notAnError := by
  refine ⟨by decide, fun h => ?_⟩
  exact absurd (Except.error.inj h) (by simp)

end Idempotency
end LedgerEngine
