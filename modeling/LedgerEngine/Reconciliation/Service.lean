/-
# The reconciliation job

`ReconciliationService.runReconciliation`
(`src/modules/reconciliation/reconciliation.service.ts`), its two queries and the
tables `reconciliation_runs` and `reconciliation_issues`.  The two queries read
the tables of the ledger as they are committed when the query runs; that state is
drawn with the call (`Draw.snapshot`).

The service instance's `running` flag is set and cleared between awaits; here
both are calls of their own, so more can happen around them than in the source.
The logging calls are left out.
-/

import LedgerEngine.Async.Program
import LedgerEngine.Common.Exceptions
import LedgerEngine.Ledger.Manager
import LedgerEngine.Store.Query

namespace LedgerEngine
namespace Reconciliation

open Ledger (Arith)

inductive ReconciliationRunStatus : Type
  | completed
  | failed
  deriving DecidableEq

inductive ReconciliationIssueType : Type
  | accountBalanceMismatch
  | unbalancedTransaction
  deriving DecidableEq

/-- A row of `reconciliation_runs`. -/
structure ReconciliationRunEntity where
  id : Uuid
  status : ReconciliationRunStatus
  totalIssues : ℕ
  errorMessage : Option JsString
  startedAt : Time
  completedAt : Option Time
  createdAt : Time
  deriving DecidableEq

/-- A row of `reconciliation_issues`. -/
structure ReconciliationIssueEntity where
  id : Uuid
  runId : Uuid
  issueType : ReconciliationIssueType
  referenceId : Option JsString
  details : Json
  createdAt : Time

instance : Keyed ReconciliationRunEntity Uuid := ⟨ReconciliationRunEntity.id⟩
instance : Keyed ReconciliationIssueEntity Uuid := ⟨ReconciliationIssueEntity.id⟩

@[simp] theorem ReconciliationRunEntity.key_eq (r : ReconciliationRunEntity) :
    Keyed.key r = r.id := rfl

@[simp] theorem ReconciliationIssueEntity.key_eq (i : ReconciliationIssueEntity) :
    Keyed.key i = i.id := rfl

/-! ### The queries -/

/-- A row of the first query. -/
structure AccountMismatch where
  accountId : Uuid
  accountBalance : ℤ
  ledgerBalance : ℤ

/-- A row of the second query. -/
structure UnbalancedTransaction where
  transactionId : Uuid
  debits : ℤ
  credits : ℤ

/-- `Number` reads the two amounts. -/
def AccountMismatch.number (ar : Arith) (row : AccountMismatch) : AccountMismatch :=
  ⟨row.accountId, ar.round row.accountBalance, ar.round row.ledgerBalance⟩

/-- `Number` reads the two amounts. -/
def UnbalancedTransaction.number (ar : Arith) (row : UnbalancedTransaction) :
    UnbalancedTransaction :=
  ⟨row.transactionId, ar.round row.debits, ar.round row.credits⟩

/-- `CASE WHEN le.entry_type = 'credit' THEN le.amount WHEN le.entry_type = 'debit'
THEN -le.amount ELSE 0 END`; the `ELSE` is for the NULLs of the join. -/
def signedAmount : Option LedgerEntryEntity → ℤ
  | some le => if le.entryType = .credit then le.amount
      else if le.entryType = .debit then -le.amount else 0
  | none => 0

/-- `CASE WHEN le.entry_type = type THEN le.amount ELSE 0 END`. -/
def amountOf (type : LedgerEntryType) (le : LedgerEntryEntity) : ℤ :=
  if le.entryType = type then le.amount else 0

/-- The rows the query of `findAccountBalanceMismatches` gives. -/
def accountMismatches (db : Db) : List AccountMismatch :=
  let joined := Query.leftJoin db.accounts.rows db.ledgerEntries.rows
    fun a le => le.accountId = some a.id
  (Query.groupBy (fun row => (row.1.id, row.1.balance)) joined).filterMap fun group =>
    let ledgerBalance :=
      (Query.sum (group.2.map fun row => some (signedAmount row.2))).getD 0
    if ledgerBalance ≠ group.1.2 then some ⟨group.1.1, group.1.2, ledgerBalance⟩ else none

/-- The rows the query of `findUnbalancedTransactions` gives. -/
def unbalancedTransactions (db : Db) : List UnbalancedTransaction :=
  (Query.groupBy LedgerEntryEntity.transactionId db.ledgerEntries.rows).filterMap fun group =>
    let debits := (Query.sum (group.2.map fun le => some (amountOf .debit le))).getD 0
    let credits := (Query.sum (group.2.map fun le => some (amountOf .credit le))).getD 0
    if debits ≠ credits then some ⟨group.1, debits, credits⟩ else none

/-! ### The calls -/

/-- A run to insert. -/
structure NewRun where
  status : ReconciliationRunStatus
  totalIssues : ℕ
  errorMessage : Option JsString
  startedAt : Time

def NewRun.row (now : Time) (id : Uuid) (r : NewRun) : ReconciliationRunEntity where
  id := id
  status := r.status
  totalIssues := r.totalIssues
  errorMessage := r.errorMessage
  startedAt := r.startedAt
  completedAt := none
  createdAt := now

/-- What `update` sets of a run; `none` leaves the column alone. -/
structure RunPatch where
  status : ReconciliationRunStatus
  totalIssues : Option ℕ
  errorMessage : Option JsString
  completedAt : Time

def RunPatch.apply (p : RunPatch) (r : ReconciliationRunEntity) : ReconciliationRunEntity :=
  { r with
    status := p.status
    totalIssues := p.totalIssues.getD r.totalIssues
    errorMessage := p.errorMessage.or r.errorMessage
    completedAt := some p.completedAt }

/-- A `varchar` column takes no U+0000. -/
def RunPatch.Fits (p : RunPatch) : Prop := ∀ message ∈ p.errorMessage, 0 ∉ message

instance (p : RunPatch) : Decidable p.Fits :=
  inferInstanceAs (Decidable (∀ message ∈ p.errorMessage, 0 ∉ message))

/-- An issue to insert. -/
structure NewIssue where
  runId : Uuid
  issueType : ReconciliationIssueType
  referenceId : Option JsString
  details : Json

def NewIssue.row (now : Time) (id : Uuid) (i : NewIssue) : ReconciliationIssueEntity where
  id := id
  runId := i.runId
  issueType := i.issueType
  referenceId := i.referenceId
  details := i.details
  createdAt := now

/-- The calls.  `enter` and `leave` name the service instance whose `running` they
set; `accountsFirst` asks which of two queries under way settles first. -/
inductive Command : Type
  | enter (service : ℕ)
  | leave (service : ℕ)
  | newDate
  | saveRun (run : NewRun)
  | accountsFirst
  | queryAccounts
  | queryTransactions
  | saveIssues (issues : List NewIssue)
  | updateRun (id : Uuid) (p : RunPatch)

/-- What each call resolves with. -/
abbrev Command.Res : Command → Type
  | .enter _ => Bool
  | .leave _ => Unit
  | .newDate => Time
  | .saveRun _ => ReconciliationRunEntity
  | .accountsFirst => Bool
  | .queryAccounts => List AccountMismatch
  | .queryTransactions => List UnbalancedTransaction
  | .saveIssues _ => List ReconciliationIssueEntity
  | .updateRun _ _ => Unit

/-- What is drawn for one call. -/
structure Draw where
  fault : Option (Fault Exception)
  now : Time
  /-- The ids the server draws for the rows of an insert. -/
  id : ℕ → Uuid
  /-- The ledger as it is committed when a query runs. -/
  snapshot : Db
  accountsFirst : Bool

/-- The tables, and the service instances with a run under way. -/
structure World where
  running : List ℕ
  runs : Table ReconciliationRunEntity
  issues : Table ReconciliationIssueEntity

def World.empty : World := ⟨[], .empty, .empty⟩

def violation : Exception := .queryFailed (js "a row violates a constraint")

def unstorable : Exception := .queryFailed (js "the value cannot be stored")

/-- The rows of one `save` of issues. -/
def issueRows (now : Time) (id : ℕ → Uuid) (issues : List NewIssue) :
    List ReconciliationIssueEntity :=
  issues.zipIdx.map fun i => i.1.row now (id i.2)

/-- The rows may be inserted: their ids are new, their runs exist. -/
def World.Accepts (w : World) (rows : List ReconciliationIssueEntity) : Prop :=
  (rows.map ReconciliationIssueEntity.id).Nodup ∧
    ∀ i ∈ rows, w.issues.find? i.id = none ∧ (w.runs.find? i.runId).isSome

instance (w : World) (rows : List ReconciliationIssueEntity) : Decidable (w.Accepts rows) :=
  have (i : ReconciliationIssueEntity) : Decidable (w.issues.find? i.id = none) :=
    decidable_of_iff ((w.issues.find? i.id).isNone = true) Option.isNone_iff_eq_none
  inferInstanceAs (Decidable (_ ∧ _))

/-- The runs with one of them patched; no change where there is none. -/
def World.updateRun (w : World) (id : Uuid) (p : RunPatch) : Table ReconciliationRunEntity :=
  match w.runs.find? id with
  | some r => w.runs.put (p.apply r)
  | none => w.runs

/-- A call that meets no fault.  `save` of several issues is one transaction. -/
def answer (ω : Draw) : (c : Command) → World → Except Exception c.Res × World
  | .enter service, w =>
      (.ok (service ∉ w.running), { w with running := w.running.insert service })
  | .leave service, w => (.ok (), { w with running := w.running.filter fun s => s ≠ service })
  | .newDate, w => (.ok ω.now, w)
  | .saveRun run, w =>
      if (w.runs.find? (ω.id 0)).isSome then (.error violation, w)
      else (.ok (run.row ω.now (ω.id 0)), { w with runs := w.runs.insert (run.row ω.now (ω.id 0)) })
  | .accountsFirst, w => (.ok ω.accountsFirst, w)
  | .queryAccounts, w => (.ok (accountMismatches ω.snapshot), w)
  | .queryTransactions, w => (.ok (unbalancedTransactions ω.snapshot), w)
  | .saveIssues issues, w =>
      if w.Accepts (issueRows ω.now ω.id issues) then
        (.ok (issueRows ω.now ω.id issues),
          { w with issues := w.issues.insertAll (issueRows ω.now ω.id issues) })
      else (.error violation, w)
  | .updateRun id p, w =>
      if p.Fits then (.ok (), { w with runs := w.updateRun id p }) else (.error unstorable, w)

/-- The calls that go to the database. -/
def Command.stores : Command → Bool
  | .saveRun _ | .queryAccounts | .queryTransactions | .saveIssues _ | .updateRun _ _ => true
  | _ => false

/-- A call, with what was drawn for it; only the database fails. -/
def exec (ω : Draw) : Prog.Handler Command Command.Res Exception World := fun c =>
  if c.stores then Prog.Handler.meet (answer ω) ω.fault c else answer ω c

/-- A call that meets no fault. -/
theorem exec_of_fault_eq_none {ω : Draw} (h : ω.fault = none) (c : Command) (w : World) :
    exec ω c w = answer ω c w := by
  unfold exec
  rw [h]
  split_ifs <;> rfl

/-- A call that resolves has met no fault. -/
theorem exec_of_ok {ω : Draw} {c : Command} {w : World} {r : c.Res} (h : (exec ω c w).1 = .ok r) :
    exec ω c w = answer ω c w := by
  unfold exec at h ⊢
  split_ifs at h ⊢
  · exact Prog.Handler.meet_of_ok h
  · rfl

/-! ### The service -/

abbrev Service := Prog Command Command.Res Exception

def newDate : Service Time := .await Command.newDate
def saveRun (run : NewRun) : Service ReconciliationRunEntity := .await (Command.saveRun run)
def updateRun (id : Uuid) (p : RunPatch) : Service Unit := .await (Command.updateRun id p)

def saveIssues (issues : List NewIssue) : Service (List ReconciliationIssueEntity) :=
  .await (Command.saveIssues issues)

/-- `findAccountBalanceMismatches`. -/
def findAccountBalanceMismatches (ar : Arith) : Service (List AccountMismatch) := do
  let rows : List AccountMismatch ← .await Command.queryAccounts
  return rows.map (AccountMismatch.number ar)

/-- `findUnbalancedTransactions`. -/
def findUnbalancedTransactions (ar : Arith) : Service (List UnbalancedTransaction) := do
  let rows : List UnbalancedTransaction ← .await Command.queryTransactions
  return rows.map (UnbalancedTransaction.number ar)

/-- `Promise.all` of the two: they settle in either order, and the first error to
come is thrown. -/
def findBoth (ar : Arith) : Service (List AccountMismatch × List UnbalancedTransaction) := do
  let first : Bool ← .await Command.accountsFirst
  if first then do
    let accountMismatches ← findAccountBalanceMismatches ar
    let unbalancedTransactions ← findUnbalancedTransactions ar
    return (accountMismatches, unbalancedTransactions)
  else do
    let unbalancedTransactions ← findUnbalancedTransactions ar
    let accountMismatches ← findAccountBalanceMismatches ar
    return (accountMismatches, unbalancedTransactions)

/-- The issue for an account. -/
def accountIssue (runId : Uuid) (mismatch : AccountMismatch) : NewIssue where
  runId := runId
  issueType := .accountBalanceMismatch
  referenceId := some mismatch.accountId.text
  details := .obj [(js "accountId", .str mismatch.accountId.text),
    (js "accountBalance", .num mismatch.accountBalance),
    (js "ledgerBalance", .num mismatch.ledgerBalance)]

/-- The issue for a transaction. -/
def transactionIssue (runId : Uuid) (transaction : UnbalancedTransaction) : NewIssue where
  runId := runId
  issueType := .unbalancedTransaction
  referenceId := some transaction.transactionId.text
  details := .obj [(js "transactionId", .str transaction.transactionId.text),
    (js "debits", .num transaction.debits), (js "credits", .num transaction.credits)]

/-- The issues for what the two queries have found. -/
def issuesFor (runId : Uuid) (found : List AccountMismatch × List UnbalancedTransaction) :
    List NewIssue :=
  found.1.map (accountIssue runId) ++ found.2.map (transactionIssue runId)

/-- What `runReconciliation` resolves with. -/
inductive RunResult : Type
  | skipped (reason : JsString)
  | ran (runId : Uuid) (status : ReconciliationRunStatus) (totalIssues : ℕ)
  deriving DecidableEq

/-- `if (issues.length > 0)` the issues are saved. -/
def saveFound (issues : List NewIssue) : Service Unit :=
  if 0 < issues.length then do
    let _ ← saveIssues issues
    return ()
  else return ()

/-- The `try` block. -/
def reconcile (ar : Arith) (run : ReconciliationRunEntity) : Service RunResult := do
  let found ← findBoth ar
  let issues := issuesFor run.id found
  saveFound issues
  let completedAt ← newDate
  updateRun run.id
    { status := .completed, totalIssues := some issues.length, errorMessage := none, completedAt }
  return .ran run.id .completed issues.length

/-- The `catch` block. -/
def recordFailure (run : ReconciliationRunEntity) (error : Exception) : Service RunResult := do
  let completedAt ← newDate
  updateRun run.id
    { status := .failed, totalIssues := none
      errorMessage := some (error.messageOr (js "Reconciliation failed")), completedAt }
  return .ran run.id .failed 0

/-- `finally { this.running = false; }` after a block. -/
def thenLeave (service : ℕ) (block : Service RunResult) : Service RunResult :=
  block.andThen fun result => do
    .await (Command.leave service)
    match result with
    | .ok r => return r
    | .error e => throw e

/-- `runReconciliation`, up to the `try`: the run is saved as COMPLETED, to be
corrected later. -/
def startRun : Service ReconciliationRunEntity := do
  let startedAt ← newDate
  saveRun { status := .completed, totalIssues := 0, errorMessage := none, startedAt }

/-- `runReconciliation` of one service instance.  Where the first `save` throws,
nothing clears `running` again. -/
def runReconciliation (ar : Arith) (service : ℕ) : Service RunResult := do
  let entered : Bool ← .await (Command.enter service)
  if entered then do
    let run ← startRun
    thenLeave service (tryCatch (reconcile ar run) (recordFailure run))
  else return .skipped (js "already_running")

end Reconciliation
end LedgerEngine
