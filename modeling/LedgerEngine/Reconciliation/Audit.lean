/-
# What a reconciliation run reports

On any contents of the tables the two queries find the accounts whose balance is
not the sum of their entries and the transactions whose debits are not their
credits (`accountMismatches_perm`, `unbalancedTransactions_eq`), and a run that
meets no fault stores one issue for each of them and no other (`runAlone_reports`).
The arithmetic is asked nothing: the comparison is made by the database.

A run completes without issues on just those contents that pass the two checks
(`completes_clean_iff`), which is less than what the ledger promises: the checks add up
amounts in different currencies, and see neither a transaction without entries
nor one whose amount its entries do not have (`foreignLeg_passes`).
-/

import LedgerEngine.Async.Triple
import LedgerEngine.Ledger.Balance
import LedgerEngine.Ledger.DoubleEntry
import LedgerEngine.Reconciliation.Service

namespace LedgerEngine
namespace Reconciliation

open Ledger (Arith amounts net)

/-! ### The queries -/

/-- The entries of a transaction on one side, summed. -/
def sideOf (db : Db) (type : LedgerEntryType) (transactionId : Uuid) : ℤ :=
  amounts type (fun e => e.transactionId = transactionId) db.ledgerEntries.rows

/-- The balance is the sum of the account's credit entries less its debit entries. -/
def Agrees (db : Db) (a : AccountEntity) : Prop := a.balance = net a.id db.ledgerEntries.rows

instance (db : Db) (a : AccountEntity) : Decidable (Agrees db a) :=
  inferInstanceAs (Decidable (_ = _))

/-- Debits and credits of the transaction are the same. -/
def Even (db : Db) (transactionId : Uuid) : Prop :=
  sideOf db .debit transactionId = sideOf db .credit transactionId

instance (db : Db) (transactionId : Uuid) : Decidable (Even db transactionId) :=
  inferInstanceAs (Decidable (_ = _))

/-- A sum of `CASE`s over some of the entries. -/
theorem sum_amountOf (type : LedgerEntryType) (P : LedgerEntryEntity → Prop) [DecidablePred P]
    (es : List LedgerEntryEntity) :
    ((es.filter P).map (amountOf type)).sum = amounts type P es := by
  have hsum := Query.sum_map_ite (es.filter P) (fun e => e.entryType = type)
    LedgerEntryEntity.amount
  rw [List.filter_filter] at hsum
  simp only [amounts, Bool.decide_and]
  exact hsum

theorem signedAmount_some (e : LedgerEntryEntity) :
    signedAmount (some e) = amountOf .credit e - amountOf .debit e := by
  unfold signedAmount amountOf
  cases h : e.entryType <;> simp [h]

/-- The signed amounts of an account's entries add up to what they are worth. -/
theorem sum_signedAmount (accountId : Uuid) (es : List LedgerEntryEntity) :
    ((Query.matches? es fun e => e.accountId = some accountId).map signedAmount).sum =
      net accountId es := by
  rw [Query.sum_map_matches _ _ rfl, net, ← sum_amountOf, ← sum_amountOf]
  simp only [signedAmount_some]
  induction es.filter fun e => e.accountId = some accountId with
  | nil => rfl
  | cons e es ih =>
      simp only [List.map_cons, List.sum_cons]
      rw [ih]
      ring

/-- **The first query finds the accounts whose balance is not the sum of their
entries**, each once. -/
theorem accountMismatches_perm (db : Db) :
    (accountMismatches db).Perm ((db.accounts.rows.filter fun a => ¬ Agrees db a).map fun a =>
      ⟨a.id, a.balance, net a.id db.ledgerEntries.rows⟩) := by
  have hn : (db.accounts.rows.map fun a => (a.id, a.balance)).Nodup := by
    refine List.Nodup.of_map Prod.fst ?_
    rw [List.map_map]
    exact db.accounts.nodup
  have hgroups := Query.groupBy_leftJoin hn db.ledgerEntries.rows
    fun a le => le.accountId = some a.id
  refine (hgroups.filterMap _).trans (List.Perm.of_eq ?_)
  rw [List.filterMap_map, ← Query.filterMap_ite]
  refine List.filterMap_congr fun a _ => ?_
  have hsum : (Query.sum (((Query.matches? db.ledgerEntries.rows
      fun le => le.accountId = some a.id).map fun y => (a, y)).map
        fun row => some (signedAmount row.2))).getD 0 = net a.id db.ledgerEntries.rows := by
    rw [← sum_signedAmount, ← Query.sum_map_some, List.map_map, List.map_map]
    rfl
  simp only [Function.comp_apply]
  rw [hsum]
  by_cases h : a.balance = net a.id db.ledgerEntries.rows
  · have hagrees : Agrees db a := h
    rw [if_neg (not_not.2 h.symm), if_neg (not_not.2 hagrees)]
  · have hagrees : ¬ Agrees db a := h
    rw [if_pos (Ne.symm h), if_pos hagrees]

/-- **The second query finds the transactions whose debits are not their credits**,
each once. -/
theorem unbalancedTransactions_eq (db : Db) :
    unbalancedTransactions db =
      ((db.ledgerEntries.rows.map LedgerEntryEntity.transactionId).dedup.filter
        fun id => ¬ Even db id).map fun id => ⟨id, sideOf db .debit id, sideOf db .credit id⟩ := by
  have hside : ∀ type id, (Query.sum ((db.ledgerEntries.rows.filter
      fun e => e.transactionId = id).map fun le => some (amountOf type le))).getD 0 =
        sideOf db type id := by
    intro type id
    rw [sideOf, ← sum_amountOf, ← Query.sum_map_some, List.map_map]
    rfl
  rw [unbalancedTransactions, Query.groupBy, List.filterMap_map, ← Query.filterMap_ite]
  refine List.filterMap_congr fun id _ => ?_
  simp only [Function.comp_apply, hside]
  rfl

/-- A transaction without entries is even. -/
theorem even_of_notMem {db : Db} {id : Uuid}
    (h : id ∉ db.ledgerEntries.rows.map LedgerEntryEntity.transactionId) : Even db id := by
  have hzero : ∀ type, sideOf db type id = 0 := by
    intro type
    have hnil : (db.ledgerEntries.rows.filter
        fun e => e.entryType = type ∧ e.transactionId = id) = [] := by
      rw [List.filter_eq_nil_iff]
      intro e he
      have hne : e.transactionId ≠ id := fun hid => h (hid ▸ List.mem_map_of_mem he)
      simp [hne]
    rw [sideOf, amounts, hnil]
    rfl
  rw [Even, hzero, hzero]

/-! ### The issues of a run -/

/-- The run's issues are one for each account that does not agree, one for each
transaction that is not even, and no other. -/
structure Reports (accounts transactions : Db) (runId : Uuid)
    (issues : List ReconciliationIssueEntity) : Prop where
  runId : ∀ i ∈ issues, i.runId = runId
  account : ∀ a ∈ accounts.accounts.rows, ¬ Agrees accounts a →
    ∃! i, i ∈ issues ∧ i.issueType = .accountBalanceMismatch ∧ i.referenceId = some a.id.text
  transaction : ∀ id, ¬ Even transactions id →
    ∃! i, i ∈ issues ∧ i.issueType = .unbalancedTransaction ∧ i.referenceId = some id.text
  only : ∀ i ∈ issues,
    (i.issueType = .accountBalanceMismatch ∧
      ∃ a ∈ accounts.accounts.rows, ¬ Agrees accounts a ∧ i.referenceId = some a.id.text) ∨
    (i.issueType = .unbalancedTransaction ∧
      ∃ id, ¬ Even transactions id ∧ i.referenceId = some id.text)

/-- What the two queries give on the states they read, as numbers. -/
def found (ar : Arith) (accounts transactions : Db) :
    List AccountMismatch × List UnbalancedTransaction :=
  ((accountMismatches accounts).map (AccountMismatch.number ar),
    (unbalancedTransactions transactions).map (UnbalancedTransaction.number ar))

/-- What an issue is about. -/
def NewIssue.subject (i : NewIssue) : ReconciliationIssueType × Option JsString :=
  (i.issueType, i.referenceId)

theorem mem_accountMismatches {db : Db} {id : Uuid} :
    id ∈ (accountMismatches db).map AccountMismatch.accountId ↔
      ∃ a ∈ db.accounts.rows, ¬ Agrees db a ∧ a.id = id := by
  rw [((accountMismatches_perm db).map _).mem_iff, List.map_map]
  simp [and_assoc]

theorem mem_unbalancedTransactions {db : Db} {id : Uuid} :
    id ∈ (unbalancedTransactions db).map UnbalancedTransaction.transactionId ↔ ¬ Even db id := by
  rw [unbalancedTransactions_eq, List.map_map]
  have hid : (UnbalancedTransaction.transactionId ∘ fun id : Uuid =>
      (⟨id, sideOf db .debit id, sideOf db .credit id⟩ : UnbalancedTransaction)) = fun id => id :=
    rfl
  rw [hid, List.map_id', List.mem_filter, List.mem_dedup, decide_eq_true_eq]
  constructor
  · exact And.right
  · intro h
    refine ⟨?_, h⟩
    by_contra hmem
    exact h (even_of_notMem hmem)

theorem subjects_issuesFor (ar : Arith) (accounts transactions : Db) (runId : Uuid) :
    (issuesFor runId (found ar accounts transactions)).map NewIssue.subject =
      ((accountMismatches accounts).map AccountMismatch.accountId).map
        (fun id => (.accountBalanceMismatch, some id.text)) ++
      ((unbalancedTransactions transactions).map UnbalancedTransaction.transactionId).map
        (fun id => (.unbalancedTransaction, some id.text)) := by
  simp only [issuesFor, found, List.map_append, List.map_map]
  rfl

theorem text_injective : Function.Injective Uuid.text := by
  intro u v h
  rw [← Uuid.ofText_text u, h, Uuid.ofText_text]

/-- No two issues of a run are about the same. -/
theorem nodup_subjects (ar : Arith) (accounts transactions : Db) (runId : Uuid) :
    ((issuesFor runId (found ar accounts transactions)).map NewIssue.subject).Nodup := by
  have hsubject : ∀ type : ReconciliationIssueType,
      Function.Injective fun id : Uuid => (type, some id.text) := by
    intro type u v h
    simp only [Prod.mk.injEq, Option.some.injEq, true_and] at h
    exact text_injective h
  rw [subjects_issuesFor]
  refine List.nodup_append'.2 ⟨?_, ?_, ?_⟩
  · refine List.Nodup.map (hsubject _) ?_
    rw [((accountMismatches_perm accounts).map _).nodup_iff, List.map_map]
    exact accounts.accounts.nodup.sublist (List.filter_sublist.map _)
  · refine List.Nodup.map (hsubject _) ?_
    rw [unbalancedTransactions_eq, List.map_map]
    exact ((List.nodup_dedup _).filter _).map fun _ _ h => h
  · intro x hx hx'
    obtain ⟨_, -, rfl⟩ := List.mem_map.1 hx
    obtain ⟨_, -, h⟩ := List.mem_map.1 hx'
    simp at h

/-- The rows of a `save` are about what its issues are about. -/
theorem subjects_issueRows (now : Time) (id : ℕ → Uuid) (issues : List NewIssue) :
    (issueRows now id issues).map (fun i => (i.issueType, i.referenceId)) =
      issues.map NewIssue.subject := by
  rw [issueRows, List.map_map]
  conv_rhs => rw [← List.zipIdx_map_fst 0 issues, List.map_map]
  rfl

theorem runId_of_mem_issueRows {now : Time} {id : ℕ → Uuid} {ar : Arith}
    {accounts transactions : Db} {runId : Uuid} {i : ReconciliationIssueEntity}
    (h : i ∈ issueRows now id (issuesFor runId (found ar accounts transactions))) :
    i.runId = runId := by
  obtain ⟨⟨issue, n⟩, hissue, rfl⟩ := List.mem_map.1 h
  have hmem : issue ∈ issuesFor runId (found ar accounts transactions) :=
    List.fst_mem_of_mem_zipIdx hissue
  rcases List.mem_append.1 hmem with hmem | hmem
  · obtain ⟨_, -, rfl⟩ := List.mem_map.1 hmem
    rfl
  · obtain ⟨_, -, rfl⟩ := List.mem_map.1 hmem
    rfl

/-- **The rows a run saves are its report.** -/
theorem reports_issueRows (ar : Arith) (accounts transactions : Db) (runId : Uuid) (now : Time)
    (id : ℕ → Uuid) : Reports accounts transactions runId
      (issueRows now id (issuesFor runId (found ar accounts transactions))) := by
  have hsubjects := (subjects_issueRows now id _).trans
    (subjects_issuesFor ar accounts transactions runId)
  have hnodup := nodup_subjects ar accounts transactions runId
  rw [← subjects_issueRows now id] at hnodup
  have hunique : ∀ type subject, (type, some subject) ∈
      (issueRows now id (issuesFor runId (found ar accounts transactions))).map
        (fun i => (i.issueType, i.referenceId)) →
      ∃! i, i ∈ issueRows now id (issuesFor runId (found ar accounts transactions)) ∧
        i.issueType = type ∧ i.referenceId = some subject := by
    intro type subject hmem
    obtain ⟨i, hi, he⟩ := List.mem_map.1 hmem
    obtain ⟨htype, href⟩ := Prod.mk.inj he
    refine ⟨i, ⟨hi, htype, href⟩, ?_⟩
    rintro j ⟨hj, htype', href'⟩
    refine List.inj_on_of_nodup_map hnodup hj hi ?_
    rw [htype, href, htype', href']
  constructor
  · intro i hi
    exact runId_of_mem_issueRows hi
  · intro a ha hagrees
    refine hunique _ _ ?_
    rw [hsubjects]
    refine List.mem_append_left _ (List.mem_map_of_mem (mem_accountMismatches.2 ?_))
    exact ⟨a, ha, hagrees, rfl⟩
  · intro transactionId heven
    refine hunique _ _ ?_
    rw [hsubjects]
    exact List.mem_append_right _ (List.mem_map_of_mem (mem_unbalancedTransactions.2 heven))
  · intro i hi
    have hmem : (i.issueType, i.referenceId) ∈
        (issueRows now id (issuesFor runId (found ar accounts transactions))).map
          (fun i => (i.issueType, i.referenceId)) := List.mem_map_of_mem hi
    rw [hsubjects] at hmem
    rcases List.mem_append.1 hmem with hmem | hmem
    · obtain ⟨u, hu, he⟩ := List.mem_map.1 hmem
      obtain ⟨htype, href⟩ := Prod.mk.inj he
      obtain ⟨a, ha, hagrees, rfl⟩ := mem_accountMismatches.1 hu
      exact Or.inl ⟨htype.symm, a, ha, hagrees, href.symm⟩
    · obtain ⟨u, hu, he⟩ := List.mem_map.1 hmem
      obtain ⟨htype, href⟩ := Prod.mk.inj he
      exact Or.inr ⟨htype.symm, u, mem_unbalancedTransactions.1 hu, href.symm⟩

/-! ### A run on its own -/

/-- A run with nothing else going on, its `n`-th call meeting `script n`. -/
def runAlone (ar : Arith) (service : ℕ) (script : ℕ → Draw) (w : World) :
    Except Exception RunResult × World :=
  (((runReconciliation ar service).eval (Prog.Handler.scripted exec script) (w, 0)).1,
    ((runReconciliation ar service).eval (Prog.Handler.scripted exec script) (w, 0)).2.1)

/-- The states that the query for accounts and the query for transactions read, if
they are the calls after call `n`. -/
def snapshots (script : ℕ → Draw) (n : ℕ) : Db × Db :=
  if (script n).accountsFirst then ((script (n + 1)).snapshot, (script (n + 2)).snapshot)
  else ((script (n + 2)).snapshot, (script (n + 1)).snapshot)

/-- Nothing goes wrong with a call: it meets no fault, and ids it draws are new. -/
structure Draw.Smooth (w : World) (ω : Draw) : Prop where
  fault : ω.fault = none
  distinct : Function.Injective ω.id
  run : w.runs.find? (ω.id 0) = none
  issue : ∀ i, w.issues.find? (ω.id i) = none

section Alone

variable {ar : Arith} {script : ℕ → Draw} {w : World} {n : ℕ}

theorem eval_findBoth (h : ∀ n, (script n).fault = none) :
    (findBoth ar).eval (Prog.Handler.scripted exec script) (w, n) =
      (.ok (found ar (snapshots script n).1 (snapshots script n).2), (w, n + 3)) := by
  cases hfirst : (script n).accountsFirst <;>
    simp only [findBoth, findAccountBalanceMismatches, findUnbalancedTransactions, Prog.bind_eq,
      Prog.pure_eq, Prog.eval_bind, Prog.eval_await, Prog.Handler.scripted,
      exec_of_fault_eq_none (h _), answer, hfirst, snapshots, found, Prog.eval_ret, if_true,
      if_false, Bool.false_eq_true]

theorem eval_await_ok {c : Command} {r : c.Res} {s : World × ℕ}
    (h : (Prog.await c : Service c.Res).eval (Prog.Handler.scripted exec script) (w, n) =
      (.ok r, s)) : answer (script n) c w = (.ok r, s.1) ∧ s.2 = n + 1 := by
  rw [Prog.eval_await] at h
  obtain ⟨hr, hs⟩ := Prod.mk.inj h
  rw [← exec_of_ok hr, ← hs]
  exact ⟨Prod.ext hr rfl, rfl⟩

/-- A query that returns what it computes from the rows it reads. -/
theorem eval_await_map_ok {α : Type} {c : Command} {g : c.Res → α} {r : α} {s : World × ℕ}
    (h : (do
      let rows ← .await c
      return g rows : Service α).eval (Prog.Handler.scripted exec script) (w, n) = (.ok r, s)) :
    ∃ rows, answer (script n) c w = (.ok rows, s.1) ∧ r = g rows ∧ s.2 = n + 1 := by
  obtain ⟨rows, s₁, h₁, h₂⟩ := Prog.eval_bind_ok h
  obtain ⟨hrows, hs⟩ := eval_await_ok h₁
  obtain ⟨hr, rfl⟩ := Prod.mk.inj h₂
  exact ⟨rows, hrows, (Except.ok.inj hr).symm, hs⟩

theorem eval_findAccountBalanceMismatches_ok {r : List AccountMismatch} {s : World × ℕ}
    (h : (findAccountBalanceMismatches ar).eval (Prog.Handler.scripted exec script) (w, n) =
      (.ok r, s)) :
    r = (accountMismatches (script n).snapshot).map (AccountMismatch.number ar) ∧
      s = (w, n + 1) := by
  obtain ⟨rows, hrows, hr, hs⟩ := eval_await_map_ok h
  obtain ⟨hrows, hw⟩ := Prod.mk.inj hrows
  obtain rfl := Except.ok.inj hrows
  exact ⟨hr, Prod.ext hw.symm hs⟩

theorem eval_findUnbalancedTransactions_ok {r : List UnbalancedTransaction} {s : World × ℕ}
    (h : (findUnbalancedTransactions ar).eval (Prog.Handler.scripted exec script) (w, n) =
      (.ok r, s)) :
    r = (unbalancedTransactions (script n).snapshot).map (UnbalancedTransaction.number ar) ∧
      s = (w, n + 1) := by
  obtain ⟨rows, hrows, hr, hs⟩ := eval_await_map_ok h
  obtain ⟨hrows, hw⟩ := Prod.mk.inj hrows
  obtain rfl := Except.ok.inj hrows
  exact ⟨hr, Prod.ext hw.symm hs⟩

/-- Two queries that have both answered have given what they find. -/
theorem eval_findBoth_ok {r : List AccountMismatch × List UnbalancedTransaction} {s : World × ℕ}
    (h : (findBoth ar).eval (Prog.Handler.scripted exec script) (w, n) = (.ok r, s)) :
    r = found ar (snapshots script n).1 (snapshots script n).2 := by
  obtain ⟨first, s₁, h₁, h⟩ := Prog.eval_bind_ok h
  obtain ⟨hanswer, hs⟩ := eval_await_ok h₁
  obtain ⟨hvalue, hw⟩ := Prod.mk.inj hanswer
  obtain rfl := Except.ok.inj hvalue
  obtain rfl : s₁ = (w, n + 1) := Prod.ext hw.symm hs
  cases hfirst : (script n).accountsFirst with
  | true =>
      simp only [hfirst, if_true] at h
      obtain ⟨accounts, s₂, h₂, h⟩ := Prog.eval_bind_ok h
      obtain ⟨rfl, rfl⟩ := eval_findAccountBalanceMismatches_ok h₂
      obtain ⟨transactions, s₃, h₃, h⟩ := Prog.eval_bind_ok h
      obtain ⟨rfl, rfl⟩ := eval_findUnbalancedTransactions_ok h₃
      obtain ⟨hr, -⟩ := Prod.mk.inj h
      simp only [snapshots, hfirst, if_true]
      exact (Except.ok.inj hr).symm
  | false =>
      simp only [hfirst, Bool.false_eq_true, if_false] at h
      obtain ⟨transactions, s₂, h₂, h⟩ := Prog.eval_bind_ok h
      obtain ⟨rfl, rfl⟩ := eval_findUnbalancedTransactions_ok h₂
      obtain ⟨accounts, s₃, h₃, h⟩ := Prog.eval_bind_ok h
      obtain ⟨rfl, rfl⟩ := eval_findAccountBalanceMismatches_ok h₃
      obtain ⟨hr, -⟩ := Prod.mk.inj h
      simp only [snapshots, hfirst, Bool.false_eq_true, if_false]
      exact (Except.ok.inj hr).symm

theorem eval_thenLeave_ok {service : ℕ} {block : Service RunResult} {r : RunResult}
    {s s' : World × ℕ}
    (h : (thenLeave service block).eval (Prog.Handler.scripted exec script) s = (.ok r, s')) :
    (block.eval (Prog.Handler.scripted exec script) s).1 = .ok r := by
  rw [thenLeave, Prog.eval_andThen] at h
  obtain ⟨-, s₁, -, h⟩ := Prog.eval_bind_ok h
  cases hblock : (block.eval (Prog.Handler.scripted exec script) s).1 with
  | ok r' =>
      rw [hblock] at h
      obtain ⟨hr, -⟩ := Prod.mk.inj h
      exact hr
  | error e =>
      rw [hblock] at h
      exact absurd h (by simp)

theorem eval_startRun_ok {run : ReconciliationRunEntity} {s : World × ℕ}
    (h : startRun.eval (Prog.Handler.scripted exec script) (w, n) = (.ok run, s)) :
    s.2 = n + 2 := by
  obtain ⟨startedAt, s₁, h₁, h⟩ := Prog.eval_bind_ok h
  obtain ⟨-, hs₁⟩ := eval_await_ok h₁
  obtain ⟨-, hs⟩ := eval_await_ok (w := s₁.1) (n := s₁.2) h
  omega

/-- **A run that resolves with COMPLETED** has as many issues as the two queries found. -/
theorem runAlone_completed {service : ℕ} {runId : Uuid} {total : ℕ}
    (h : (runAlone ar service script w).1 = .ok (.ran runId .completed total)) :
    total = (issuesFor runId (found ar (snapshots script 3).1 (snapshots script 3).2)).length := by
  obtain ⟨entered, s₁, h₁, h⟩ := Prog.eval_bind_ok (Prod.ext h rfl :
    (runReconciliation ar service).eval (Prog.Handler.scripted exec script) (w, 0) = (_, _))
  obtain ⟨-, hs₁⟩ := eval_await_ok h₁
  cases entered with
  | false =>
      simp only [Bool.false_eq_true, if_false] at h
      obtain ⟨hr, -⟩ := Prod.mk.inj h
      exact absurd hr (by simp)
  | true =>
      simp only [if_true] at h
      obtain ⟨run, s₂, h₂, h⟩ := Prog.eval_bind_ok h
      have hs₂ := eval_startRun_ok (w := s₁.1) (n := s₁.2) h₂
      have hblock := eval_thenLeave_ok h
      rw [Prog.tryCatch_eq, Prog.eval_tryCatch] at hblock
      cases hreconcile : (reconcile ar run).eval (Prog.Handler.scripted exec script) s₂ with
      | mk r s₃ =>
          rw [hreconcile] at hblock
          cases r with
          | error e =>
              -- the `catch` block resolves with FAILED
              obtain ⟨_, s₄, -, hfailed⟩ := Prog.eval_bind_ok (Prod.ext hblock rfl :
                (recordFailure run e).eval (Prog.Handler.scripted exec script) s₃ = (_, _))
              obtain ⟨_, s₅, -, hfailed⟩ := Prog.eval_bind_ok hfailed
              obtain ⟨hr, -⟩ := Prod.mk.inj hfailed
              exact absurd hr (by simp)
          | ok r =>
              obtain rfl := Except.ok.inj hblock
              obtain ⟨rows, s₄, h₄, h⟩ := Prog.eval_bind_ok hreconcile
              obtain ⟨_, s₅, -, h⟩ := Prog.eval_bind_ok h
              obtain ⟨_, s₆, -, h⟩ := Prog.eval_bind_ok h
              obtain ⟨_, s₇, -, h⟩ := Prog.eval_bind_ok h
              obtain ⟨hr, -⟩ := Prod.mk.inj h
              have hfound := eval_findBoth_ok (w := s₂.1) (n := s₂.2) h₄
              have hn : s₂.2 = 3 := by omega
              simp only [Except.ok.injEq, RunResult.ran.injEq] at hr
              obtain ⟨rfl, -, htotal⟩ := hr
              rw [← htotal, hfound, hn]

/-- The rows of a `save` of issues of a run that exists can be inserted. -/
theorem accepts_issueRows (ar : Arith) {ω : Draw} {w' : World} (hω : ω.Smooth w)
    (hissues : w'.issues = w.issues) {runId : Uuid} (hrun : (w'.runs.find? runId).isSome)
    (accounts transactions : Db) :
    w'.Accepts (issueRows ω.now ω.id (issuesFor runId (found ar accounts transactions))) := by
  constructor
  · have hids : ∀ issues : List NewIssue,
        (issueRows ω.now ω.id issues).map ReconciliationIssueEntity.id =
          (List.range issues.length).map ω.id := by
      intro issues
      rw [issueRows, List.map_map, List.range_eq_range', ← List.zipIdx_map_snd 0 issues,
        List.map_map]
      rfl
    rw [hids]
    exact List.nodup_range.map hω.distinct
  · intro i hi
    refine ⟨?_, ?_⟩
    · obtain ⟨⟨issue, n⟩, -, rfl⟩ := List.mem_map.1 hi
      rw [hissues]
      exact hω.issue n
    · rw [runId_of_mem_issueRows hi]
      exact hrun

/-- The issues are saved when nothing goes wrong. -/
theorem eval_saveFound (ar : Arith) (hs : ∀ n, (script n).Smooth w) {w' : World}
    (hissues : w'.issues = w.issues) {runId : Uuid} (hrun : (w'.runs.find? runId).isSome)
    (accounts transactions : Db) :
    ∃ issues m, Reports accounts transactions runId issues ∧
      (w'.issues.insertAll issues).rows = w'.issues.rows ++ issues ∧
      issues.length = (issuesFor runId (found ar accounts transactions)).length ∧
      (saveFound (issuesFor runId (found ar accounts transactions))).eval
        (Prog.Handler.scripted exec script) (w', n) =
          (.ok (), ({ w' with issues := w'.issues.insertAll issues }, m)) := by
  have haccepts := accepts_issueRows ar (hs n) hissues hrun accounts transactions
  have hreports := reports_issueRows ar accounts transactions runId (script n).now (script n).id
  have hlength : ∀ issues : List NewIssue,
      (issueRows (script n).now (script n).id issues).length = issues.length := by
    intro issues
    rw [issueRows, List.length_map, List.length_zipIdx]
  generalize issuesFor runId (found ar accounts transactions) = found at haccepts hreports
  refine ⟨issueRows (script n).now (script n).id found, ?_⟩
  by_cases hfound : 0 < found.length
  · refine ⟨n + 1, hreports, ?_, hlength found, ?_⟩
    · exact Table.rows_insertAll haccepts.1 fun i hi => (haccepts.2 i hi).1
    · rw [saveFound, if_pos hfound]
      simp only [saveIssues, Prog.bind_eq, Prog.pure_eq, Prog.eval_bind, Prog.eval_await,
        Prog.Handler.scripted, exec_of_fault_eq_none (hs n).fault, answer, if_pos haccepts,
        Prog.eval_ret]
  · obtain rfl : found = [] := List.length_eq_zero_iff.1 (by omega)
    refine ⟨n, hreports, (List.append_nil _).symm, rfl, ?_⟩
    rw [saveFound, if_neg hfound]
    rfl

/-- **The `try` block when nothing goes wrong.** -/
theorem eval_reconcile (ar : Arith) (hs : ∀ n, (script n).Smooth w)
    {run : ReconciliationRunEntity} {w' : World} (hissues : w'.issues = w.issues)
    (hrun : (w'.runs.find? run.id).isSome) :
    ∃ issues completedAt m,
      Reports (snapshots script n).1 (snapshots script n).2 run.id issues ∧
      (w'.issues.insertAll issues).rows = w'.issues.rows ++ issues ∧
      (reconcile ar run).eval (Prog.Handler.scripted exec script) (w', n) =
        (.ok (.ran run.id .completed issues.length),
          ({ w' with
            runs := w'.updateRun run.id ⟨.completed, some issues.length, none, completedAt⟩
            issues := w'.issues.insertAll issues }, m)) := by
  obtain ⟨issues, m, hreports, hrows, hlength, hsave⟩ := eval_saveFound ar (n := n + 3) hs
    hissues hrun (snapshots script n).1 (snapshots script n).2
  have hfits : ∀ total completedAt,
      (⟨.completed, total, none, completedAt⟩ : RunPatch).Fits := fun _ _ _ h => by cases h
  refine ⟨issues, (script m).now, m + 2, hreports, hrows, ?_⟩
  rw [reconcile, Prog.bind_eq, Prog.eval_bind, eval_findBoth fun n => (hs n).fault]
  dsimp only
  rw [Prog.bind_eq, Prog.eval_bind, hsave, ← hlength]
  simp only [newDate, updateRun, Prog.bind_eq, Prog.pure_eq, Prog.eval_bind, Prog.eval_await,
    Prog.Handler.scripted, exec_of_fault_eq_none (hs _).fault, answer, if_pos (hfits _ _),
    Prog.eval_ret]
  rfl

/-- The run with its row saved, before the `try`. -/
def World.started (w : World) (service : ℕ) (run : ReconciliationRunEntity) : World :=
  { w with running := w.running.insert service, runs := w.runs.insert run }

/-- The row `runReconciliation` saves first. -/
def startedRun (script : ℕ → Draw) : ReconciliationRunEntity :=
  NewRun.row (script 2).now ((script 2).id 0) ⟨.completed, 0, none, (script 1).now⟩

theorem eval_runReconciliation (ar : Arith) {service : ℕ} (hidle : service ∉ w.running)
    (hs : ∀ n, (script n).Smooth w) :
    (runReconciliation ar service).eval (Prog.Handler.scripted exec script) (w, 0) =
      (thenLeave service
        (tryCatch (reconcile ar (startedRun script)) (recordFailure (startedRun script)))).eval
        (Prog.Handler.scripted exec script) (w.started service (startedRun script), 3) := by
  have hnew : ¬ (w.runs.find? ((script 2).id 0)).isSome := by simp [(hs 2).run]
  have hentered : decide (service ∉ w.running) = true := decide_eq_true hidle
  simp only [runReconciliation, startRun, newDate, saveRun, Prog.bind_eq, Prog.eval_bind,
    Prog.eval_await, Prog.Handler.scripted, exec_of_fault_eq_none (hs _).fault, answer, hentered,
    if_true, hnew]
  rfl

/-- **A run that meets no fault reports what the two checks find**, on any
contents of the ledger, and its row counts the issues. -/
theorem runAlone_reports (ar : Arith) {service : ℕ} (hidle : service ∉ w.running)
    (hs : ∀ n, (script n).Smooth w) :
    ∃ issues run, Reports (snapshots script 3).1 (snapshots script 3).2 run.id issues ∧
      (runAlone ar service script w).1 = .ok (.ran run.id .completed issues.length) ∧
      (runAlone ar service script w).2.issues.rows = w.issues.rows ++ issues ∧
      (runAlone ar service script w).2.runs.rows = w.runs.rows ++ [run] ∧
      run.status = .completed ∧ run.totalIssues = issues.length := by
  have hnew : w.runs.find? (Keyed.key (startedRun script)) = none := (hs 2).run
  have hfound : (w.started service (startedRun script)).runs.find? (startedRun script).id =
      some (startedRun script) := by
    refine Table.find?_key (t := w.runs.insert (startedRun script)) ?_
    exact (Table.mem_insert hnew).2 (Or.inr rfl)
  obtain ⟨issues, completedAt, m, hreports, hrows, hreconcile⟩ := eval_reconcile ar
    (n := 3) hs (show (w.started service (startedRun script)).issues = w.issues from rfl)
    (Option.isSome_of_eq_some hfound)
  have heval := eval_runReconciliation ar hidle hs
  rw [thenLeave, Prog.eval_andThen, Prog.tryCatch_eq, Prog.eval_tryCatch, hreconcile] at heval
  dsimp only at heval
  simp only [Prog.bind_eq, Prog.pure_eq, Prog.eval_bind, Prog.eval_await, Prog.Handler.scripted,
    exec_of_fault_eq_none (hs _).fault, answer, Prog.eval_ret] at heval
  refine ⟨issues, RunPatch.apply ⟨.completed, some issues.length, none, completedAt⟩
    (startedRun script), hreports, ?_, ?_, ?_, rfl, rfl⟩
  · exact congrArg Prod.fst heval
  · refine (congrArg (fun s => s.2.1.issues.rows) heval).trans ?_
    exact hrows
  · refine (congrArg (fun s => s.2.1.runs.rows) heval).trans ?_
    show (World.updateRun _ _ _).rows = _
    unfold World.updateRun
    rw [hfound]
    have hkey : Keyed.key (RunPatch.apply ⟨.completed, some issues.length, none, completedAt⟩
        (startedRun script)) = Keyed.key (startedRun script) := rfl
    dsimp only [World.started]
    rw [Table.put_insert hnew hkey]
    exact Table.rows_insert (hkey ▸ hnew)

end Alone

/-! ### A clean run -/

/-- What the two checks accept: balances are the sums of the entries, debits are
credits, with all currencies taken together. -/
structure Passes (db : Db) : Prop where
  balances : ∀ a ∈ db.accounts.rows, Agrees db a
  transactions : ∀ id, Even db id

theorem found_nil_iff (ar : Arith) (db : Db) (runId : Uuid) :
    (issuesFor runId (found ar db db)).length = 0 ↔ Passes db := by
  have hlength : (issuesFor runId (found ar db db)).length = 0 ↔
      accountMismatches db = [] ∧ unbalancedTransactions db = [] := by
    simp [issuesFor, found]
  rw [hlength]
  constructor
  · rintro ⟨haccounts, htransactions⟩
    constructor
    · intro a ha
      by_contra hagrees
      have hmem := mem_accountMismatches.2 ⟨a, ha, hagrees, rfl⟩
      rw [haccounts] at hmem
      exact absurd hmem List.not_mem_nil
    · intro id
      by_contra heven
      have hmem := mem_unbalancedTransactions.2 heven
      rw [htransactions] at hmem
      exact absurd hmem List.not_mem_nil
  · rintro ⟨hbalances, heven⟩
    constructor
    · refine List.eq_nil_iff_forall_not_mem.2 fun row hrow => ?_
      obtain ⟨a, ha, hagrees, -⟩ := mem_accountMismatches.1 (List.mem_map_of_mem hrow)
      exact hagrees (hbalances a ha)
    · refine List.eq_nil_iff_forall_not_mem.2 fun row hrow => ?_
      exact mem_unbalancedTransactions.1 (List.mem_map_of_mem hrow) (heven _)

theorem snapshots_const {script : ℕ → Draw} {db : Db} (hdb : ∀ n, (script n).snapshot = db)
    (n : ℕ) : snapshots script n = (db, db) := by
  unfold snapshots
  split_ifs <;> rw [hdb, hdb]

/-- **A run completes without issues on the contents that pass the two checks**: if
it does so the contents pass, whatever else went wrong, and if they pass it does
so where nothing goes wrong. -/
theorem completes_clean_iff (ar : Arith) (service : ℕ) (script : ℕ → Draw) (w : World) (db : Db)
    (hdb : ∀ n, (script n).snapshot = db) :
    (∀ runId, (runAlone ar service script w).1 = .ok (.ran runId .completed 0) → Passes db) ∧
      (service ∉ w.running → (∀ n, (script n).Smooth w) → Passes db →
        ∃ runId, (runAlone ar service script w).1 = .ok (.ran runId .completed 0)) := by
  constructor
  · intro runId h
    have htotal := runAlone_completed h
    rw [snapshots_const hdb] at htotal
    exact (found_nil_iff ar db runId).1 htotal.symm
  · intro hidle hs hpasses
    obtain ⟨issues, run, -, hrun, -, -⟩ := runAlone_reports ar hidle hs
    have htotal := runAlone_completed hrun
    rw [snapshots_const hdb, (found_nil_iff ar db run.id).2 hpasses] at htotal
    rw [htotal] at hrun
    exact ⟨run.id, hrun⟩

/-- The ledger's rules with currencies kept apart: an account's balance counts the
entries in its own currency, and a COMPLETED transaction has entries for its amount
on either side in its own currency and none in another. -/
structure CleanLedger (db : Db) : Prop where
  balance : ∀ a ∈ db.accounts.rows, a.balance =
    amounts .credit (fun e => e.accountId = some a.id ∧ e.currency = a.currency)
        db.ledgerEntries.rows -
      amounts .debit (fun e => e.accountId = some a.id ∧ e.currency = a.currency)
        db.ledgerEntries.rows
  entries : ∀ t ∈ db.transactions.rows, t.status = .completed → Ledger.entriesOf db t.id ≠ []
  sides : ∀ t ∈ db.transactions.rows, t.status = .completed → ∀ type currency,
    amounts type (fun e => e.transactionId = t.id ∧ e.currency = currency)
      db.ledgerEntries.rows = if currency = t.currency then t.amount else 0

/-- A uuid for each number. -/
def numbered (i : ℕ) : Uuid := .ofText (List.replicate i 97)

theorem numbered_injective : Function.Injective numbered := by
  intro i j h
  have hlength : ((numbered i).text).length = ((numbered j).text).length := by rw [h]
  simpa [numbered] using hlength

/-- A deposit of 100 INR whose credit entry has been changed to USD. -/
def foreignLeg : Db where
  accounts := Table.empty.insert {
    id := numbered 0, currency := js "INR", balance := 100, status := .active
    createdAt := 0, updatedAt := 0 }
  transactions := Table.empty.insert {
    id := numbered 1, type := .deposit, status := .completed, amount := 100
    currency := js "INR", fromAccountId := none, toAccountId := some (numbered 0)
    description := none, completedAt := some 0, createdAt := 0 }
  ledgerEntries := Table.empty.insertAll [
    { id := numbered 2, transactionId := numbered 1, accountId := some (numbered 0)
      ledgerAccount := none, entryType := .credit, amount := 100, currency := js "USD"
      createdAt := 0 },
    { id := numbered 3, transactionId := numbered 1, accountId := none
      ledgerAccount := some Ledger.externalSettlement, entryType := .debit, amount := 100
      currency := js "INR", createdAt := 0 }]
  outboxEvents := .empty

/-- Draws for a run alone on the contents `db`. -/
def drawsOn (db : Db) : Draw where
  fault := none
  now := 0
  id := numbered
  snapshot := db
  accountsFirst := true

theorem smooth_drawsOn (db : Db) : (drawsOn db).Smooth .empty where
  fault := rfl
  distinct := numbered_injective
  run := rfl
  issue _ := rfl

/-- **A clean run does not mean a clean ledger**: a credit entry in another currency
than its account and its transaction goes unnoticed. -/
theorem foreignLeg_passes : ¬ ∀ (ar : Arith) (service : ℕ) (script : ℕ → Draw) (w : World)
    (db : Db), (∀ n, (script n).snapshot = db) → ∀ runId,
      (runAlone ar service script w).1 = .ok (.ran runId .completed 0) → CleanLedger db := by
  intro h
  have hclean : CleanLedger foreignLeg := by
    refine h (.exact fun _ => true) 0 (fun _ => drawsOn foreignLeg) .empty foreignLeg
      (fun _ => rfl) (numbered 0) ?_
    rfl
  have hbalance := hclean.balance _ (List.mem_cons_self ..)
  exact absurd hbalance (by decide)

theorem completes_clean_iff_foreignLeg : Passes foreignLeg ∧
    ∃ runId, (runAlone (.exact fun _ => true) 0 (fun _ => drawsOn foreignLeg) .empty).1 =
      .ok (.ran runId .completed 0) := by
  have h := completes_clean_iff (.exact fun _ => true) 0 (fun _ => drawsOn foreignLeg) .empty
    foreignLeg fun _ => rfl
  have hpasses : Passes foreignLeg := h.1 (numbered 0) rfl
  exact ⟨hpasses, h.2 (by decide) (fun _ => smooth_drawsOn foreignLeg) hpasses⟩

end Reconciliation
end LedgerEngine
