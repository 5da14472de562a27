/-
# Concurrent movements are serializable

Deposits, withdrawals and transfers run at the same time, each in its own
transaction, interleaved statement by statement; a row lock held by one makes
the others wait until it commits or rolls back, and the locked read then
returns what is committed (`history`).

The services only read a balance under the lock that covers its write, which
makes their statements an instance of strict two-phase locking
(`lawful_statements`).  So every history leaves what its finished requests
leave one at a time, in the order in which they finished, and gave the same
answers (`serializable`), and what holds after any sequence of requests holds
after any history: no balance is overdrawn and no update is lost.
-/

import LedgerEngine.Ledger.Balance
import Mathlib.Data.List.Induction

namespace LedgerEngine
namespace Ledger

/-! ### The statements lock what they read and write -/

section Lawful

variable {db db' : Db}

theorem SameRow.refl (k : RowKey) (db : Db) : SameRow k db db := by
  cases k <;> exact rfl

theorem SameRow.symm {k : RowKey} (h : SameRow k db db') : SameRow k db' db := by
  cases k <;> exact Eq.symm h

theorem SameRow.trans {k : RowKey} {db'' : Db} (h : SameRow k db db') (h' : SameRow k db' db'') :
    SameRow k db db'' := by
  cases k <;> exact Eq.trans h h'

theorem SameRow.apply {k : RowKey} (w : RowWrite) (h : SameRow k db db') :
    SameRow k (w.apply db) (w.apply db') := by
  cases k <;> cases w <;>
    simp only [SameRow, RowWrite.apply, Table.find?_put, Table.find?_insert] at h ⊢ <;> rw [h]

theorem SameRow.apply_of_ne {k : RowKey} {w : RowWrite} (db : Db) (h : k ≠ w.key) :
    SameRow k db (w.apply db) := by
  cases k <;> cases w <;>
    simp only [SameRow, RowWrite.apply, RowWrite.key, ne_eq, RowKey.account.injEq,
      RowKey.transaction.injEq, RowKey.ledgerEntry.injEq, RowKey.outboxEvent.injEq,
      Table.find?_put, Table.find?_insert] at h ⊢ <;>
    exact (if_neg fun e => h e.symm).symm

theorem sameAccountIds_apply (w : RowWrite) (db : Db) : SameAccountIds db (w.apply db) := by
  cases w with
  | putAccount a => exact (Table.map_key_rows_put db.accounts a).symm
  | _ => exact rfl

/-- Which accounts there are is the same in both states. -/
theorem SameAccountIds.isSome_find? (h : SameAccountIds db db') (id : Uuid) :
    (db.accounts.find? id).isSome = (db'.accounts.find? id).isSome := by
  have hnone : db.accounts.find? id = none ↔ db'.accounts.find? id = none := by
    rw [Table.find?_eq_none, Table.find?_eq_none]
    exact not_congr (iff_of_eq (congrArg (id ∈ ·) h))
  cases h₁ : db.accounts.find? id <;> cases h₂ : db'.accounts.find? id <;> simp_all

/-- **A statement's answer and its locks depend on the rows it locks** and on
which accounts there are. -/
theorem exec_congr {ar : Arith} {d : Draws} {s : Statement} (hf : SameAccountIds db db')
    (hs : ∀ k ∈ locks d s db, SameRow k db db') :
    exec ar d s db = exec ar d s db' ∧ locks d s db = locks d s db' := by
  cases s with
  | findAccountForUpdate id =>
      have hsome := hf.isSome_find? id
      have hrow : db.accounts.find? id = db'.accounts.find? id := by
        cases h : db.accounts.find? id with
        | some a => rw [← h]; exact hs (.account id) (by simp [locks, h])
        | none =>
            rw [h] at hsome
            cases h' : db'.accounts.find? id with
            | none => rfl
            | some _ => simp [h'] at hsome
      exact ⟨by simp only [exec, hrow], by simp only [locks, hrow]⟩
  | insertTransaction t =>
      have hrow : db.transactions.find? d.transactionId = db'.transactions.find? d.transactionId :=
        hs (.transaction d.transactionId) (List.mem_cons_self ..)
      exact ⟨by simp only [exec, hrow], rfl⟩
  | insertLedgerEntries es =>
      have hrows : (∀ e ∈ entryRows d es, db.ledgerEntries.find? e.id = none) ↔
          ∀ e ∈ entryRows d es, db'.ledgerEntries.find? e.id = none := by
        refine forall₂_congr fun e he => ?_
        have hrow : db.ledgerEntries.find? e.id = db'.ledgerEntries.find? e.id :=
          hs (.ledgerEntry e.id) (by
            refine List.mem_append_left _ (List.mem_append_left _ ?_)
            exact List.mem_map_of_mem he)
        rw [hrow]
      exact ⟨by simp only [exec, hrows], rfl⟩
  | insertOutboxEvent e =>
      have hrow : db.outboxEvents.find? d.outboxEventId = db'.outboxEvents.find? d.outboxEventId :=
        hs (.outboxEvent d.outboxEventId) (List.mem_cons_self ..)
      exact ⟨by simp only [exec, hrow], rfl⟩
  | saveAccount a => exact ⟨rfl, rfl⟩
  | newDate => exact ⟨rfl, rfl⟩
  | saveTransaction t => exact ⟨rfl, rfl⟩

/-- A statement writes only rows it locks. -/
theorem key_mem_locks {ar : Arith} {d : Draws} {s : Statement} {w : RowWrite}
    (h : w ∈ (exec ar d s db).2) : w.key ∈ locks d s db := by
  cases s <;> simp only [exec] at h
  case findAccountForUpdate | newDate => exact absurd h List.not_mem_nil
  case insertTransaction t =>
    split_ifs at h
    · exact absurd h List.not_mem_nil
    · rw [List.mem_singleton.1 h]
      exact List.mem_cons_self ..
    · exact absurd h List.not_mem_nil
  case saveAccount a =>
    split_ifs at h
    · rw [List.mem_singleton.1 h]
      exact List.mem_cons_self ..
    · exact absurd h List.not_mem_nil
  case insertLedgerEntries es =>
    split_ifs at h
    · obtain ⟨e, he, rfl⟩ := List.mem_map.1 h
      refine List.mem_append_left _ (List.mem_append_left _ ?_)
      exact List.mem_map.2 ⟨e, he, rfl⟩
    · exact absurd h List.not_mem_nil
    · exact absurd h List.not_mem_nil
  case saveTransaction t =>
    split_ifs at h
    · rw [List.mem_singleton.1 h]
      exact List.mem_cons_self ..
    · exact absurd h List.not_mem_nil
  case insertOutboxEvent e =>
    split_ifs at h
    · exact absurd h List.not_mem_nil
    · rw [List.mem_singleton.1 h]
      exact List.mem_cons_self ..

/-- **The movements' statements may be run under two-phase locking.** -/
theorem lawful_statements (ar : Arith) : (statements ar).Lawful where
  same_refl := SameRow.refl
  same_symm := SameRow.symm
  same_trans := SameRow.trans
  frozen_refl _ := rfl
  frozen_symm := Eq.symm
  frozen_trans := Eq.trans
  same_apply := SameRow.apply
  same_apply_of_ne := SameRow.apply_of_ne
  frozen_apply := sameAccountIds_apply
  exec_congr := exec_congr
  keyOf_mem_locks := key_mem_locks

end Lawful

/-! ### Histories -/

/-- A movement and what the server draws for it. -/
structure Request where
  movement : Movement
  draws : Draws

/-- The request on its own, without faults. -/
def Request.call (r : Request) : Call := .move r.movement r.draws [] none

/-- The transaction a request starts. -/
def Request.transaction (ar : Arith) (r : Request) : Draws × Query TransactionResponse :=
  (r.draws, r.movement.body ar)

/-- The state of the server when it serves movements. -/
abbrev Server := TwoPhase.Server Statement Statement.Res Exception TransactionResponse Db Draws
  RowKey RowWrite

/-- A history: the requests start on a committed state, and each entry of the
schedule lets one of them make its next step. -/
def history (ar : Arith) (reqs : List Request) (db : Db) (schedule : List ℕ) : Server :=
  schedule.foldl (TwoPhase.step (statements ar))
    (.start (reqs.map (Request.transaction ar)) db)

/-- What a sequence of requests answers. -/
def answers (ar : Arith) : Db → List Call → List (Except Exception Response)
  | _, [] => []
  | db, call :: calls => (serve ar call db).1 :: answers ar (serve ar call db).2 calls

/-- The answer a history gave to request `i`, if it has ended. -/
def answer? (v : Server) (i : ℕ) : Option (Except Exception Response) :=
  (v.answer? i).map fun answer => answer.map .transaction

/-- The requests with the given numbers, as calls one after the other. -/
def inOrder (reqs : List Request) (order : List ℕ) : List Call :=
  order.filterMap fun i => reqs[i]?.map Request.call

/-- `order` lists the requests that have ended, and serving them one at a time
in that order leaves the committed state and gives the answers given. -/
structure Serializes (ar : Arith) (reqs : List Request) (db : Db) (v : Server)
    (order : List ℕ) : Prop where
  nodup : order.Nodup
  ended : ∀ i, i ∈ order ↔ (answer? v i).isSome
  /-- Once all have ended, the order is one of all requests. -/
  complete : (∀ i < reqs.length, (answer? v i).isSome) → order.Perm (List.range reqs.length)
  committed : v.committed = run ar db (inOrder reqs order)
  answers : order.map (answer? v) = (answers ar db (inOrder reqs order)).map some

section Histories

variable {ar : Arith}

/-- A request on its own is its transaction on its own. -/
theorem serve_call (r : Request) (db : Db) :
    serve ar r.call db =
      (((statements ar).transaction r.draws (r.movement.body ar) db).1.map .transaction,
        ((statements ar).transaction r.draws (r.movement.body ar) db).2) := by
  simp only [Request.call, serve, transactionWithFaults, Prog.eval_faulty_nil,
    TwoPhase.Statements.transaction]
  cases (r.movement.body ar).eval ((statements ar).handler r.draws) db with
  | mk answer db' => cases answer <;> rfl

theorem run_append (db : Db) (calls calls' : List Call) :
    run ar db (calls ++ calls') = run ar (run ar db calls) calls' :=
  List.foldl_append

theorem answers_append (db : Db) (calls calls' : List Call) :
    answers ar db (calls ++ calls') =
      answers ar db calls ++ answers ar (run ar db calls) calls' := by
  induction calls generalizing db with
  | nil => rfl
  | cons call calls ih =>
      rw [List.cons_append, answers, answers, List.cons_append, ih]
      rfl

/-- The requests one at a time, as transactions and as calls. -/
theorem serial_eq (ar : Arith) (reqs : List Request) (order : List ℕ) (db : Db) :
    (TwoPhase.serial (statements ar) (reqs.map (Request.transaction ar)) order db).2 =
        run ar db (inOrder reqs order) ∧
      (TwoPhase.serial (statements ar) (reqs.map (Request.transaction ar)) order db).1.map
        (fun answer => answer.map .transaction) = answers ar db (inOrder reqs order) := by
  induction order using List.reverseRecOn with
  | nil => exact ⟨rfl, rfl⟩
  | append_singleton order i ih =>
      obtain ⟨hs, ha⟩ := ih
      cases hr : reqs[i]? with
      | none =>
          have hnone : (reqs.map (Request.transaction ar))[i]? = none := by simp [hr]
          have hin : inOrder reqs (order ++ [i]) = inOrder reqs order := by simp [inOrder, hr]
          rw [hin]
          simpa only [TwoPhase.serial, List.foldl_append, List.foldl_cons, List.foldl_nil, hnone]
            using And.intro hs ha
      | some r =>
          have hsome : (reqs.map (Request.transaction ar))[i]? = some (r.transaction ar) := by
            simp [hr]
          have hin : inOrder reqs (order ++ [i]) = inOrder reqs order ++ [r.call] := by
            simp [inOrder, hr]
          rw [hin, TwoPhase.serial_append _ _ _ _ hsome, run_append, answers_append,
            List.map_append, ha, ← hs]
          simp only [Request.transaction, run, answers, List.foldl_cons, List.foldl_nil, serve_call,
            List.map_cons, List.map_nil, true_and]

/-- **Every history is serialized by the order in which its requests ended.** -/
theorem serializes_history (ar : Arith) (reqs : List Request) (db : Db) (schedule : List ℕ) :
    Serializes ar reqs db (history ar reqs db schedule) (history ar reqs db schedule).ended := by
  have h := TwoPhase.serializable (lawful_statements ar) (reqs.map (Request.transaction ar)) db
    schedule
  change TwoPhase.Inv _ _ _ (history ar reqs db schedule) at h
  obtain ⟨hs, ha⟩ := serial_eq ar reqs (history ar reqs db schedule).ended db
  have hended : ∀ i, i ∈ (history ar reqs db schedule).ended ↔
      (answer? (history ar reqs db schedule) i).isSome := fun i => by
    rw [h.ended_iff, answer?, Option.isSome_map]
  refine ⟨h.nodup, hended, fun hall => ?_, ?_, ?_⟩
  · refine (List.perm_ext_iff_of_nodup h.nodup List.nodup_range).2 fun i => ?_
    rw [List.mem_range, hended]
    refine ⟨fun hi => ?_, hall i⟩
    by_contra hlt
    have hlen : (history ar reqs db schedule).txns.length = reqs.length := by
      simpa using congrArg List.length h.requests
    have hnone : (history ar reqs db schedule).txns[i]? = none := by
      rw [List.getElem?_eq_none_iff, hlen]
      exact not_lt.1 hlt
    simp [answer?, TwoPhase.Server.answer?, hnone] at hi
  · rw [← hs, h.committed]
  · rw [← ha, List.map_map]
    have := congrArg (List.map (Option.map fun answer => answer.map Response.transaction)) h.answers
    rw [List.map_map, List.map_map] at this
    exact this.symm

/-- What every request keeps holds after any sequence of them. -/
theorem run_induction {P : Db → Prop} {db : Db} {calls : List Call} (h₀ : P db)
    (h : ∀ call ∈ calls, ∀ db, P db → P (serve ar call db).2) : P (run ar db calls) := by
  induction calls generalizing db with
  | nil => exact h₀
  | cons call calls ih =>
      exact ih (h call (List.mem_cons_self ..) db h₀)
        fun c hc => h c (List.mem_cons_of_mem _ hc)

/-- **Concurrent movements are serializable, overdraw no account and lose no
update.**  The rounding of the arithmetic has to keep the sign of a number; that
balances move with their entries to the unit needs it to be exact. -/
theorem history_serializable (har : ∀ n, 0 ≤ n → 0 ≤ ar.round n) (reqs : List Request) (db : Db)
    (h₀ : ∀ a ∈ db.accounts.rows, 0 ≤ a.balance) (schedule : List ℕ) :
    (∃ order, Serializes ar reqs db (history ar reqs db schedule) order) ∧
      (∀ a ∈ (history ar reqs db schedule).committed.accounts.rows, 0 ≤ a.balance) ∧
      ∀ storable, ar = .exact storable →
        ∀ id, gap (history ar reqs db schedule).committed id = gap db id := by
  have h := serializes_history ar reqs db schedule
  refine ⟨⟨_, h⟩, ?_, fun storable hexact id => ?_⟩
  · rw [h.committed]
    exact @run_induction ar (fun db => ∀ a ∈ db.accounts.rows, 0 ≤ a.balance) db _ h₀
      fun call _ db hdb => nonneg_serve har hdb call
  · rw [h.committed]
    refine @run_induction ar (fun db' => gap db' id = gap db id) db _ rfl
      fun call hcall db' hdb' => ?_
    obtain ⟨i, -, hi⟩ := List.mem_filterMap.1 hcall
    obtain ⟨r, -, rfl⟩ := Option.map_eq_some_iff.1 hi
    subst hexact
    exact (gap_serve_move ..).trans hdb'

end Histories

/-- A `WithdrawDto` for one account. -/
def withdrawal (amount : ℤ) (h : 1 ≤ amount) : WithdrawDto where
  accountId := js "00000000-0000-4000-8000-00000000000A"
  amount := amount
  currency := js "USD"
  description := none
  accountId_isUuid := by decide
  amount_min := h
  currency_matches := by decide

/-- One account with a balance of 100. -/
def oneAccount : Db :=
  { Db.empty with accounts := Table.empty.insert {
      id := .ofText (js "00000000-0000-4000-8000-00000000000a"), currency := js "USD"
      balance := 100, status := .active, createdAt := 0, updatedAt := 0 } }

/-- Two withdrawals of 60 from it. -/
def twoWithdrawals : List Request :=
  [⟨.withdraw (withdrawal 60 (by decide)), drawsEnding "1"⟩,
    ⟨.withdraw (withdrawal 60 (by decide)), drawsEnding "2"⟩]

theorem history_serializable_twoWithdrawals :
    (∃ order, Serializes (.exact fun _ => true) twoWithdrawals oneAccount
      (history (.exact fun _ => true) twoWithdrawals oneAccount
        [0, 1, 0, 1, 0, 0, 1, 0, 0, 0, 1, 0, 1, 1]) order) ∧
      (∀ a ∈ (history (.exact fun _ => true) twoWithdrawals oneAccount
        [0, 1, 0, 1, 0, 0, 1, 0, 0, 0, 1, 0, 1, 1]).committed.accounts.rows, 0 ≤ a.balance) ∧
      ∀ storable, Arith.exact (fun _ => true) = .exact storable →
        ∀ id, gap (history (.exact fun _ => true) twoWithdrawals oneAccount
          [0, 1, 0, 1, 0, 0, 1, 0, 0, 0, 1, 0, 1, 1]).committed id = gap oneAccount id :=
  history_serializable (fun _ h => h) twoWithdrawals oneAccount (by decide)
    [0, 1, 0, 1, 0, 0, 1, 0, 0, 0, 1, 0, 1, 1]

end Ledger
end LedgerEngine
