/-
# The engine, statement by statement

`system` makes a ledger transaction in one step.  The engine does not: a movement takes its
locks and makes its statements one by one (`Ledger.statements`), while other movements do
the same, accounts are opened, events are patched and the queries of the reconciliation read
what is committed.  `interleaved` is that engine.  A transaction may be broken off at any
moment, by the database or by a crash, and its commit may go through with the answer lost.

Nothing is seen of it (`interleaved_refines`): at every moment the tables, the threads and
their answers are those of a run of `system` in which each transaction is one call, made when
it commits, and every run of `system` is met so.  What is shown of every run of the engine
holds of every interleaving, and what some run shows can happen.
-/

import LedgerEngine.Async.Nested
import LedgerEngine.Engine.Tables
import LedgerEngine.Ledger.Openings

namespace LedgerEngine

namespace Ledger

/-! ### Patches of events -/

/-- The second state has the rows of the first, but for what its outbox events say. -/
structure Patches (db db' : Db) : Prop where
  accounts : db'.accounts = db.accounts
  transactions : db'.transactions = db.transactions
  ledgerEntries : db'.ledgerEntries = db.ledgerEntries
  outboxEvents : ∀ id, (db'.outboxEvents.find? id).isSome = (db.outboxEvents.find? id).isSome

theorem Patches.apply {db db' : Db} (w : RowWrite) (h : Patches db db') :
    Patches (w.apply db) (w.apply db') := by
  obtain ⟨accounts, transactions, ledgerEntries, outboxEvents⟩ := h
  cases w with
  | putAccount a =>
      exact ⟨congrArg (Table.put · a) accounts, transactions, ledgerEntries, outboxEvents⟩
  | addTransaction t =>
      exact ⟨accounts, congrArg (Table.insert · t) transactions, ledgerEntries, outboxEvents⟩
  | putTransaction t =>
      exact ⟨accounts, congrArg (Table.put · t) transactions, ledgerEntries, outboxEvents⟩
  | addLedgerEntry e =>
      exact ⟨accounts, transactions, congrArg (Table.insert · e) ledgerEntries, outboxEvents⟩
  | addOutboxEvent e =>
      refine ⟨accounts, transactions, ledgerEntries, fun id => ?_⟩
      simp only [RowWrite.apply, Table.find?_insert]
      split_ifs
      · rfl
      · exact outboxEvents id

theorem patches_updateEvent {db : Db} (w : Webhooks.World) (hw : w.outboxEvents = db.outboxEvents)
    (now : Time) (e : Uuid) (p : Webhooks.EventPatch) :
    Patches db { db with outboxEvents := w.updateEvent now e p } := by
  refine ⟨rfl, rfl, rfl, fun id => ?_⟩
  rw [Webhooks.find?_updateEvent, hw]
  split_ifs
  · exact Option.isSome_map
  · rfl

/-- **A movement does not read what an event says.** -/
theorem arrival_patches (ar : Arith) : TwoPhase.Arrival (statements ar) Patches Missed where
  apply := Patches.apply
  exec {db db'} d s h := by
    obtain ⟨accounts, transactions, ledgerEntries, outboxEvents⟩ := h
    refine Or.inl ?_
    cases s <;> simp only [statements, exec, locks, accounts, transactions, ledgerEntries,
      outboxEvents, and_self]

/-- A transaction whose statements and commit meet no fault. -/
theorem transactionWithFaults_nil (ar : Arith) (d : Draws) (body : Query TransactionResponse)
    (db : Db) :
    transactionWithFaults ar d [] none body db = (statements ar).transaction d body db := by
  simp only [transactionWithFaults, Prog.eval_faulty_nil, TwoPhase.Statements.transaction]
  rcases body.eval ((statements ar).handler d) db with ⟨answer | answer, db'⟩ <;> rfl

/-- **A fault of a statement or of the commit** breaks a transaction off. -/
theorem transactionWithFaults_cases (ar : Arith) (d : Draws) (faults : List (Option Exception))
    (commitFault : Option Exception) {body : Query TransactionResponse} (hbody : body.Rethrows)
    (db : Db) :
    transactionWithFaults ar d faults commitFault body db =
        (statements ar).transaction d body db ∨
      ∃ e, transactionWithFaults ar d faults commitFault body db = (.error e, db) := by
  unfold transactionWithFaults
  rcases heval : body.eval (Prog.faulty ((statements ar).handler d)) (db, faults) with
    ⟨e | r, db', faults'⟩
  · exact Or.inr ⟨e, rfl⟩
  · cases commitFault with
    | none =>
        refine Or.inl ?_
        simp only [TwoPhase.Statements.transaction, hbody.eval_faulty heval]
    | some e => exact Or.inr ⟨e, rfl⟩

end Ledger

namespace Engine

open Ledger (Arith Draws statements)

/-- Which calls are transactions: the movements. -/
def movements (env : Env) : Nested (system env) (statements env.arith) where
  view := World.db
  put db w := w.withDb db
  body
    | .ledger (.transaction m) => some (m.body env.arith)
    | _ => none
  env := Draw.draws
  draw ω fault := { ω with fault, faults := [], commitFault := none }

/-- What happens to the ledger beside the movements: accounts arrive, events are patched. -/
def Beside (db db' : Db) : Prop := Ledger.Grows db db' ∨ Ledger.Patches db db'

theorem beside_refl (db : Db) : Beside db db := Or.inl (.refl db)

/-- **A call that is no movement** opens an account, or patches an event, or leaves the ledger
alone. -/
theorem beside_exec (env : Env) (ω : Draw) (c : Command) (w : World)
    (hc : (movements env).body c = none) : Beside w.db (exec env ω c w).2.db := by
  cases c with
  | record c => exact beside_refl _
  | reconcile c => exact beside_refl _
  | ledger c =>
      cases c with
      | transaction m => cases hc
      | createAccount dto =>
          rcases ledger_state env.arith ω (.createAccount dto) w.db with h | h
          · rw [show (exec env ω (.ledger (.createAccount dto)) w).2.db = w.db from h]
            exact beside_refl _
          · rw [show (exec env ω (.ledger (.createAccount dto)) w).2.db = _ from h]
            exact Or.inl (Ledger.grows_serve_createAccount ..)
  | webhooks c =>
      rcases db_webhooks env ω c w with h | ⟨now, e, p, h⟩
      · rw [h]
        exact beside_refl _
      · rw [h]
        exact Or.inr (Ledger.patches_updateEvent _ rfl now e p)

/-- A movement that is one call does what it does alone, and meets a fault or none. -/
theorem meets_transaction (env : Env) (ω : Draw) (m : Ledger.Movement) (w : World) :
    ∃ fault, exec env ω (.ledger (.transaction m)) w =
      (movements env).alone ω.draws (m.body env.arith) w fault := by
  have hcases := Ledger.transactionWithFaults_cases env.arith ω.draws ω.faults ω.commitFault
    (Ledger.Movement.rethrows env.arith m) w.db
  show ∃ fault, (((ledgerAnswer env.arith ω).meet ω.fault (.transaction m) w.db).1,
    w.withDb ((ledgerAnswer env.arith ω).meet ω.fault (.transaction m) w.db).2) = _
  rcases ω.fault with _ | e' | e' <;> simp only [Prog.Handler.meet, ledgerAnswer]
  · rcases hcases with h | ⟨e, h⟩ <;> rw [h]
    · exact ⟨none, rfl⟩
    · exact ⟨some (.refused e), rfl⟩
  · exact ⟨some (.refused e'), rfl⟩
  · rcases hcases with h | ⟨e, h⟩ <;> rw [h]
    · exact ⟨some (.lost e'), rfl⟩
    · exact ⟨some (.refused e'), rfl⟩

/-- What holds of every movement holds of every call that is a transaction. -/
theorem of_movements {env : Env} {motive : (c : Command) → Ledger.Query c.Res → Prop}
    (h : ∀ m : Ledger.Movement, motive (.ledger (.transaction m)) (m.body env.arith))
    (c : Command) (p : Ledger.Query c.Res) (hp : (movements env).body c = some p) :
    motive c p := by
  cases c with
  | ledger c =>
      cases c with
      | transaction m =>
          obtain rfl := Option.some.inj hp
          exact h m
      | createAccount dto => cases hp
  | _ => cases hp

/-- **The movements may be taken apart.** -/
theorem lawful_movements (env : Env) : (movements env).Lawful Beside Ledger.Missed where
  view_put _ _ := rfl
  put_view _ := rfl
  statements := Ledger.lawful_statements env.arith
  arrival := (Ledger.arrival_statements env.arith).or (Ledger.arrival_patches env.arith)
  givesUp := of_movements fun m => m.givesUp env.arith
  exec ω fault c p w := by
    refine of_movements (motive := fun c p => (system env).exec ((movements env).draw ω fault) c w =
      (movements env).alone ω.draws p w fault) (fun m => ?_) c p
    have halone := Ledger.transactionWithFaults_nil env.arith ω.draws (m.body env.arith) w.db
    rcases fault with _ | e | e
    · exact congrArg (fun x => (x.1, w.withDb x.2)) halone
    · rfl
    · exact congrArg (fun x => (Except.error e, w.withDb x.2)) halone
  meets ω c p w :=
    of_movements (motive := fun c p => ∃ fault, (system env).exec ω c w =
      (movements env).alone ω.draws p w fault) (fun m => meets_transaction env ω m w) c p
  other ω c w hc := beside_exec env ω c w hc
  spawn t w w' hs := by
    rw [show (movements env).view w' = (movements env).view w from (spawned_spawn hs).db]
    exact beside_refl _

/-- What happens next: a thread starts or makes a call, a movement begins, makes its next
statement or ends. -/
abbrev Move := Nested.Move Task Draw Exception

/-- The engine with the movements that are under way. -/
abbrev Server := Nested.Server Task Command Command.Res Exception (Option Json) World Draw Stage
  Ledger.Statement Ledger.Statement.Res Ledger.RowKey Ledger.RowWrite

/-- The engine before the first request. -/
def idle : Server := Nested.start (Pool.start .empty)

/-- The engine after some moves. -/
def interleaved (env : Env) (moves : List Move) : Server := (movements env).run idle moves

/-- The run of `system` that the moves are seen as. -/
def seenAs (env : Env) (moves : List Move) : List (Label Task Draw) :=
  (movements env).labels idle moves

/-- **The interleavings are the runs of the engine**: each is the run in which every movement
is one call, made when it commits, and no run is missing. -/
theorem interleaved_refines (env : Env) :
    (∀ moves, (interleaved env moves).pool = after env (seenAs env moves)) ∧
      ∀ labels, ∃ moves, (interleaved env moves).pool = after env labels := by
  have hlawful := lawful_movements env
  refine ⟨fun moves => ((Nested.standing_start _ _).refines hlawful moves).2, fun labels => ?_⟩
  obtain ⟨moves, hmoves⟩ := Nested.exists_run hlawful (Pool.start .empty) labels
  exact ⟨moves, congrArg Nested.Server.pool hmoves⟩

/-- Two deposits on one account, each making its statements between those of the other: the
second finds the account locked, and waits until the first has committed. -/
def contended : List Move :=
  .spawn (.request opening) :: List.replicate 5 (.call 0 (drawn "1")) ++
    [.spawn (.request deposit),
      .spawn (.request { deposit with idempotencyKey := some (js "another") })] ++
    List.replicate 3 (.call 1 (drawn "2")) ++ List.replicate 3 (.call 2 (drawn "3")) ++
    [.begin 1 (drawn "2"), .begin 2 (drawn "3")] ++
    (List.replicate 7 [.statement 1, .statement 2]).flatten ++ [.finish 1 none] ++
    List.replicate 7 (.statement 2) ++ [.finish 2 none]

example : (interleaved sampleEnv contended).pool.world.accounts.rows.map AccountEntity.balance =
    [10000] := by
  decide +kernel

end Engine
end LedgerEngine
