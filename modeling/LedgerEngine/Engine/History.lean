/-
# The ledger is a history

Transactions and entries are only ever added, and the entries that are added later are
those of the transactions that are (`Extends`).  So whatever is between two balances of an
account is in the entries between them (`ledger_append_only`): nothing is changed, corrected
or taken back without an entry of its own.
-/

import LedgerEngine.Engine.Tables

namespace LedgerEngine

open Ledger (Arith Call Corresponds entriesOf net)

namespace Ledger

/-- The second ledger has all of the first, with these transactions and entries after it. -/
structure Extends (db db' : Db) (ts : List TransactionEntity) (es : List LedgerEntryEntity) :
    Prop where
  transactions : db'.transactions.rows = db.transactions.rows ++ ts
  entries : db'.ledgerEntries.rows = db.ledgerEntries.rows ++ es

section Extends

variable {ar : Arith} {db db' db'' : Db} {ts ts' : List TransactionEntity}
  {es es' : List LedgerEntryEntity}

theorem Extends.refl (db : Db) : Extends db db [] [] :=
  ⟨(List.append_nil _).symm, (List.append_nil _).symm⟩

theorem Extends.trans (h : Extends db db' ts es) (h' : Extends db' db'' ts' es') :
    Extends db db'' (ts ++ ts') (es ++ es') where
  transactions := by rw [h'.transactions, h.transactions, List.append_assoc]
  entries := by rw [h'.entries, h.entries, List.append_assoc]

/-- **A request adds to the ledger**, or leaves it. -/
theorem extends_serve (ar : Arith) (call : Call) (db : Db) :
    ∃ ts es, Extends db (serve ar call db).2 ts es := by
  have hs := serve_cases ar call db
  cases hr : serve ar call db with
  | mk answer db' =>
      rw [hr] at hs
      cases hs with
      | failed => exact ⟨[], [], .refl db⟩
      | opened => exact ⟨[], [], (Extends.refl db).transactions, (Extends.refl db).entries⟩
      | @moved m d _ p _ _ _ h =>
          rw [h.state]
          exact ⟨[(p.stored ar).transaction d], (p.stored ar).entries d,
            Table.rows_insert h.newKeys.transaction, Posting.ledgerEntries_posted h.newKeys⟩

/-- **A transaction has all its entries from the start**: what is added later belongs to
transactions that are. -/
theorem Extends.belongs (h : Extends db db' ts es) (hdb : Corresponds db)
    (hdb' : Corresponds db') : ∀ e ∈ es, ∃ t ∈ ts, e.transactionId = t.id := by
  intro e he
  have hmem : e ∈ db'.ledgerEntries.rows := h.entries ▸ List.mem_append_right _ he
  obtain ⟨t, ht, hid⟩ := hdb'.entries e hmem
  have ht' := ht
  rw [h.transactions] at ht
  rcases List.mem_append.1 ht with hold | hnew
  · -- it has two entries before and two after, so none of them is new
    obtain ⟨d, c, hperm, -⟩ := (hdb.recorded t hold).entries
    obtain ⟨d', c', hperm', -⟩ := (hdb'.recorded t ht').entries
    have hsplit : entriesOf db' t.id =
        entriesOf db t.id ++ es.filter fun e => e.transactionId = t.id := by
      unfold entriesOf
      rw [h.entries, List.filter_append]
    have hlength := congrArg List.length hsplit
    rw [List.length_append, hperm.length_eq, hperm'.length_eq] at hlength
    have hnone : (es.filter fun e => e.transactionId = t.id).length = 0 := by
      simp only [List.length_cons, List.length_nil] at hlength
      omega
    have hin : e ∈ es.filter fun e => e.transactionId = t.id :=
      List.mem_filter.2 ⟨he, decide_eq_true hid⟩
    rw [List.length_eq_zero_iff.1 hnone] at hin
    exact absurd hin List.not_mem_nil
  · exact ⟨t, hnew, hid⟩

end Extends

end Ledger

namespace Engine

open Ledger (Extends)

/-- A call of any thread adds to the ledger, or leaves it. -/
theorem extends_exec (env : Env) (ω : Draw) (c : Command) (w : World) :
    ∃ ts es, Extends w.db (exec env ω c w).2.db ts es := by
  rcases db_exec env ω c w with h | ⟨call, h⟩ | ⟨now, e, p, h⟩
  · rw [h]
    exact ⟨[], [], .refl _⟩
  · rw [h]
    exact Ledger.extends_serve env.arith call w.db
  · rw [h]
    exact ⟨[], [], (Extends.refl w.db).transactions, (Extends.refl w.db).entries⟩

theorem extends_after (env : Env) (labels later : List (Label Task Draw)) :
    ∃ ts es, Extends (after env labels).world.db (after env (labels ++ later)).world.db ts es := by
  rw [after, after, Pool.run_append]
  generalize Pool.run (system env) (Pool.start .empty) labels = P
  refine Pool.world_induction (J := fun w : World => ∃ ts es, Extends P.world.db w.db ts es)
    (fun _ w w' h hspawn => ?_) (fun ω c w h => ?_) ⟨[], [], .refl _⟩ later
  · rw [(spawned_spawn hspawn).db]
    exact h
  · obtain ⟨ts, es, h⟩ := h
    obtain ⟨ts', es', h'⟩ := extends_exec env ω c w
    exact ⟨ts ++ ts', es ++ es', h.trans h'⟩

/-- **The ledger is only added to**: later there are all the transactions and entries of
before, then others, each new entry of a new transaction; and a balance has changed by the
new entries of its account. -/
theorem ledger_append_only {env : Env} {limit : ℤ} (har : env.arith.Precise limit)
    {labels later : List (Label Task Draw)} (hbelow : StaysBelow env limit (labels ++ later)) :
    ∃ ts es,
      Extends (after env labels).world.db (after env (labels ++ later)).world.db ts es ∧
      (∀ e ∈ es, ∃ t ∈ ts, e.transactionId = t.id) ∧
      ∀ a ∈ (after env labels).world.accounts.rows,
        ∃ a', (after env (labels ++ later)).world.accounts.find? a.id = some a' ∧
          (a'.currency, a'.status, a'.createdAt) = (a.currency, a.status, a.createdAt) ∧
          a'.balance = a.balance + net a.id es := by
  obtain ⟨ts, es, h⟩ := extends_after env labels later
  refine ⟨ts, es, h, h.belongs (corresponds_after env _) (corresponds_after env _), fun a ha => ?_⟩
  obtain ⟨a', ha', hkept⟩ := (grows_after env labels later).accounts _ _ (Table.find?_key ha)
  have hfind := Table.find?_eq_some ha'
  have hid : a'.id = a.id := hfind.2
  refine ⟨a', ha', hkept, ?_⟩
  have hbefore : a.balance = net a.id (after env labels).world.db.ledgerEntries.rows :=
    (safe_after har hbelow.left).balance a ha
  have hafter : a'.balance = net a'.id (after env (labels ++ later)).world.db.ledgerEntries.rows :=
    (safe_after har hbelow).balance a' hfind.1
  rw [hafter, h.entries, Ledger.net_append, hid, ← hbefore]

theorem ledger_append_only_deposited :
    ∃ ts es,
      Extends (after sampleEnv opened).world.db
        (after sampleEnv (opened ++ served 1 "2" deposit)).world.db ts es ∧
      (∀ e ∈ es, ∃ t ∈ ts, e.transactionId = t.id) ∧
      ∀ a ∈ (after sampleEnv opened).world.accounts.rows,
        ∃ a', (after sampleEnv (opened ++ served 1 "2" deposit)).world.accounts.find? a.id =
            some a' ∧
          (a'.currency, a'.status, a'.createdAt) = (a.currency, a.status, a.createdAt) ∧
          a'.balance = a.balance + net a.id es :=
  ledger_append_only Ledger.precise_double deposited_staysBelow

end Engine
end LedgerEngine
