/-
# What `createEntries` guards

`LedgerService.createEntries` adds up the debits and the credits of the whole
list it is given and compares the two totals.  It throws and saves nothing or
saves every entry once (`createEntries_guards`), and what it saves is balanced
in total.

A transaction must balance in each currency (`BalancedGroups`).  A list that
does is never turned away by the guard, since the totals are sums of the totals
of its groups (`guardTotals_of_balancedGroups`).  The other way round it takes
a list of one transaction and one currency, which is what every movement hands
over (`Posting.single_newEntries`): in a mixed list one group's debits can
stand against another group's credits (`mixedEntries_saved`).
-/

import LedgerEngine.Ledger.Posting
import Mathlib.Algebra.BigOperators.Group.Finset.Basic
import Mathlib.Algebra.BigOperators.Group.Finset.Piecewise

namespace LedgerEngine
namespace Ledger

/-- What the amounts of one type come to, in the entries of one transaction and
currency. -/
def groupTotal (type : LedgerEntryType) (transactionId : Uuid) (currency : JsString)
    (entries : List NewLedgerEntry) : ℤ :=
  ((entries.filter fun e => e.entryType = type ∧ e.transactionId = transactionId ∧
    e.currency = currency).map NewLedgerEntry.amount).sum

/-- The debits of every transaction in every currency equal its credits. -/
def BalancedGroups (entries : List NewLedgerEntry) : Prop :=
  ∀ transactionId currency, groupTotal .debit transactionId currency entries =
    groupTotal .credit transactionId currency entries

/-- All entries are of one transaction and in one currency. -/
def Single (entries : List NewLedgerEntry) : Prop :=
  ∃ transactionId currency, ∀ e ∈ entries, e.transactionId = transactionId ∧ e.currency = currency

/-- `createEntries` inside a transaction whose statements meet the given faults:
how it settles and the state the transaction sees then. -/
def createdWithFaults (ar : Arith) (d : Draws) (faults : List (Option Exception))
    (entries : List NewLedgerEntry) (db : Db) :
    Except Exception (List LedgerEntryEntity) × Db :=
  let r := (createEntries ar entries).eval (Prog.faulty ((statements ar).handler d)) (db, faults)
  (r.1, r.2.1)

/-- It threw, and nothing was saved. -/
def ThrewWithoutSaving (db : Db) (r : Except Exception (List LedgerEntryEntity) × Db) : Prop :=
  (∃ e, r.1 = .error e) ∧ r.2 = db

/-- It saved each entry exactly once, and nothing else. -/
def SavedEach (d : Draws) (entries : List NewLedgerEntry) (db : Db)
    (r : Except Exception (List LedgerEntryEntity) × Db) : Prop :=
  r.1 = .ok (entryRows d entries) ∧ ((entryRows d entries).map LedgerEntryEntity.id).Nodup ∧
    r.2.ledgerEntries.rows = db.ledgerEntries.rows ++ entryRows d entries ∧
    r.2 = { db with ledgerEntries := r.2.ledgerEntries }

/-- With exact arithmetic the fold of the guard is a sum. -/
theorem total_exact (storable : ℤ → Bool) (type : LedgerEntryType)
    (entries : List NewLedgerEntry) :
    total (.exact storable) type entries =
      ((entries.filter fun e => e.entryType = type).map NewLedgerEntry.amount).sum := by
  unfold total
  simp only [Arith.round_exact]
  rw [List.sum_eq_foldl, List.foldl_map]

/-- In a list of one transaction and currency that group is the whole list. -/
theorem groupTotal_eq_total (storable : ℤ → Bool) {entries : List NewLedgerEntry}
    {transactionId : Uuid} {currency : JsString}
    (h : ∀ e ∈ entries, e.transactionId = transactionId ∧ e.currency = currency)
    (type : LedgerEntryType) :
    groupTotal type transactionId currency entries = total (.exact storable) type entries := by
  rw [total_exact, groupTotal]
  congr 2
  refine List.filter_congr fun e he => ?_
  simp [h e he]

/-- A group that no entry belongs to comes to zero. -/
theorem groupTotal_eq_zero {entries : List NewLedgerEntry} {transactionId : Uuid}
    {currency : JsString}
    (h : ∀ e ∈ entries, ¬ (e.transactionId = transactionId ∧ e.currency = currency))
    (type : LedgerEntryType) : groupTotal type transactionId currency entries = 0 := by
  have hnil : entries.filter (fun e => e.entryType = type ∧ e.transactionId = transactionId ∧
      e.currency = currency) = [] :=
    List.filter_eq_nil_iff.2 fun e he hp => h e he (of_decide_eq_true hp).2
  rw [groupTotal, hnil]
  rfl

/-- **In a list of one transaction and one currency equal totals are balance.** -/
theorem Single.balancedGroups {storable : ℤ → Bool} {entries : List NewLedgerEntry}
    (h : Single entries)
    (htotal : total (.exact storable) .debit entries = total (.exact storable) .credit entries) :
    BalancedGroups entries := by
  obtain ⟨t, c, hall⟩ := h
  intro transactionId currency
  by_cases hgroup : transactionId = t ∧ currency = c
  · obtain ⟨rfl, rfl⟩ := hgroup
    rw [groupTotal_eq_total storable hall, groupTotal_eq_total storable hall, htotal]
  · have hnone : ∀ e ∈ entries, ¬ (e.transactionId = transactionId ∧ e.currency = currency) := by
      rintro e he ⟨rfl, rfl⟩
      exact hgroup (hall e he)
    rw [groupTotal_eq_zero hnone, groupTotal_eq_zero hnone]

/-- An entry counts in its own group and for its own type. -/
theorem groupTotal_cons (type : LedgerEntryType) (e : NewLedgerEntry) (entries : List NewLedgerEntry)
    (g : Uuid × JsString) :
    groupTotal type g.1 g.2 (e :: entries) =
      (if g = (e.transactionId, e.currency) then if e.entryType = type then e.amount else 0 else 0) +
        groupTotal type g.1 g.2 entries := by
  obtain ⟨t, c⟩ := g
  unfold groupTotal
  rw [List.filter_cons]
  by_cases hg : (t, c) = (e.transactionId, e.currency)
  · obtain ⟨rfl, rfl⟩ := Prod.mk.inj hg
    by_cases htype : e.entryType = type <;> simp [htype]
  · have hne : ¬ (e.transactionId = t ∧ e.currency = c) := by
      rintro ⟨rfl, rfl⟩
      exact hg rfl
    rw [if_neg fun h => hne (of_decide_eq_true h).2, if_neg hg, zero_add]

/-- The total of a type is the sum of the totals of its groups. -/
theorem total_eq_sum_groupTotal (storable : ℤ → Bool) (type : LedgerEntryType)
    (entries : List NewLedgerEntry) {groups : Finset (Uuid × JsString)}
    (hgroups : ∀ e ∈ entries, (e.transactionId, e.currency) ∈ groups) :
    total (.exact storable) type entries =
      ∑ g ∈ groups, groupTotal type g.1 g.2 entries := by
  rw [total_exact]
  induction entries with
  | nil => simp [groupTotal]
  | cons e entries ih =>
      have he := hgroups e (List.mem_cons_self ..)
      simp only [groupTotal_cons]
      rw [Finset.sum_add_distrib, ← ih fun e' he' => hgroups e' (List.mem_cons_of_mem _ he'),
        Finset.sum_ite_eq', if_pos he, List.filter_cons]
      by_cases htype : e.entryType = type <;> simp [htype]

/-- **The guard turns no list away that balances in each group.** -/
theorem guardTotals_of_balancedGroups (storable : ℤ → Bool) {entries : List NewLedgerEntry}
    (h : BalancedGroups entries) :
    total (.exact storable) .debit entries = total (.exact storable) .credit entries := by
  have hmem : ∀ e ∈ entries, (e.transactionId, e.currency) ∈
      (entries.map fun e => (e.transactionId, e.currency)).toFinset := fun e he =>
    List.mem_toFinset.2 (List.mem_map.2 ⟨e, he, rfl⟩)
  rw [total_eq_sum_groupTotal storable _ _ hmem, total_eq_sum_groupTotal storable _ _ hmem]
  exact Finset.sum_congr rfl fun g _ => h g.1 g.2

/-- Every movement hands over the entries of one transaction in one currency. -/
theorem Posting.single_newEntries (p : Posting) (transactionId : Uuid) :
    Single (p.newEntries transactionId) := by
  refine ⟨transactionId, p.currency, fun e he => ?_⟩
  unfold Posting.newEntries at he
  split at he <;>
    · rcases List.mem_pair.1 he with rfl | rfl <;> exact ⟨rfl, rfl⟩

section Guard

variable {storable : ℤ → Bool} {d : Draws} {faults : List (Option Exception)}
  {entries : List NewLedgerEntry} {db : Db}

/-- Totals that differ are refused before any statement is sent. -/
theorem createdWithFaults_of_ne {ar : Arith}
    (h : total ar .debit entries ≠ total ar .credit entries) :
    createdWithFaults ar d faults entries db =
      (.error (.domain (.unbalancedLedgerEntries (total ar .debit entries)
        (total ar .credit entries))), db) := by
  unfold createdWithFaults createEntries
  dsimp only
  rw [if_pos h]
  rfl

/-- One insert of entries saves them all or none. -/
theorem handler_insertLedgerEntries {r : Except Exception (List LedgerEntryEntity) × Db}
    (hr : (statements (.exact storable)).handler d (.insertLedgerEntries entries) db = r) :
    ThrewWithoutSaving db r ∨ SavedEach d entries db r := by
  subst hr
  simp only [TwoPhase.Statements.handler, statements, exec]
  split_ifs with hnew hfit
  · refine Or.inr ?_
    show SavedEach d entries db (.ok (entryRows d entries),
      (statements (.exact storable)).applyAll ((entryRows d entries).map .addLedgerEntry) db)
    rw [applyAll_addLedgerEntry]
    exact ⟨rfl, hnew.1, Table.rows_insertAll hnew.1 hnew.2, rfl⟩
  · exact Or.inl ⟨⟨_, rfl⟩, rfl⟩
  · exact Or.inl ⟨⟨_, rfl⟩, rfl⟩

/-- Totals that agree let the one insert through. -/
theorem createdWithFaults_of_eq
    (h : total (.exact storable) .debit entries = total (.exact storable) .credit entries) :
    ThrewWithoutSaving db (createdWithFaults (.exact storable) d faults entries db) ∨
      SavedEach d entries db (createdWithFaults (.exact storable) d faults entries db) := by
  unfold createdWithFaults createEntries
  dsimp only
  rw [if_neg (not_not.2 h), insertLedgerEntries, Prog.eval_await]
  cases faults with
  | nil => exact handler_insertLedgerEntries rfl
  | cons fault faults =>
      cases fault with
      | none => exact handler_insertLedgerEntries rfl
      | some e => exact Or.inl ⟨⟨e, rfl⟩, rfl⟩

end Guard

/-- **`createEntries` throws and saves nothing or saves each entry once**, and
saves only what is balanced in total, which for the entries of one transaction
in one currency is the balance of that transaction. -/
theorem createEntries_guards (storable : ℤ → Bool) (d : Draws) (faults : List (Option Exception))
    (entries : List NewLedgerEntry) (db : Db) :
    (ThrewWithoutSaving db (createdWithFaults (.exact storable) d faults entries db) ∨
      SavedEach d entries db (createdWithFaults (.exact storable) d faults entries db)) ∧
    (SavedEach d entries db (createdWithFaults (.exact storable) d faults entries db) →
      total (.exact storable) .debit entries = total (.exact storable) .credit entries ∧
        (Single entries → BalancedGroups entries)) := by
  by_cases h : total (.exact storable) .debit entries = total (.exact storable) .credit entries
  · exact ⟨createdWithFaults_of_eq h, fun _ => ⟨h, fun hsingle => hsingle.balancedGroups h⟩⟩
  · rw [createdWithFaults_of_ne h]
    refine ⟨Or.inl ⟨⟨_, rfl⟩, rfl⟩, fun hsaved => ?_⟩
    exact absurd hsaved.1 (by simp)

/-- An account in rupees. -/
def rupeeAccount (id : String) : AccountEntity where
  id := .ofText (js id)
  currency := js "INR"
  balance := 0
  status := .active
  createdAt := 0
  updatedAt := 0

/-- A transaction that has no entries yet. -/
def pendingTransfer (id : String) : TransactionEntity where
  id := .ofText (js id)
  type := .transfer
  status := .pending
  amount := 100
  currency := js "INR"
  fromAccountId := some (.ofText (js "x"))
  toAccountId := some (.ofText (js "y"))
  description := none
  completedAt := none
  createdAt := 1

/-- Two accounts and two transactions between them. -/
def twoTransfers : Db where
  accounts := (Table.empty.insert (rupeeAccount "x")).insert (rupeeAccount "y")
  transactions := (Table.empty.insert (pendingTransfer "a")).insert (pendingTransfer "b")
  ledgerEntries := .empty
  outboxEvents := .empty

/-- A debit of one transaction and a credit of another. -/
def mixedEntries : List NewLedgerEntry := [
  { transactionId := .ofText (js "a"), accountId := some (.ofText (js "x")), ledgerAccount := none,
    entryType := .debit, amount := 100, currency := js "INR" },
  { transactionId := .ofText (js "b"), accountId := some (.ofText (js "y")), ledgerAccount := none,
    entryType := .credit, amount := 100, currency := js "INR" }]

/-- **A list can balance in total and in none of its transactions**, and is saved. -/
theorem mixedEntries_saved :
    SavedEach (drawsEnding "") mixedEntries twoTransfers
        (createdWithFaults (.exact fun _ => true) (drawsEnding "") [] mixedEntries
          twoTransfers) ∧
      ¬ BalancedGroups mixedEntries := by
  refine ⟨⟨rfl, by decide, rfl, rfl⟩, fun h => ?_⟩
  exact absurd (h (.ofText (js "a")) (js "INR")) (by decide)

end Ledger
end LedgerEngine
