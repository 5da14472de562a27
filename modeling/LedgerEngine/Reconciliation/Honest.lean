/-
# An honest ledger is reported clean

The services keep the ledger in a state that passes both checks of the
reconciliation job (`Passes.of_sound`).  So a run reports exactly what the two
checks find on any contents, and nothing at all where its queries read committed
states of a history of the services, even two different ones of them
(`runAlone_audits`).
-/

import LedgerEngine.Ledger.Openings
import LedgerEngine.Reconciliation.Audit

namespace LedgerEngine
namespace Reconciliation

open Ledger (Arith amounts net Corresponds Sound entriesOf Request Event openings)

/-- One side of a transaction, from its entries. -/
theorem sideOf_eq (db : Db) (type : LedgerEntryType) (id : Uuid) :
    sideOf db type id = (((entriesOf db id).filter fun e => e.entryType = type).map
      LedgerEntryEntity.amount).sum := by
  rw [sideOf, amounts, entriesOf, List.filter_filter]
  simp only [Bool.decide_and]

/-- **Where transactions and entries correspond, debits are credits.** -/
theorem even_of_corresponds {db : Db} (h : Corresponds db) (id : Uuid) : Even db id := by
  by_cases hmem : id ∈ db.ledgerEntries.rows.map LedgerEntryEntity.transactionId
  · obtain ⟨e, he, rfl⟩ := List.mem_map.1 hmem
    obtain ⟨t, ht, hid⟩ := h.entries e he
    obtain ⟨debit, credit, hperm, hlegs⟩ := (h.recorded t ht).entries
    have hside : ∀ type, sideOf db type t.id =
        (([debit, credit].filter fun e => e.entryType = type).map
          LedgerEntryEntity.amount).sum := by
      intro type
      rw [sideOf_eq]
      exact ((hperm.filter _).map _).sum_eq
    rw [hid, Even, hside, hside]
    simp [hlegs.debit_type, hlegs.credit_type, hlegs.debit_amount, hlegs.credit_amount]
  · exact even_of_notMem hmem

theorem Passes.of_sound {db : Db} (h : Sound db) (h' : Corresponds db) : Passes db :=
  ⟨fun a ha => h.balance a ha, even_of_corresponds h'⟩

/-- A report on states that pass the checks is empty. -/
theorem Reports.eq_nil {accounts transactions : Db} {runId : Uuid}
    {issues : List ReconciliationIssueEntity} (h : Reports accounts transactions runId issues)
    (ha : Passes accounts) (ht : Passes transactions) : issues = [] := by
  refine List.eq_nil_iff_forall_not_mem.2 fun i hi => ?_
  rcases h.only i hi with ⟨-, a, hmem, hagrees, -⟩ | ⟨-, id, heven, -⟩
  · exact hagrees (ha.balances a hmem)
  · exact heven (ht.transactions id)

/-- **A run that meets no fault reports exactly what the two checks find**, on any
contents of the ledger, and nothing where its two queries read states committed in
a history of the services. -/
theorem runAlone_audits (ar : Arith) (service : ℕ) (script : ℕ → Draw) (w : World)
    (hidle : service ∉ w.running) (hs : ∀ n, (script n).Smooth w) :
    ∃ issues run, Reports (snapshots script 3).1 (snapshots script 3).2 run.id issues ∧
      (runAlone ar service script w).1 = .ok (.ran run.id .completed issues.length) ∧
      (runAlone ar service script w).2.issues.rows = w.issues.rows ++ issues ∧
      (runAlone ar service script w).2.runs.rows = w.runs.rows ++ [run] ∧
      run.status = .completed ∧ run.totalIssues = issues.length ∧
      ∀ (storable : ℤ → Bool) (reqs : List Request) (events : List Event) (n₁ n₂ : ℕ),
        snapshots script 3 = ((openings (.exact storable) reqs (events.take n₁)).committed,
          (openings (.exact storable) reqs (events.take n₂)).committed) → issues = [] := by
  obtain ⟨issues, run, hreports, hresult, hissues, hruns, hstatus, htotal⟩ :=
    runAlone_reports ar hidle hs
  refine ⟨issues, run, hreports, hresult, hissues, hruns, hstatus, htotal, ?_⟩
  intro storable reqs events n₁ n₂ hsnapshots
  have hpasses : ∀ n, Passes (openings (.exact storable) reqs (events.take n)).committed := by
    intro n
    obtain ⟨hsound, hcorresponds⟩ := Ledger.sound_openings storable reqs (events.take n)
    exact Passes.of_sound hsound hcorresponds
  rw [hsnapshots] at hreports
  exact hreports.eq_nil (hpasses n₁) (hpasses n₂)

/-- An account is opened while a deposit to another one is under way. -/
def twoOpenings : List Event :=
  [.createAccount (.ofText (js "00000000-0000-4000-8000-00000000000c")) 0
      ⟨js "KES", none, by decide⟩, .step 0, .step 0,
    .createAccount (numbered 1) 0 ⟨js "KES", none, by decide⟩, .step 0, .step 0, .step 0, .step 0,
    .step 0, .step 0]

/-- A deposit of 37 KES. -/
def oneDeposit : List Request :=
  [⟨.deposit ⟨js "00000000-0000-4000-8000-00000000000C", 37, js "KES", none, by decide, by decide,
    by decide⟩, Ledger.drawsEnding "1"⟩]

/-- The first query reads the state after three of the events, the second after all. -/
def apartDraws (n : ℕ) : Draw :=
  drawsOn (openings (.exact fun _ => true) oneDeposit
    (twoOpenings.take (if n = 4 then 3 else 10))).committed

theorem runAlone_audits_oneDeposit :
    ∃ run : ReconciliationRunEntity, (runAlone (.exact fun _ => true) 0 apartDraws .empty).1 =
      .ok (.ran run.id .completed 0) := by
  obtain ⟨issues, run, -, hresult, -, -, -, -, hnil⟩ := runAlone_audits (.exact fun _ => true) 0
    apartDraws .empty (by decide) fun _ => smooth_drawsOn _
  have hissues : issues = [] := hnil (fun _ => true) oneDeposit twoOpenings 3 10 rfl
  rw [hissues] at hresult
  exact ⟨run, hresult⟩

end Reconciliation
end LedgerEngine
