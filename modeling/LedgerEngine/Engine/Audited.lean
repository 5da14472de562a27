/-
# The reconciliation job beside live traffic

While clients move money, retry, and webhooks are sent, the reconciliation job reads the
ledger in two queries, at two different moments.  Each of them finds a ledger that is
sound, so in no state of the engine has any run raised an issue (`reconciliation_clean`): an
issue always means that something else has written to the tables, or that a number was
rounded.
-/

import LedgerEngine.Engine.Tables
import LedgerEngine.Reconciliation.Honest

namespace LedgerEngine
namespace Engine

open Ledger (Arith Corresponds Sound)
open Reconciliation (accountMismatches unbalancedTransactions)

/-- No query of a run has given a row. -/
def Stage.Quiet : Stage → Prop
  | .reconcile q => q = false
  | _ => True

section Clean

variable {w : World}

/-- The queries of the job give no row on a sound ledger. -/
theorem queries_eq_nil {db : Db} (h : Sound db) (h' : Corresponds db) :
    accountMismatches db = [] ∧ unbalancedTransactions db = [] := by
  have hnone := (Reconciliation.found_nil_iff (.exact fun _ => true) db (.ofText [])).2
    (Reconciliation.Passes.of_sound h h')
  simpa [Reconciliation.issuesFor, Reconciliation.found] using hnone

/-- A call of a run that has found nothing finds nothing. -/
theorem quiet_next (h : Sound w.db) (h' : Corresponds w.db) (ω : Reconciliation.Draw)
    (c : Reconciliation.Command) :
    Found.next false c (Reconciliation.exec { ω with snapshot := w.db } c w.reconciliation).1 =
      false := by
  obtain ⟨haccounts, htransactions⟩ := queries_eq_nil h h'
  cases hx : (Reconciliation.exec { ω with snapshot := w.db } c w.reconciliation).1 with
  | error e => cases c <;> rfl
  | ok r =>
      have hanswer := Reconciliation.exec_of_ok hx
      rw [hanswer] at hx
      cases c with
      | queryAccounts =>
          obtain rfl : accountMismatches w.db = r := Except.ok.inj hx
          rw [haccounts]
          rfl
      | queryTransactions =>
          obtain rfl : unbalancedTransactions w.db = r := Except.ok.inj hx
          rw [htransactions]
          rfl
      | _ => rfl

/-- What a call of a run that has found nothing leaves of the runs and the issues. -/
theorem unraised_exec {w : Reconciliation.World} {c : Reconciliation.Command}
    (hissues : w.issues.rows = []) (hruns : ∀ run ∈ w.runs.rows, run.totalIssues = 0)
    (hc : Found.Allows false c) (ω : Reconciliation.Draw) :
    (Reconciliation.exec ω c w).2.issues.rows = [] ∧
      ∀ run ∈ (Reconciliation.exec ω c w).2.runs.rows, run.totalIssues = 0 := by
  have heffect := Reconciliation.effect_exec ω c w
  generalize (Reconciliation.exec ω c w).1 = r at heffect
  generalize (Reconciliation.exec ω c w).2 = w' at heffect
  cases heffect with
  | same _ hruns' hissues' =>
      rw [hissues', hruns']
      exact ⟨hissues, hruns⟩
  | saved run hstores =>
      refine ⟨hissues, fun r hr => ?_⟩
      rcases (Table.mem_insert hstores.1).1 hr with hr | rfl
      · exact hruns r hr
      · exact hc
  | stored haccepts => cases hc
  | updated id p =>
      refine ⟨hissues, fun r hr => ?_⟩
      have hfind := Table.find?_key hr
      change (w.updateRun id p).find? r.id = some r at hfind
      rw [Reconciliation.find?_updateRun] at hfind
      split_ifs at hfind with hid
      · obtain ⟨old, hold, rfl⟩ := Option.map_eq_some_iff.1 hfind
        have hzero := hruns old (Table.find?_eq_some hold).1
        have hp : p.totalIssues.getD 0 = 0 := hc.resolve_left Bool.false_ne_true
        show p.totalIssues.getD old.totalIssues = 0
        rw [hzero]
        exact hp
      · exact hruns r (Table.find?_eq_some hfind).1

end Clean

/-- No run has raised an issue, and no query of one has given a row. -/
structure Unraised (w : Reconciliation.World) (stages : List (Task × Stage)) : Prop where
  issues : w.issues.rows = []
  runs : ∀ run ∈ w.runs.rows, run.totalIssues = 0
  quiet : ∀ s ∈ stages, s.2.Quiet

theorem Unraised.set {w : Reconciliation.World} {stages : List (Task × Stage)}
    (h : Unraised w stages) (i : ℕ) {s : Task × Stage} (hs : s.2.Quiet) :
    Unraised w (stages.set i s) := by
  refine ⟨h.issues, h.runs, fun s' hs' => ?_⟩
  rcases List.mem_or_eq_of_mem_set hs' with hold | rfl
  · exact h.quiet s' hold
  · exact hs

/-- **A call raises no issue**, if the ledger it may read is sound. -/
theorem Unraised.call {env : Env} {w : World} {stages : List (Task × Stage)}
    (h : Unraised w.reconciliation stages) (hsound : Sound w.db) (hcorresponds : Corresponds w.db)
    {i : ℕ} {task : Task} {q : Stage} {c : Command} {ω : Draw} (hi : stages[i]? = some (task, q))
    (hallows : q.Allows env task c) :
    Unraised (exec env ω c w).2.reconciliation
      (stages.set i (task, q.next env task c (exec env ω c w).1)) := by
  cases hallows with
  | record hc hop => exact h.set i trivial
  | @operate r id request hrequest => cases request <;> exact h.set i trivial
  | webhook hc => exact h.set i trivial
  | @reconcile service q c hc =>
      obtain rfl : q = false := h.quiet _ (List.mem_of_getElem? hi)
      obtain ⟨hissues, hruns⟩ := unraised_exec h.issues h.runs hc
        { ω.reconcile with snapshot := w.db }
      have hquiet := quiet_next hsound hcorresponds ω.reconcile c
      exact ⟨hissues, hruns, (h.set i (s := (_, .reconcile _)) hquiet).quiet⟩

/-- **The reconciliation job raises no false alarm**, however many runs there are and
whatever the services do between the queries of one. -/
theorem reconciliation_clean {env : Env} {limit : ℤ} (har : env.arith.Precise limit)
    {labels : List (Label Task Draw)} (hbelow : StaysBelow env limit labels) :
    (after env labels).world.reconciliation.issues.rows = [] ∧
      ∀ run ∈ (after env labels).world.reconciliation.runs.rows, run.totalIssues = 0 := by
  have hall : Pool.Along (system env) (fun P _ => Sound P.world.db ∧ Corresponds P.world.db)
      (Pool.start .empty) labels :=
    Pool.along_of_take fun n => ⟨(safe_after har (hbelow.take n)).toSound, corresponds_after env _⟩
  have hstart : Unraised World.empty.reconciliation [] :=
    ⟨rfl, fun _ h => absurd h List.not_mem_nil, fun _ h => absurd h List.not_mem_nil⟩
  have hrun := Pool.invariant (system_follows env)
    (J := fun w stages => Unraised w.reconciliation stages) (fun P task w h _ hspawn => ?_)
    (fun P i task q c ω h hok hi _ hallows => h.call hok.1 hok.2 hi hallows) hall
    (Pool.tracked_start _ _) hstart
  · exact ⟨hrun.2.issues, hrun.2.runs⟩
  · have hreconciliation := (spawned_spawn hspawn).reconciliation
    refine ⟨?_, ?_, fun s hs => ?_⟩
    · rw [hreconciliation]
      exact h.issues
    · rw [hreconciliation]
      exact h.runs
    · rcases List.mem_append.1 hs with hs | hs
      · exact h.quiet s hs
      · obtain rfl := List.mem_singleton.1 hs
        cases task <;> first | rfl | trivial

theorem reconciliation_clean_deposited :
    (after sampleEnv deposited).world.reconciliation.issues.rows = [] ∧
      ∀ run ∈ (after sampleEnv deposited).world.reconciliation.runs.rows, run.totalIssues = 0 :=
  reconciliation_clean Ledger.precise_double deposited_staysBelow

end Engine
end LedgerEngine
