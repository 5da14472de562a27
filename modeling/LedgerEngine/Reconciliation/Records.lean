/-
# What the record of a run claims

Any number of executions of `runReconciliation` side by side, each of whose calls
may fail, and each of which may stop at any await (`Machine`).  The row of a run is
saved as COMPLETED before anything has been checked, so it claims a result it does
not have from the moment it is there; with no rows at all there is nothing to claim
(`honest_iff`).

What a row says once it has a `completed_at` is true: it is COMPLETED only after
both queries, and then counts its issues.  An execution's progress is followed as
the stage of a thread (`Stage`), and `Truthful` says what the stages mean for the
two tables.
-/

import LedgerEngine.Async.Pool
import LedgerEngine.Reconciliation.Audit

namespace LedgerEngine
namespace Reconciliation

open Ledger (Arith)

/-! ### Where an execution is -/

/-- The run an execution has saved, how many of its queries have finished, how many
issues it has saved, and whether that number may still be counted: not once a save
of issues has failed or the run has been updated. -/
structure Stage where
  runId : Option Uuid
  queried : ℕ
  stored : ℕ
  closed : Bool
  deriving DecidableEq

/-- An execution that has done nothing. -/
def Stage.entry : Stage := ⟨none, 0, 0, false⟩

/-- An execution with its run saved. -/
def Stage.started (runId : Uuid) (queried stored : ℕ) : Stage :=
  ⟨some runId, queried, stored, false⟩

def Stage.next (q : Stage) : (c : Command) → Except Exception c.Res → Stage
  | .saveRun _, .ok run => { q with runId := some run.id }
  | .queryAccounts, .ok _ => { q with queried := q.queried + 1 }
  | .queryTransactions, .ok _ => { q with queried := q.queried + 1 }
  | .saveIssues issues, .ok _ => { q with stored := issues.length }
  | .saveIssues _, .error _ => { q with closed := true }
  | .updateRun _ _, _ => { q with closed := true }
  | _, _ => q

/-- What an execution asks for at a stage. -/
def Stage.Allows (q : Stage) : Command → Prop
  | .saveRun run => q = .entry ∧ run.status = .completed
  | .saveIssues issues => q.closed = false ∧ q.stored = 0 ∧ ∀ i ∈ issues, q.runId = some i.runId
  | .updateRun id p => q.runId = some id ∧ (p.status = .failed ∨
      q.closed = false ∧ 2 ≤ q.queried ∧ p.totalIssues = some q.stored)
  | _ => True

def protocol : Protocol Command Command.Res Exception Stage := ⟨Stage.next, Stage.Allows⟩

section Follows

variable {ar : Arith} {post : Except Exception RunResult → Stage → Prop}

theorem follows_startRun : startRun.Follows protocol
    (fun r q' => ∀ run, r = .ok run → q' = .started run.id 0 0) .entry := by
  refine Prog.Follows.await_bind trivial (fun now => ?_) fun e run h => absurd h (by simp)
  refine Prog.Follows.await ⟨rfl, rfl⟩ fun r run h => ?_
  subst h
  rfl

/-- One query after the other, both answered or the error of one thrown. -/
theorem follows_queries {id : Uuid} {α β : Type} {p : Service α} {p' : Service β}
    {γ : Type} {f : α → β → γ}
    (hp : ∀ n, p.Follows protocol (fun r q' => q'.runId = some id ∧
      ∀ a, r = .ok a → q' = .started id (n + 1) 0) (.started id n 0))
    (hp' : ∀ n, p'.Follows protocol (fun r q' => q'.runId = some id ∧
      ∀ b, r = .ok b → q' = .started id (n + 1) 0) (.started id n 0)) :
    (p.bind fun a => p'.bind fun b => .ret (f a b)).Follows protocol
      (fun r q' => q'.runId = some id ∧ ∀ c, r = .ok c → q' = .started id 2 0)
      (.started id 0 0) := by
  refine (hp 0).bind (fun a q' ha => ?_) fun e q' he => ⟨he.1, fun c h => absurd h (by simp)⟩
  obtain rfl := ha.2 a rfl
  refine (hp' 1).bind (fun b q' hb => ?_) fun e q' he => ⟨he.1, fun c h => absurd h (by simp)⟩
  obtain rfl := hb.2 b rfl
  exact ⟨rfl, fun _ _ => rfl⟩

theorem follows_findAccountBalanceMismatches (id : Uuid) (n : ℕ) :
    (findAccountBalanceMismatches ar).Follows protocol
      (fun r q' => q'.runId = some id ∧ ∀ rows, r = .ok rows → q' = .started id (n + 1) 0)
      (.started id n 0) :=
  Prog.Follows.await_bind trivial (fun _ => ⟨rfl, fun _ _ => rfl⟩)
    fun e => ⟨rfl, fun rows h => absurd h (by simp)⟩

theorem follows_findUnbalancedTransactions (id : Uuid) (n : ℕ) :
    (findUnbalancedTransactions ar).Follows protocol
      (fun r q' => q'.runId = some id ∧ ∀ rows, r = .ok rows → q' = .started id (n + 1) 0)
      (.started id n 0) :=
  Prog.Follows.await_bind trivial (fun _ => ⟨rfl, fun _ _ => rfl⟩)
    fun e => ⟨rfl, fun rows h => absurd h (by simp)⟩

theorem follows_findBoth (id : Uuid) : (findBoth ar).Follows protocol
    (fun r q' => q'.runId = some id ∧ ∀ found, r = .ok found → q' = .started id 2 0)
    (.started id 0 0) := by
  refine Prog.Follows.await_bind trivial (fun first => ?_)
    fun e => ⟨rfl, fun found h => absurd h (by simp)⟩
  cases first with
  | true =>
      exact follows_queries (f := fun accounts transactions => (accounts, transactions))
        (follows_findAccountBalanceMismatches id) (follows_findUnbalancedTransactions id)
  | false =>
      exact follows_queries (f := fun transactions accounts => (accounts, transactions))
        (follows_findUnbalancedTransactions id) (follows_findAccountBalanceMismatches id)

theorem runId_of_mem_issuesFor {id : Uuid}
    {found : List AccountMismatch × List UnbalancedTransaction} {i : NewIssue}
    (h : i ∈ issuesFor id found) : i.runId = id := by
  rcases List.mem_append.1 h with h | h
  · obtain ⟨_, -, rfl⟩ := List.mem_map.1 h
    rfl
  · obtain ⟨_, -, rfl⟩ := List.mem_map.1 h
    rfl

theorem follows_saveFound {id : Uuid} {issues : List NewIssue} (h : ∀ i ∈ issues, i.runId = id) :
    (saveFound issues).Follows protocol
      (fun r q' => q'.runId = some id ∧ ∀ u, r = .ok u → q' = .started id 2 issues.length)
      (.started id 2 0) := by
  unfold saveFound
  split_ifs with hlength
  · refine Prog.Follows.await_bind ⟨rfl, rfl, fun i hi => ?_⟩ (fun _ => ⟨rfl, fun _ _ => rfl⟩)
      fun e => ⟨rfl, fun u h => absurd h (by simp)⟩
    rw [h i hi]
    rfl
  · refine ⟨rfl, fun _ _ => ?_⟩
    have hzero : issues.length = 0 := by omega
    rw [hzero]

theorem follows_reconcile (run : ReconciliationRunEntity) : (reconcile ar run).Follows protocol
    (fun _ q' => q'.runId = some run.id) (.started run.id 0 0) := by
  refine (follows_findBoth run.id).bind (fun found q' hfound => ?_) fun e q' he => he.1
  obtain rfl := hfound.2 found rfl
  refine (follows_saveFound fun i hi => runId_of_mem_issuesFor hi).bind (fun u q' hu => ?_)
    fun e q' he => he.1
  obtain rfl := hu.2 u rfl
  refine Prog.Follows.await_bind trivial (fun now => ?_) fun e => rfl
  exact Prog.Follows.await_bind ⟨rfl, Or.inr ⟨rfl, le_rfl, rfl⟩⟩ (fun _ => rfl) fun e => rfl

theorem follows_recordFailure {run : ReconciliationRunEntity} {e : Exception} {q : Stage}
    (h : q.runId = some run.id) :
    (recordFailure run e).Follows protocol (fun _ _ => True) q := by
  refine Prog.Follows.await_bind trivial (fun now => ?_) fun e => trivial
  exact Prog.Follows.await_bind ⟨h, Or.inl rfl⟩ (fun _ => trivial) fun e => trivial

/-- **An execution keeps to its protocol.** -/
theorem follows_runReconciliation (ar : Arith) (service : ℕ) :
    (runReconciliation ar service).Follows protocol (fun _ _ => True) .entry := by
  refine Prog.Follows.await_bind trivial (fun entered => ?_) fun e => trivial
  cases entered with
  | false => trivial
  | true =>
      refine follows_startRun.bind (fun run q' hrun => ?_) fun _ _ _ => trivial
      obtain rfl := hrun run rfl
      refine Prog.Follows.andThen (fun _ _ => True) ?_ fun r q' _ => ?_
      · exact (follows_reconcile run).tryCatch _ (fun _ _ _ => trivial)
          fun e q' he => follows_recordFailure he
      · refine Prog.Follows.await_bind trivial (fun _ => ?_) fun e => trivial
        cases r with
        | ok r => trivial
        | error e => trivial

end Follows

/-! ### Executions side by side -/

/-- Executions of `runReconciliation`, each on the service instance it names. -/
def system (ar : Arith) : System ℕ Command Command.Res Exception RunResult World Draw Stage where
  exec := exec
  body := runReconciliation ar
  spawn _ w := some w
  entry _ := .entry
  protocol _ := protocol

/-- The executions, and the numbers of those that have stopped. -/
structure Machine where
  pool : Pool ℕ Command Command.Res Exception RunResult World Stage
  stopped : List ℕ

/-- What happens next: an execution starts, makes its next call, or stops for good. -/
inductive Event : Type
  | spawn (service : ℕ)
  | step (i : ℕ) (ω : Draw)
  | stop (i : ℕ)

def Machine.advance (ar : Arith) (M : Machine) : Event → Machine
  | .spawn service => { M with pool := M.pool.step (system ar) (.spawn service) }
  | .step i ω =>
      if i ∈ M.stopped then M else { M with pool := M.pool.step (system ar) (.step i ω) }
  | .stop i => { M with stopped := i :: M.stopped }

/-- The tables start empty, and the events happen one after the other. -/
def reach (ar : Arith) (events : List Event) : Machine :=
  events.foldl (Machine.advance ar) ⟨Pool.start .empty, []⟩

/-- The issues stored under a run's id. -/
def World.issueCount (w : World) (runId : Uuid) : ℕ :=
  w.issues.rows.countP fun i => i.runId = runId

/-- Some execution has saved the run and finished both its queries. -/
def Queried (ts : List (ℕ × Stage)) (runId : Uuid) : Prop :=
  ∃ x ∈ ts, x.2.runId = some runId ∧ 2 ≤ x.2.queried

instance (ts : List (ℕ × Stage)) (runId : Uuid) : Decidable (Queried ts runId) :=
  inferInstanceAs (Decidable (∃ x ∈ ts, x.2.runId = some runId ∧ 2 ≤ x.2.queried))

/-- No execution of the run is in flight: it has ended or has stopped. -/
def Machine.Settled (M : Machine) (runId : Uuid) : Prop :=
  ∀ i th, M.pool.threads[i]? = some th → th.stage.runId = some runId →
    th.head = none ∨ i ∈ M.stopped

/-- A row that says COMPLETED belongs to an execution both of whose queries finished,
and a row whose execution is not in flight counts its issues. -/
structure Machine.Honest (M : Machine) : Prop where
  completed : ∀ r ∈ M.pool.world.runs.rows, r.status = .completed →
    Queried M.pool.stages r.id
  counted : ∀ r ∈ M.pool.world.runs.rows, M.Settled r.id →
    r.totalIssues = M.pool.world.issueCount r.id

/-- The row of a new run is stored: its id is new, and the database does not refuse
it. -/
def Draw.Stores (ω : Draw) (w : World) : Prop :=
  w.runs.find? (ω.id 0) = none ∧ ∀ e, ω.fault ≠ some (.refused e)

/-- The event is a first `save` of an execution that takes effect. -/
def Event.Records (M : Machine) (e : Event) : Prop :=
  ∃ i ω th run, e = .step i ω ∧ i ∉ M.stopped ∧ M.pool.threads[i]? = some th ∧
    th.head = some (.saveRun run) ∧ ω.Stores M.pool.world

/-! ### What calls do to the two tables -/

section Effects

variable {ω : Draw} {c : Command} {w : World}

/-- The runs after one is patched. -/
theorem find?_updateRun (w : World) (id : Uuid) (p : RunPatch) (id' : Uuid) :
    (w.updateRun id p).find? id' =
      if id = id' then (w.runs.find? id').map p.apply else w.runs.find? id' := by
  unfold World.updateRun
  cases hfind : w.runs.find? id with
  | none =>
      split_ifs with hid
      · rw [← hid, hfind]
        rfl
      · rfl
  | some run =>
      have hkey : Keyed.key (p.apply run) = id := (Table.find?_eq_some hfind).2
      dsimp only
      rw [Table.find?_put, hkey]
      split_ifs with hid
      · rw [← hid, hfind]
        rfl
      · rfl

/-- The calls that change the two tables. -/
def Command.writes : Command → Bool
  | .saveRun _ | .saveIssues _ | .updateRun _ _ => true
  | _ => false

/-- **What a call does to the tables**: nothing, and then no write has resolved, or it
adds a run, adds issues, or changes a run. -/
inductive Effect (ω : Draw) (w : World) : (c : Command) → Except Exception c.Res → World → Prop
  | same (c : Command) {r : Except Exception c.Res} {w' : World} (hruns : w'.runs = w.runs)
      (hissues : w'.issues = w.issues) (hr : c.writes = true → ∀ a, r ≠ .ok a) : Effect ω w c r w'
  | saved (run : NewRun) {r : Except Exception ReconciliationRunEntity}
      (h : ω.Stores w) (hr : ∀ run', r = .ok run' → run' = run.row ω.now (ω.id 0)) :
      Effect ω w (.saveRun run) r { w with runs := w.runs.insert (run.row ω.now (ω.id 0)) }
  | stored {issues : List NewIssue} {r : Except Exception (List ReconciliationIssueEntity)}
      (h : w.Accepts (issueRows ω.now ω.id issues)) :
      Effect ω w (.saveIssues issues) r
        { w with issues := w.issues.insertAll (issueRows ω.now ω.id issues) }
  | updated (id : Uuid) (p : RunPatch) {r : Except Exception Unit} :
      Effect ω w (.updateRun id p) r { w with runs := w.updateRun id p }

theorem Effect.lost {r : Except Exception c.Res} {w' : World} (h : Effect ω w c r w')
    (e : Exception) : Effect ω w c (.error e) w' := by
  cases h with
  | same _ hruns hissues => exact .same c hruns hissues fun _ a ha => absurd ha (by simp)
  | saved run h => exact .saved run h fun _ h => absurd h (by simp)
  | stored h => exact .stored h
  | updated id p => exact .updated id p

theorem effect_answer (hω : ∀ e, ω.fault ≠ some (.refused e)) (c : Command) (w : World) :
    Effect ω w c (answer ω c w).1 (answer ω c w).2 := by
  cases c with
  | saveRun run =>
      by_cases hnew : w.runs.find? (ω.id 0) = none
      · have hnone : ¬ (w.runs.find? (ω.id 0)).isSome := by simp [hnew]
        simp only [answer, if_neg hnone]
        exact .saved run ⟨hnew, hω⟩ fun run' h => (Except.ok.inj h).symm
      · have hsome : (w.runs.find? (ω.id 0)).isSome := Option.isSome_iff_ne_none.2 hnew
        simp only [answer, if_pos hsome]
        exact .same _ rfl rfl fun _ a ha => absurd ha (by simp)
  | saveIssues issues =>
      by_cases haccepts : w.Accepts (issueRows ω.now ω.id issues)
      · simp only [answer, if_pos haccepts]
        exact .stored haccepts
      · simp only [answer, if_neg haccepts]
        exact .same _ rfl rfl fun _ a ha => absurd ha (by simp)
  | updateRun id p =>
      by_cases hfits : p.Fits
      · simp only [answer, if_pos hfits]
        exact .updated id p
      · simp only [answer, if_neg hfits]
        exact .same _ rfl rfl fun _ a ha => absurd ha (by simp)
  | _ => exact .same _ rfl rfl fun h => absurd h Bool.false_ne_true

theorem effect_exec (ω : Draw) (c : Command) (w : World) :
    Effect ω w c (exec ω c w).1 (exec ω c w).2 := by
  unfold exec
  split_ifs with hstores
  · cases hfault : ω.fault with
    | none => exact effect_answer (fun e he => absurd (hfault.symm.trans he) (by simp)) c w
    | some fault =>
        cases fault with
        | refused e => exact .same c rfl rfl fun _ a ha => absurd ha (by simp [Prog.Handler.meet])
        | lost e =>
            refine (effect_answer (fun e he => ?_) c w).lost e
            exact absurd (hfault.symm.trans he) (by simp)
  · cases c <;>
      first
        | exact absurd rfl hstores
        | exact .same _ rfl rfl fun h => absurd h Bool.false_ne_true

/-- A run whose row can be stored is, and the execution gets that row if any. -/
theorem exec_saveRun {run : NewRun} (h : ω.Stores w) :
    (exec ω (.saveRun run) w).2.runs = w.runs.insert (run.row ω.now (ω.id 0)) ∧
      ∀ run', (exec ω (.saveRun run) w).1 = .ok run' → run' = run.row ω.now (ω.id 0) := by
  have hnone : ¬ (w.runs.find? (ω.id 0)).isSome := by simp [h.1]
  have hanswer : answer ω (.saveRun run) w = (.ok (run.row ω.now (ω.id 0)),
      { w with runs := w.runs.insert (run.row ω.now (ω.id 0)) }) := by
    simp only [answer, if_neg hnone]
  have hexec : exec ω (.saveRun run) w = Prog.Handler.meet (answer ω) ω.fault (.saveRun run) w :=
    rfl
  rw [hexec]
  cases hfault : ω.fault with
  | none =>
      rw [Prog.Handler.meet, hanswer]
      exact ⟨rfl, fun run' hr => (Except.ok.inj hr).symm⟩
  | some fault =>
      cases fault with
      | refused e => exact absurd hfault (h.2 e)
      | lost e =>
          refine ⟨?_, fun run' hr => absurd hr (by simp [Prog.Handler.meet])⟩
          simp only [Prog.Handler.meet, hanswer]

end Effects

/-! ### What the stages mean for the tables -/

/-- What holds after every step: executions have runs of their own, an execution
that has not counted its issues yet has a run that is not completed, and a
completed run counts its issues. -/
structure Truthful (w : World) (ts : List (ℕ × Stage)) : Prop where
  unique : ∀ (i j : ℕ) (t u : ℕ) (q q' : Stage) (id : Uuid), ts[i]? = some (t, q) →
    ts[j]? = some (u, q') → q.runId = some id → q'.runId = some id → i = j
  known : ∀ (i t : ℕ) (q : Stage) (id : Uuid), ts[i]? = some (t, q) → q.runId = some id →
    w.runs.find? id ≠ none
  references : ∀ issue ∈ w.issues.rows, w.runs.find? issue.runId ≠ none
  pending : ∀ (i t : ℕ) (q : Stage) (id : Uuid) (r : ReconciliationRunEntity),
    ts[i]? = some (t, q) → q.closed = false → q.runId = some id → w.runs.find? id = some r →
    r.completedAt = none ∧ w.issueCount id = q.stored
  completed : ∀ (id : Uuid) (r : ReconciliationRunEntity), w.runs.find? id = some r →
    r.status = .completed → r.completedAt ≠ none → r.totalIssues = w.issueCount id ∧ Queried ts id

/-- A stage knows as much as another and has done no less. -/
structure Stage.Extends (q' q : Stage) : Prop where
  runId : q'.runId = q.runId
  queried : q.queried ≤ q'.queried
  stored : q'.closed = false → q.closed = false ∧ q'.stored = q.stored

namespace Truthful

variable {w w' : World} {ts : List (ℕ × Stage)} {i t : ℕ} {q q' : Stage}

theorem start : Truthful .empty [] where
  unique i j t u q q' id hi := absurd hi (by simp)
  known i t q id hi := absurd hi (by simp)
  references issue h := absurd h List.not_mem_nil
  pending i t q id r hi := absurd hi (by simp)
  completed id r h := absurd h (by simp [World.empty])

/-- An execution starts. -/
theorem spawn (h : Truthful w ts) (t : ℕ) : Truthful w (ts ++ [(t, .entry)]) := by
  have hentry : ∀ {j u : ℕ} {p : Stage} {id : Uuid},
      (ts ++ [(t, Stage.entry)])[j]? = some (u, p) → p.runId = some id → ts[j]? = some (u, p) := by
    intro j u p id hj hp
    rcases getElem?_append_some hj with hj | ⟨-, he⟩
    · exact hj
    · obtain ⟨-, rfl⟩ := Prod.mk.inj he
      exact absurd hp (by simp [Stage.entry])
  constructor
  · intro i j t u q q' id hi hj hq hq'
    exact h.unique i j t u q q' id (hentry hi hq) (hentry hj hq') hq hq'
  · intro i t q id hi hq
    exact h.known i t q id (hentry hi hq) hq
  · exact h.references
  · intro i t q id r hi hclosed hq
    exact h.pending i t q id r (hentry hi hq) hclosed hq
  · intro id r hr hs hc
    obtain ⟨htotal, x, hx, hqueried⟩ := h.completed id r hr hs hc
    exact ⟨htotal, x, List.mem_append_left _ hx, hqueried⟩

/-- The execution that has queried for a run is still there after a call. -/
theorem queried_set (hi : ts[i]? = some (t, q)) (hrun : q'.runId = q.runId ∨ q.runId = none)
    (hqueried : q.queried ≤ q'.queried) {id : Uuid} (h : Queried ts id) :
    Queried (ts.set i (t, q')) id := by
  obtain ⟨x, hx, hid, htwo⟩ := h
  obtain ⟨j, hj⟩ := List.mem_iff_getElem?.1 hx
  by_cases hji : j = i
  · subst hji
    obtain rfl := Option.some.inj (hi.symm.trans hj)
    have hlt : j < ts.length := (List.getElem?_eq_some_iff.1 hi).1
    refine ⟨(t, q'), List.mem_set hlt _, ?_, htwo.trans hqueried⟩
    rcases hrun with hrun | hrun
    · exact hrun.trans hid
    · exact absurd (hrun.symm.trans hid) (by simp)
  · refine ⟨x, List.mem_iff_getElem?.2 ⟨j, ?_⟩, hid, htwo⟩
    rw [List.getElem?_set_ne (Ne.symm hji)]
    exact hj

/-- A call after which its execution has the run it had leaves everyone his run. -/
theorem runId_set (hi : ts[i]? = some (t, q)) (hrun : q'.runId = q.runId) {j u : ℕ} {p : Stage}
    (hj : (ts.set i (t, q'))[j]? = some (u, p)) :
    ∃ p₀, ts[j]? = some (u, p₀) ∧ p₀.runId = p.runId := by
  rcases getElem?_set_some hj with ⟨rfl, he⟩ | ⟨-, hj⟩
  · obtain ⟨rfl, rfl⟩ := Prod.mk.inj he
    exact ⟨q, hi, hrun.symm⟩
  · exact ⟨p, hj, rfl⟩

theorem unique_set (h : Truthful w ts) (hi : ts[i]? = some (t, q)) (hrun : q'.runId = q.runId)
    (j k u v : ℕ) (p p' : Stage) (id : Uuid) (hj : (ts.set i (t, q'))[j]? = some (u, p))
    (hk : (ts.set i (t, q'))[k]? = some (v, p')) (hp : p.runId = some id)
    (hp' : p'.runId = some id) : j = k := by
  obtain ⟨p₁, hj, hp₁⟩ := runId_set hi hrun hj
  obtain ⟨p₂, hk, hp₂⟩ := runId_set hi hrun hk
  exact h.unique j k u v p₁ p₂ id hj hk (hp₁.trans hp) (hp₂.trans hp')

theorem known_set (h : Truthful w ts) (hi : ts[i]? = some (t, q)) (hrun : q'.runId = q.runId)
    (j u : ℕ) (p : Stage) (id : Uuid) (hj : (ts.set i (t, q'))[j]? = some (u, p))
    (hp : p.runId = some id) : w.runs.find? id ≠ none := by
  obtain ⟨p₁, hj, hp₁⟩ := runId_set hi hrun hj
  exact h.known j u p₁ id hj (hp₁.trans hp)

/-- The issues of a run once those of one run have been stored. -/
theorem issueCount_store {ω : Draw} {issues : List NewIssue} {own : Option Uuid}
    (haccepts : w.Accepts (issueRows ω.now ω.id issues))
    (hids : ∀ issue ∈ issues, own = some issue.runId) (id : Uuid) :
    ({ w with issues := w.issues.insertAll (issueRows ω.now ω.id issues) } : World).issueCount id =
      w.issueCount id + if own = some id then issues.length else 0 := by
  have hrows : (w.issues.insertAll (issueRows ω.now ω.id issues)).rows =
      w.issues.rows ++ issueRows ω.now ω.id issues :=
    Table.rows_insertAll haccepts.1 fun issue hissue => (haccepts.2 issue hissue).1
  have hown : ∀ row ∈ issueRows ω.now ω.id issues, own = some row.runId := by
    intro row hrow
    obtain ⟨⟨issue, n⟩, hissue, rfl⟩ := List.mem_map.1 hrow
    exact hids issue (List.fst_mem_of_mem_zipIdx hissue)
  have hlength : (issueRows ω.now ω.id issues).length = issues.length := by
    rw [issueRows, List.length_map, List.length_zipIdx]
  simp only [World.issueCount, hrows, List.countP_append]
  split_ifs with hid
  · have hall : ∀ row ∈ issueRows ω.now ω.id issues, decide (row.runId = id) = true := by
      intro row hrow
      have := (hown row hrow).symm.trans hid
      simpa using this
    rw [List.countP_eq_length.2 hall, hlength]
  · have hnone : ∀ row ∈ issueRows ω.now ω.id issues, ¬ decide (row.runId = id) = true := by
      intro row hrow
      have hne : row.runId ≠ id := fun e => hid (e ▸ hown row hrow)
      simpa using hne
    rw [List.countP_eq_zero.2 hnone]

/-- A call that leaves the two tables alone. -/
theorem idle (h : Truthful w ts) (hi : ts[i]? = some (t, q)) (hruns : w'.runs = w.runs)
    (hissues : w'.issues = w.issues) (hq : q'.Extends q) : Truthful w' (ts.set i (t, q')) := by
  have hcount : w'.issueCount = w.issueCount := by
    funext id
    rw [World.issueCount, hissues]
    rfl
  have hold : ∀ {j u : ℕ} {p : Stage}, (ts.set i (t, q'))[j]? = some (u, p) →
      ∃ p', ts[j]? = some (u, p') ∧ p.Extends p' := by
    intro j u p hj
    rcases getElem?_set_some hj with ⟨rfl, he⟩ | ⟨-, hj⟩
    · obtain ⟨rfl, rfl⟩ := Prod.mk.inj he
      exact ⟨q, hi, hq⟩
    · exact ⟨p, hj, rfl, le_rfl, fun hp => ⟨hp, rfl⟩⟩
  constructor
  · exact h.unique_set hi hq.runId
  · rw [hruns]
    exact h.known_set hi hq.runId
  · rw [hissues, hruns]
    exact h.references
  · intro j u p id r hj hclosed hp hr
    obtain ⟨p₁, hj, hp₁⟩ := hold hj
    obtain ⟨hclosed₁, hstored⟩ := hp₁.stored hclosed
    rw [hruns] at hr
    rw [hcount, hstored]
    exact h.pending j u p₁ id r hj hclosed₁ (hp₁.runId ▸ hp) hr
  · intro id r hr hs hc
    rw [hruns] at hr
    obtain ⟨htotal, hqueried⟩ := h.completed id r hr hs hc
    rw [hcount]
    exact ⟨htotal, queried_set hi (Or.inl hq.runId) hq.queried hqueried⟩

/-- The row of a new run is stored; the execution learns its id, or does not. -/
theorem saved {ω : Draw} {run : NewRun} (h : Truthful w ts) (hi : ts[i]? = some (t, .entry))
    (hnew : w.runs.find? (ω.id 0) = none) (hq : q' = .started (ω.id 0) 0 0 ∨ q' = .entry) :
    Truthful { w with runs := w.runs.insert (run.row ω.now (ω.id 0)) } (ts.set i (t, q')) := by
  have hfind : ∀ id, (w.runs.insert (run.row ω.now (ω.id 0))).find? id =
      if ω.id 0 = id then some (run.row ω.now (ω.id 0)) else w.runs.find? id := by
    intro id
    rw [Table.find?_insert]
    have hkey : Keyed.key (run.row ω.now (ω.id 0)) = ω.id 0 := rfl
    rw [hkey]
    split_ifs with hid
    · rw [← hid, hnew]
      rfl
    · rfl
  have hne : ∀ id, w.runs.find? id ≠ none → ω.id 0 ≠ id := by
    rintro id hid rfl
    exact hid hnew
  have hkeep : ∀ id, w.runs.find? id ≠ none →
      (w.runs.insert (run.row ω.now (ω.id 0))).find? id = w.runs.find? id := by
    intro id hid
    rw [hfind, if_neg (hne id hid)]
  -- the stage of any execution that has a run is as before, or it is the new one
  have hold : ∀ {j u : ℕ} {p : Stage} {id : Uuid}, (ts.set i (t, q'))[j]? = some (u, p) →
      p.runId = some id → j = i ∧ id = ω.id 0 ∧ p = .started (ω.id 0) 0 0 ∨
        ts[j]? = some (u, p) ∧ ω.id 0 ≠ id := by
    intro j u p id hj hp
    rcases getElem?_set_some hj with ⟨rfl, he⟩ | ⟨-, hj⟩
    · obtain ⟨rfl, rfl⟩ := Prod.mk.inj he
      rcases hq with rfl | rfl
      · obtain rfl := Option.some.inj hp
        exact Or.inl ⟨rfl, rfl, rfl⟩
      · exact absurd hp (by simp [Stage.entry])
    · exact Or.inr ⟨hj, hne id (h.known j u p id hj hp)⟩
  constructor
  · intro j k u v p p' id hj hk hp hp'
    rcases hold hj hp with ⟨rfl, rfl, -⟩ | ⟨hj, hid⟩
    · rcases hold hk hp' with ⟨rfl, -, -⟩ | ⟨-, hid'⟩
      · rfl
      · exact absurd rfl hid'
    · rcases hold hk hp' with ⟨-, hid', -⟩ | ⟨hk, -⟩
      · exact absurd hid'.symm hid
      · exact h.unique j k u v p p' id hj hk hp hp'
  · intro j u p id hj hp
    rcases hold hj hp with ⟨-, rfl, -⟩ | ⟨hj, -⟩
    · dsimp only
      rw [hfind, if_pos rfl]
      exact Option.some_ne_none _
    · dsimp only
      rw [hkeep id (h.known j u p id hj hp)]
      exact h.known j u p id hj hp
  · intro issue hissue
    dsimp only at hissue ⊢
    rw [hkeep _ (h.references issue hissue)]
    exact h.references issue hissue
  · intro j u p id r hj hclosed hp hr
    dsimp only at hr
    rcases hold hj hp with ⟨-, rfl, rfl⟩ | ⟨hj, hid⟩
    · rw [hfind, if_pos rfl] at hr
      obtain rfl := Option.some.inj hr
      refine ⟨rfl, ?_⟩
      -- no issue refers to a run that did not exist
      rw [World.issueCount, List.countP_eq_zero.2]
      · rfl
      · intro issue hissue
        have hid := hne _ (h.references issue hissue)
        simpa using Ne.symm hid
    · rw [hfind, if_neg hid] at hr
      exact h.pending j u p id r hj hclosed hp hr
  · intro id r hr hs hc
    dsimp only at hr
    rw [hfind] at hr
    split_ifs at hr with hid
    · obtain rfl := Option.some.inj hr
      exact absurd rfl hc
    · obtain ⟨htotal, hqueried⟩ := h.completed id r hr hs hc
      exact ⟨htotal, queried_set hi (Or.inr rfl) (Nat.zero_le _) hqueried⟩

/-- Issues are stored; the execution learns that, or does not. -/
theorem stored {ω : Draw} {issues : List NewIssue} (h : Truthful w ts)
    (hi : ts[i]? = some (t, q)) (hclosed : q.closed = false) (hzero : q.stored = 0)
    (hids : ∀ issue ∈ issues, q.runId = some issue.runId)
    (haccepts : w.Accepts (issueRows ω.now ω.id issues)) (hrun : q'.runId = q.runId)
    (hqueried : q.queried ≤ q'.queried) (hq : q'.closed = false → q'.stored = issues.length) :
    Truthful { w with issues := w.issues.insertAll (issueRows ω.now ω.id issues) }
      (ts.set i (t, q')) := by
  have hrows : (w.issues.insertAll (issueRows ω.now ω.id issues)).rows =
      w.issues.rows ++ issueRows ω.now ω.id issues :=
    Table.rows_insertAll haccepts.1 fun issue hissue => (haccepts.2 issue hissue).1
  have hcount := issueCount_store haccepts hids
  have hold : ∀ {j u : ℕ} {p : Stage} {id : Uuid}, (ts.set i (t, q'))[j]? = some (u, p) →
      p.runId = some id → j = i ∧ p = q' ∧ q.runId = some id ∨ j ≠ i ∧ ts[j]? = some (u, p) := by
    intro j u p id hj hp
    rcases getElem?_set_some hj with ⟨rfl, he⟩ | ⟨hji, hj⟩
    · obtain ⟨-, rfl⟩ := Prod.mk.inj he
      exact Or.inl ⟨rfl, rfl, hrun ▸ hp⟩
    · exact Or.inr ⟨hji, hj⟩
  constructor
  · exact h.unique_set hi hrun
  · exact h.known_set hi hrun
  · intro issue hissue
    dsimp only at hissue
    rw [hrows] at hissue
    rcases List.mem_append.1 hissue with hissue | hissue
    · exact h.references issue hissue
    · exact Option.isSome_iff_ne_none.1 (haccepts.2 issue hissue).2
  · intro j u p id r hj hp hid hr
    rcases hold hj hid with ⟨rfl, rfl, hid⟩ | ⟨hji, hj⟩
    · obtain ⟨hnone, hcount₀⟩ := h.pending _ t q id r hi hclosed hid hr
      refine ⟨hnone, ?_⟩
      rw [hcount, if_pos hid, hcount₀, hzero, hq hp]
      omega
    · obtain ⟨hnone, hcount₀⟩ := h.pending j u p id r hj hp hid hr
      refine ⟨hnone, ?_⟩
      have hother : q.runId ≠ some id :=
        fun e => hji (h.unique _ _ _ _ _ _ id hj hi hid e)
      rw [hcount, if_neg hother, hcount₀]
      omega
  · intro id r hr hs hc
    obtain ⟨htotal, hby⟩ := h.completed id r hr hs hc
    refine ⟨?_, queried_set hi (Or.inl hrun) hqueried hby⟩
    have hother : q.runId ≠ some id :=
      fun e => hc (h.pending _ t q id r hi hclosed e hr).1
    rw [hcount, if_neg hother, htotal]
    omega

/-- A run is updated by its execution. -/
theorem updated {id : Uuid} {p : RunPatch} (h : Truthful w ts) (hi : ts[i]? = some (t, q))
    (hid : q.runId = some id) (hp : p.status = .failed ∨
      q.closed = false ∧ 2 ≤ q.queried ∧ p.totalIssues = some q.stored)
    (hrun : q'.runId = q.runId) (hqueried : q.queried ≤ q'.queried) (hclosed : q'.closed = true) :
    Truthful { w with runs := w.updateRun id p } (ts.set i (t, q')) := by
  have hsome : ∀ id', w.runs.find? id' ≠ none → (w.updateRun id p).find? id' ≠ none := by
    intro id' hne
    rw [find?_updateRun]
    split_ifs
    · simpa using hne
    · exact hne
  have hold : ∀ {j u : ℕ} {p : Stage}, (ts.set i (t, q'))[j]? = some (u, p) →
      j = i ∧ p = q' ∨ j ≠ i ∧ ts[j]? = some (u, p) := by
    intro j u p hj
    rcases getElem?_set_some hj with ⟨rfl, he⟩ | ⟨hji, hj⟩
    · exact Or.inl ⟨rfl, (Prod.mk.inj he).2⟩
    · exact Or.inr ⟨hji, hj⟩
  constructor
  · exact h.unique_set hi hrun
  · intro j u p' id' hj hp'
    exact hsome id' (h.known_set hi hrun j u p' id' hj hp')
  · intro issue hissue
    exact hsome _ (h.references issue hissue)
  · intro j u p' id' r hj hopen hp' hr
    rcases hold hj with ⟨rfl, rfl⟩ | ⟨hji, hj⟩
    · exact absurd (hclosed.symm.trans hopen) (by simp)
    · have hne : id ≠ id' := by
        rintro rfl
        exact hji (h.unique _ _ _ _ _ _ id hj hi hp' hid)
      dsimp only at hr
      rw [find?_updateRun, if_neg hne] at hr
      exact h.pending j u p' id' r hj hopen hp' hr
  · intro id' r hr hs hc
    dsimp only at hr
    rw [find?_updateRun] at hr
    split_ifs at hr with he
    · subst he
      obtain ⟨r₀, hr₀, rfl⟩ := Option.map_eq_some_iff.1 hr
      rcases hp with hfailed | ⟨hopen, htwo, htotal⟩
      · exact absurd (hfailed.symm.trans hs) (by simp)
      · obtain ⟨-, hcount⟩ := h.pending _ t q id r₀ hi hopen hid hr₀
        refine ⟨?_, ?_⟩
        · show p.totalIssues.getD r₀.totalIssues = w.issueCount id
          rw [htotal, hcount]
          rfl
        · have hlt : i < ts.length := (List.getElem?_eq_some_iff.1 hi).1
          exact ⟨(t, q'), List.mem_set hlt _, hrun.trans hid, htwo.trans hqueried⟩
    · obtain ⟨htotal, hby⟩ := h.completed id' r hr hs hc
      exact ⟨htotal, queried_set hi (Or.inl hrun) hqueried hby⟩

/-- **One call of an execution.** -/
theorem call {ω : Draw} {c : Command} (h : Truthful w ts) (hi : ts[i]? = some (t, q))
    (hc : q.Allows c) :
    Truthful (exec ω c w).2 (ts.set i (t, q.next c (exec ω c w).1)) := by
  have heffect := effect_exec ω c w
  generalize (exec ω c w).1 = r at heffect ⊢
  generalize (exec ω c w).2 = w' at heffect ⊢
  cases heffect with
  | @same _ r _ hruns hissues hr =>
      refine h.idle hi hruns hissues ?_
      cases r with
      | ok a =>
          cases c with
          | saveRun run => exact absurd rfl (hr rfl a)
          | saveIssues issues => exact absurd rfl (hr rfl a)
          | updateRun id p => exact absurd rfl (hr rfl a)
          | queryAccounts => exact ⟨rfl, Nat.le_succ _, fun hopen => ⟨hopen, rfl⟩⟩
          | queryTransactions => exact ⟨rfl, Nat.le_succ _, fun hopen => ⟨hopen, rfl⟩⟩
          | _ => exact ⟨rfl, le_rfl, fun hopen => ⟨hopen, rfl⟩⟩
      | error e =>
          cases c with
          | saveIssues issues =>
              exact ⟨rfl, le_rfl, fun hopen => absurd hopen (by simp [Stage.next])⟩
          | updateRun id p => exact ⟨rfl, le_rfl, fun hopen => absurd hopen (by simp [Stage.next])⟩
          | _ => exact ⟨rfl, le_rfl, fun hopen => ⟨hopen, rfl⟩⟩
  | @saved run r hstores hr =>
      obtain ⟨rfl, -⟩ := hc
      refine h.saved hi hstores.1 ?_
      cases r with
      | ok run' =>
          obtain rfl := hr run' rfl
          exact Or.inl rfl
      | error e => exact Or.inr rfl
  | @stored issues r haccepts =>
      obtain ⟨hclosed, hzero, hids⟩ := hc
      cases r with
      | ok rows => exact h.stored hi hclosed hzero hids haccepts rfl le_rfl fun _ => rfl
      | error e =>
          exact h.stored hi hclosed hzero hids haccepts rfl le_rfl fun hopen =>
            absurd hopen (by simp [Stage.next])
  | updated id p => exact h.updated hi hc.1 hc.2 rfl le_rfl rfl

end Truthful

/-! ### Every run -/

section Runs

variable {ar : Arith}

/-- Every execution keeps to its protocol, and the tables are what the stages say. -/
def Machine.Kept (ar : Arith) (M : Machine) : Prop :=
  M.pool.Tracked (system ar) (fun _ _ _ => True) ∧ Truthful M.pool.world M.pool.stages

theorem kept_step {P : Pool ℕ Command Command.Res Exception RunResult World Stage}
    (hP : P.Tracked (system ar) fun _ _ _ => True) (hJ : Truthful P.world P.stages)
    (l : Label ℕ Draw) : (P.step (system ar) l).Tracked (system ar) (fun _ _ _ => True) ∧
      Truthful (P.step (system ar) l).world (P.step (system ar) l).stages := by
  have hone : Pool.Along (system ar) (fun _ _ => True) P [l] := ⟨trivial, trivial⟩
  refine Pool.invariant (S := system ar) (follows_runReconciliation ar) ?_ ?_ hone hP hJ
  · intro P t s hJ _ hs
    obtain rfl := Option.some.inj hs
    exact hJ.spawn t
  · intro P i t q c ω hJ _ hi _ hc
    exact hJ.call hi hc

theorem Machine.Kept.advance {M : Machine} (h : M.Kept ar) (e : Event) :
    (M.advance ar e).Kept ar := by
  cases e with
  | spawn service => exact kept_step h.1 h.2 _
  | step i ω =>
      simp only [Machine.advance]
      split_ifs
      · exact h
      · exact kept_step h.1 h.2 _
  | stop i => exact h

theorem kept_reach (ar : Arith) (events : List Event) : (reach ar events).Kept ar := by
  suffices h : ∀ M : Machine, M.Kept ar → (events.foldl (Machine.advance ar) M).Kept ar from
    h _ ⟨Pool.tracked_start _ _, Truthful.start⟩
  induction events with
  | nil => exact fun M hM => hM
  | cons e events ih => exact fun M hM => ih _ (hM.advance e)

theorem reach_take_succ {events : List Event} {n : ℕ} {e : Event} (h : events[n]? = some e) :
    reach ar (events.take (n + 1)) = (reach ar (events.take n)).advance ar e := by
  rw [List.take_add_one, h, Option.toList_some, reach, List.foldl_append]
  rfl

/-- What a step of an execution that has not stopped does. -/
theorem advance_step {M : Machine} {i t : ℕ} {ω : Draw} {q : Stage} {c : Command}
    {k : Except Exception c.Res → Service RunResult} (hstopped : i ∉ M.stopped)
    (hth : M.pool.threads[i]? = some ⟨t, q, .call c k⟩) :
    (M.advance ar (.step i ω)).pool = ⟨(exec ω c M.pool.world).2, M.pool.threads.set i
      ⟨t, q.next c (exec ω c M.pool.world).1, k (exec ω c M.pool.world).1⟩⟩ := by
  simp only [Machine.advance, if_neg hstopped, Pool.step, hth]
  rfl

/-- **A run that is stored makes a claim its execution cannot meet yet.** -/
theorem not_honest_of_records {M : Machine} (h : M.Kept ar) {e : Event} (he : e.Records M) :
    ¬ (M.advance ar e).Honest := by
  obtain ⟨i, ω, th, run, rfl, hstopped, hth, hhead, hstores⟩ := he
  obtain ⟨t, q, rest⟩ := th
  cases rest with
  | ret a => exact absurd hhead (by simp [Thread.head])
  | raise e => exact absurd hhead (by simp [Thread.head])
  | call c k =>
      obtain rfl : c = .saveRun run := Option.some.inj hhead
      obtain ⟨rfl, hstatus⟩ := (h.1 _ (List.mem_of_getElem? hth)).1
      have hpool := @advance_step ar M i t ω _ _ _ hstopped hth
      obtain ⟨hruns, hresult⟩ := @exec_saveRun ω M.pool.world run hstores
      intro hhonest
      have hmem : run.row ω.now (ω.id 0) ∈ (M.advance ar (.step i ω)).pool.world.runs.rows := by
        rw [hpool, hruns]
        exact (Table.mem_insert hstores.1).2 (Or.inr rfl)
      obtain ⟨x, hx, hid, htwo⟩ := hhonest.completed _ hmem hstatus
      rw [hpool, Pool.stages, List.map_set] at hx
      rcases List.mem_or_eq_of_mem_set hx with hx | rfl
      · -- another execution has a run that was there before
        obtain ⟨j, hj⟩ := List.mem_iff_getElem?.1 hx
        exact h.2.known j x.1 x.2 _ hj hid hstores.1
      · -- this one has not begun its queries
        cases hr : (exec ω (.saveRun run) M.pool.world).1 with
        | ok run' =>
            rw [hr] at htwo
            exact absurd htwo (by simp [Stage.next, Stage.entry])
        | error e =>
            rw [hr] at hid
            exact absurd hid (by simp [Stage.next, Stage.entry])

/-- Where no run is stored, there is none. -/
theorem runs_advance {M : Machine} (hM : M.pool.world.runs.rows = []) {e : Event}
    (he : ¬ e.Records M) : (M.advance ar e).pool.world.runs.rows = [] := by
  cases e with
  | spawn service => exact hM
  | stop i => exact hM
  | step i ω =>
      by_cases hstopped : i ∈ M.stopped
      · simpa only [Machine.advance, if_pos hstopped] using hM
      · cases hth : M.pool.threads[i]? with
        | none => simpa only [Machine.advance, if_neg hstopped, Pool.step, hth] using hM
        | some th =>
            obtain ⟨t, q, rest⟩ := th
            cases rest with
            | ret a => simpa only [Machine.advance, if_neg hstopped, Pool.step, hth] using hM
            | raise e => simpa only [Machine.advance, if_neg hstopped, Pool.step, hth] using hM
            | call c k =>
                rw [advance_step hstopped hth]
                dsimp only
                have heffect := effect_exec ω c M.pool.world
                generalize (exec ω c M.pool.world).1 = r at heffect
                generalize (exec ω c M.pool.world).2 = w' at heffect ⊢
                cases heffect with
                | same _ hruns => rw [hruns, hM]
                | saved run hstores =>
                    exact absurd ⟨i, ω, _, run, rfl, hstopped, hth, rfl, hstores⟩ he
                | stored => exact hM
                | updated id p =>
                    have hnone : M.pool.world.runs.find? id = none := by
                      rw [Table.find?, hM]
                      rfl
                    simp only [World.updateRun, hnone, hM]

/-- **A run's record makes a claim its execution has not earned from the moment it is
stored**: the records of any executions are honest throughout if and only if no
execution has stored one.  Once a record has a `completed_at`, what it says when it
says COMPLETED is true. -/
theorem honest_iff (ar : Arith) (events : List Event) :
    ((∀ n, (reach ar (events.take n)).Honest) ↔
      ∀ (n : ℕ) (e : Event), events[n]? = some e → ¬ e.Records (reach ar (events.take n))) ∧
    ∀ r ∈ (reach ar events).pool.world.runs.rows, r.status = .completed → r.completedAt ≠ none →
      Queried (reach ar events).pool.stages r.id ∧
        r.totalIssues = (reach ar events).pool.world.issueCount r.id := by
  refine ⟨⟨fun h n e he hrecords => ?_, fun h n => ?_⟩, fun r hr hs hc => ?_⟩
  · have hhonest := h (n + 1)
    rw [reach_take_succ he] at hhonest
    exact not_honest_of_records (kept_reach ar _) hrecords hhonest
  · have hempty : (reach ar (events.take n)).pool.world.runs.rows = [] := by
      induction n with
      | zero => rfl
      | succ n ih =>
          cases he : events[n]? with
          | none =>
              have htake : events.take (n + 1) = events.take n := by
                rw [List.take_add_one, he]
                exact List.append_nil _
              rw [htake]
              exact ih
          | some e =>
              rw [reach_take_succ he]
              exact runs_advance ih (h n e he)
    constructor
    · intro r hr
      rw [hempty] at hr
      exact absurd hr List.not_mem_nil
    · intro r hr
      rw [hempty] at hr
      exact absurd hr List.not_mem_nil
  · obtain ⟨htotal, hqueried⟩ :=
      (kept_reach ar events).2.completed r.id r (Table.find?_key hr) hs hc
    exact ⟨hqueried, htotal⟩

end Runs

/-- An account with money and no entries. -/
def mislaid : Db :=
  { Db.empty with accounts := Table.empty.insert {
      id := numbered 0, currency := js "INR", balance := 5, status := .active
      createdAt := 0, updatedAt := 0 } }

/-- An execution that makes its first `n` calls without trouble. -/
def calls (n : ℕ) : List Event := .spawn 0 :: List.replicate n (.step 0 (drawsOn mislaid))

/-- It stops when its run is saved. -/
def stoppedRun : List Event := calls 3 ++ [.stop 0]

/-- Its last update is refused, and it records that it failed. -/
def uncountedRun : List Event :=
  calls 8 ++ .step 0 { drawsOn mislaid with fault := some (.refused (.error (js "closed"))) } ::
    List.replicate 3 (.step 0 (drawsOn mislaid))

/-- **The record of an execution that has stopped says COMPLETED, though no query has
run, and one that has failed says it found nothing, though its issue is stored.** -/
theorem stoppedRun_dishonest :
    ¬ (reach (.exact fun _ => true) stoppedRun).Honest ∧
      ¬ (reach (.exact fun _ => true) uncountedRun).Honest := by
  constructor
  · intro h
    have hclaim : ∃ r ∈ (reach (.exact fun _ => true) stoppedRun).pool.world.runs.rows,
        r.status = .completed ∧
          ¬ Queried (reach (.exact fun _ => true) stoppedRun).pool.stages r.id := by decide
    obtain ⟨r, hr, hs, hqueried⟩ := hclaim
    exact hqueried (h.completed r hr hs)
  · intro h
    have hclaim : ∃ r ∈ (reach (.exact fun _ => true) uncountedRun).pool.world.runs.rows,
        r.totalIssues ≠
          (reach (.exact fun _ => true) uncountedRun).pool.world.issueCount r.id := by decide
    obtain ⟨r, hr, hne⟩ := hclaim
    have hrest : (reach (.exact fun _ => true) uncountedRun).pool.AtRest := by decide
    exact hne (h.counted r hr fun i th hi _ => Or.inl (hrest th (List.mem_of_getElem? hi)))

/-- An execution that is about to make its third call has claimed nothing; with that call
it stores its run, and so it has.  The run is in order in the end. -/
theorem honest_iff_calls :
    (∀ n, (reach (.exact fun _ => true) ((calls 2).take n)).Honest) ∧
      (¬ ∀ n, (reach (.exact fun _ => true) ((calls 10).take n)).Honest) ∧
      ∃ r ∈ (reach (.exact fun _ => true) (calls 10)).pool.world.runs.rows,
        Queried (reach (.exact fun _ => true) (calls 10)).pool.stages r.id ∧
          r.totalIssues = (reach (.exact fun _ => true) (calls 10)).pool.world.issueCount r.id := by
  refine ⟨(honest_iff _ _).1.2 fun n e he => ?_, fun h => ?_, ?_⟩
  · rintro ⟨i, ω, th, run, rfl, -, hth, hhead, -⟩
    have hcall := (congrArg (·.bind Thread.head) hth).trans hhead
    rcases n with _ | _ | _ | n
    · exact absurd he (by simp [calls])
    · cases he
      exact absurd (a := some (Command.enter 0) = some (.saveRun run)) hcall (by simp)
    · cases he
      exact absurd (a := some Command.newDate = some (.saveRun run)) hcall (by simp)
    · exact absurd he (by simp [calls])
  · have hthird : Event.Records (reach (.exact fun _ => true) ((calls 10).take 3))
        (.step 0 (drawsOn mislaid)) :=
      ⟨0, _, _, _, rfl, by decide, rfl, rfl, rfl, by simp [drawsOn]⟩
    exact (honest_iff _ _).1.1 h 3 _ rfl hthird
  · have hclaim : ∃ r ∈ (reach (.exact fun _ => true) (calls 10)).pool.world.runs.rows,
        r.status = .completed ∧ r.completedAt ≠ none := by decide
    obtain ⟨r, hr, hs, hc⟩ := hclaim
    exact ⟨r, hr, (honest_iff (.exact fun _ => true) (calls 10)).2 r hr hs hc⟩

end Reconciliation
end LedgerEngine
