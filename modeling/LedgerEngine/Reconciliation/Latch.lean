/-
# The latch of the reconciliation job

`runReconciliation` raises `running` before it saves the row of its run and
lowers it in the `finally` of the `try` block that comes after.  Executions run
side by side here and every call to the database may fail (`latch`); a thread's
stage says whether it is past the latch (`Hold`).

`Latched` is the invariant: an instance is `running` if and only if exactly one
of its executions holds the latch, and one whose first `save` was refused holds
it for good.  So at most one execution is past the latch at any time, and once
all have settled the latch is open if and only if no first `save` was refused
(`latch_released_iff`).
-/

import LedgerEngine.Async.Pool
import LedgerEngine.Reconciliation.Service

namespace LedgerEngine
namespace Reconciliation

open Ledger (Arith)

/-! ### Where an execution is with the latch -/

/-- Where an execution is. -/
inductive Hold : Type
  /-- about to test the latch -/
  | outside
  /-- past the latch, before its run is saved -/
  | starting
  /-- past the latch, in the `try` block or its handlers -/
  | inside
  /-- its first `save` was refused -/
  | refused
  | left
  | skipped
  deriving DecidableEq

/-- The calls that neither test nor set the latch nor save the run. -/
def Command.quiet : Command → Bool
  | .enter _ | .leave _ | .saveRun _ => false
  | _ => true

namespace Hold

def next : Hold → (c : Command) → Except Exception c.Res → Hold
  | .outside, .enter _, .ok entered => if entered then .starting else .skipped
  | .starting, .saveRun _, .ok _ => .inside
  | .starting, _, .error _ => .refused
  | .inside, .leave _, _ => .left
  | q, _, _ => q

/-- What an execution on an instance asks for. -/
def Allows (service : ℕ) (q : Hold) : Command → Prop
  | .enter s => q = .outside ∧ s = service
  | .leave s => q = .inside ∧ s = service
  | .saveRun _ => q = .starting
  | .newDate => q = .starting ∨ q = .inside
  | _ => q = .inside

/-- The execution has passed the latch and has not settled. -/
def Past (q : Hold) : Bool := q = .starting || q = .inside

/-- The execution has raised `running` and has not lowered it. -/
def Raised (q : Hold) : Bool := q.Past || q = .refused

/-- The execution has settled. -/
def Ended (q : Hold) : Prop := q.Past = false

def protocol (service : ℕ) : Protocol Command Command.Res Exception Hold :=
  ⟨next, Allows service⟩

theorem allows_inside {service : ℕ} {c : Command} (hc : c.quiet = true) :
    Allows service .inside c := by
  cases c <;> first | exact rfl | exact Or.inr rfl | exact absurd hc (by simp [Command.quiet])

theorem next_inside {c : Command} (hc : c.quiet = true) (r : Except Exception c.Res) :
    next .inside c r = .inside := by
  cases c <;> first | rfl | exact absurd hc (by simp [Command.quiet])

end Hold

section Follows

variable {ar : Arith} {service : ℕ} {α : Type}

/-- A program that runs inside and stays there. -/
abbrev Inside (service : ℕ) (p : Service α) : Prop :=
  p.Follows (Hold.protocol service) (fun _ q => q = .inside) .inside

theorem Inside.bind {β : Type} {p : Service α} {f : α → Service β} (hp : Inside service p)
    (hf : ∀ a, Inside service (f a)) : Inside service (p.bind f) := by
  refine Prog.Follows.bind hp (fun a q hq => ?_) fun e q hq => hq
  subst hq
  exact hf a

theorem inside_await {α : Type} {c : Command} {f : c.Res → Service α} (hc : c.quiet = true)
    (hf : ∀ a, Inside service (f a)) : Inside service (Prog.bind (.await c) f) := by
  refine Prog.Follows.await_bind (Hold.allows_inside hc) (fun a => ?_) fun e => ?_
  · rw [show (Hold.protocol service).next .inside c (.ok a) = .inside from Hold.next_inside hc _]
    exact hf a
  · exact Hold.next_inside hc _

theorem inside_findBoth : Inside service (findBoth ar) := by
  have haccounts : Inside service (findAccountBalanceMismatches ar) :=
    inside_await rfl fun _ => rfl
  have htransactions : Inside service (findUnbalancedTransactions ar) :=
    inside_await rfl fun _ => rfl
  refine inside_await rfl fun first => ?_
  cases first with
  | true => exact haccounts.bind fun _ => htransactions.bind fun _ => rfl
  | false => exact htransactions.bind fun _ => haccounts.bind fun _ => rfl

theorem inside_saveFound (issues : List NewIssue) : Inside service (saveFound issues) := by
  unfold saveFound
  split_ifs with hlength
  · exact inside_await rfl fun _ => rfl
  · rfl

theorem inside_reconcile (run : ReconciliationRunEntity) : Inside service (reconcile ar run) :=
  inside_findBoth.bind fun found => (inside_saveFound (issuesFor run.id found)).bind fun _ =>
    inside_await rfl fun _ => inside_await rfl fun _ => rfl

theorem inside_recordFailure (run : ReconciliationRunEntity) (e : Exception) :
    Inside service (recordFailure run e) :=
  inside_await rfl fun _ => inside_await rfl fun _ => rfl

/-- The first `save` leads inside, or is refused. -/
theorem starting_startRun : startRun.Follows (Hold.protocol service)
    (fun r q => match r with | .ok _ => q = .inside | .error _ => q = .refused) .starting := by
  refine Prog.Follows.await_bind (Or.inl rfl) (fun now => ?_) fun e => rfl
  refine Prog.Follows.await rfl fun r => ?_
  cases r <;> rfl

/-- **An execution passes the latch, and lowers it at the end unless its first
`save` was refused.** -/
theorem follows_latch (ar : Arith) (service : ℕ) :
    (runReconciliation ar service).Follows (Hold.protocol service) (fun _ q => q.Ended)
      .outside := by
  refine Prog.Follows.await_bind ⟨rfl, rfl⟩ (fun entered => ?_) fun e => rfl
  cases entered with
  | false => rfl
  | true =>
      refine starting_startRun.bind (fun run q hq => ?_) fun e q hq => ?_
      · obtain rfl : q = .inside := hq
        refine Prog.Follows.andThen (fun _ q => q = .inside) ?_ fun r q hq => ?_
        · refine (inside_reconcile run).tryCatch _ (fun _ _ hq => hq) fun e q hq => ?_
          subst hq
          exact inside_recordFailure run e
        · subst hq
          refine Prog.Follows.await_bind ⟨rfl, rfl⟩ (fun _ => ?_) fun e => rfl
          cases r with
          | ok r => rfl
          | error e => rfl
      · obtain rfl : q = .refused := hq
        rfl

end Follows

/-! ### Executions side by side -/

/-- Executions of `runReconciliation`, each on the service instance it names. -/
def latch (ar : Arith) : System ℕ Command Command.Res Exception RunResult World Draw Hold where
  exec := exec
  body := runReconciliation ar
  spawn _ w := some w
  entry _ := .outside
  protocol := Hold.protocol

abbrev Executions := Pool ℕ Command Command.Res Exception RunResult World Hold

/-- No instance is running; the tables hold what earlier runs have left. -/
def opened (runs : Table ReconciliationRunEntity) (issues : Table ReconciliationIssueEntity) :
    Executions := Pool.start ⟨[], runs, issues⟩

/-- How many executions of an instance are at a place that satisfies `p`. -/
def countAt (service : ℕ) (p : Hold → Bool) (ts : List (ℕ × Hold)) : ℕ :=
  ts.countP fun x => x.1 = service && p x.2

/-- The step is a first `save` of the instance, and it is rejected. -/
def RefusesFirst (service : ℕ) (P : Executions) : Label ℕ Draw → Prop
  | .spawn _ => False
  | .step i ω => ∃ th ∈ P.threads[i]?, th.tag = service ∧ ∃ run, th.head = some (.saveRun run) ∧
      ∃ e, (exec ω (.saveRun run) P.world).1 = .error e

/-- **The invariant**: `running` is raised if and only if exactly one execution has
raised it and not lowered it. -/
def Latched (w : World) (ts : List (ℕ × Hold)) : Prop :=
  ∀ service, countAt service Hold.Raised ts = if service ∈ w.running then 1 else 0

section Invariant

variable {w : World} {ts : List (ℕ × Hold)} {i service t : ℕ} {q q' : Hold} {p : Hold → Bool}

theorem countAt_append : countAt service p (ts ++ [(t, q)]) =
    countAt service p ts + if t = service ∧ p q then 1 else 0 := by
  unfold countAt
  rw [List.countP_append, List.countP_singleton]
  simp

variable (service p q') in
/-- One execution moves from `q` to `q'`. -/
theorem countAt_set (hi : ts[i]? = some (t, q)) :
    countAt service p (ts.set i (t, q')) + (if t = service ∧ p q then 1 else 0) =
      countAt service p ts + if t = service ∧ p q' then 1 else 0 := by
  obtain ⟨hlt, hget⟩ := List.getElem?_eq_some_iff.1 hi
  have hle := List.boole_getElem_le_countP (p := fun x : ℕ × Hold => x.1 = service && p x.2) hlt
  unfold countAt
  rw [List.countP_set hlt, hget] at *
  simp only [Bool.and_eq_true, decide_eq_true_eq] at *
  omega

/-- One of them is at a place in `p`, which the move does not leave. -/
theorem countAt_pos_set (hi : ts[i]? = some (t, q)) (hkeep : p q = true → p q' = true) :
    0 < countAt service p (ts.set i (t, q')) ↔
      0 < countAt service p ts ∨ (t = service ∧ p q' = true) := by
  have hset := countAt_set service q' p hi
  by_cases hq : t = service ∧ p q
  · have hpos : 0 < countAt service p ts :=
      List.countP_pos_iff.2 ⟨_, List.mem_of_getElem? hi, by simp [hq]⟩
    rw [if_pos hq, if_pos ⟨hq.1, hkeep hq.2⟩] at hset
    omega
  · rw [if_neg hq] at hset
    split_ifs at hset with hq'
    · exact iff_of_true (by omega) (Or.inr hq')
    · rw [or_iff_left hq']
      omega

/-- Neither the test nor the release of the latch. -/
def Command.Aside (c : Command) : Prop := (∀ s, c ≠ .enter s) ∧ ∀ s, c ≠ .leave s

/-- A call that does not concern the latch leaves it alone. -/
theorem exec_running {ω : Draw} {c : Command} (hc : c.Aside) :
    (exec ω c w).2.running = w.running := by
  have hanswer : (answer ω c w).2.running = w.running := by
    cases c with
    | enter s => exact absurd rfl (hc.1 s)
    | leave s => exact absurd rfl (hc.2 s)
    | saveRun run => simp only [answer]; split_ifs <;> rfl
    | saveIssues issues => simp only [answer]; split_ifs <;> rfl
    | updateRun id p => simp only [answer]; split_ifs <;> rfl
    | _ => rfl
  unfold exec
  split_ifs with hstores
  · rcases Prog.Handler.meet_state (answer ω) ω.fault c w with hsame | hnew
    · rw [hsame]
    · rw [hnew, hanswer]
  · exact hanswer

/-- Neither does it change who has raised it. -/
theorem raised_next {c : Command} (hc : c.Aside) (r : Except Exception c.Res) :
    (q.next c r).Raised = q.Raised := by
  cases q <;> cases c <;> cases r <;>
    first | rfl | exact absurd rfl (hc.1 _) | exact absurd rfl (hc.2 _)

theorem Latched.spawn (h : Latched w ts) (t : ℕ) : Latched w (ts ++ [(t, .outside)]) := by
  intro service
  rw [countAt_append, h service]
  simp [Hold.Raised, Hold.Past]

/-- The test of the latch: an execution that finds it open raises it. -/
theorem Latched.enter (h : Latched w ts) (hi : ts[i]? = some (t, .outside)) :
    Latched { w with running := w.running.insert t }
      (ts.set i (t, if t ∉ w.running then .starting else .skipped)) := by
  intro service
  have hset := countAt_set service
    (if t ∉ w.running then .starting else .skipped) Hold.Raised hi
  rw [h service] at hset
  by_cases ht : t ∈ w.running
  · rw [List.insert_of_mem ht]
    simpa [ht, Hold.Raised, Hold.Past] using hset
  · by_cases hts : t = service
    · subst hts
      simpa [ht, Hold.Raised, Hold.Past] using hset
    · simpa [ht, hts, Hold.Raised, Hold.Past, List.mem_insert_iff, Ne.symm hts] using hset

/-- Its release. -/
theorem Latched.leave (h : Latched w ts) (hi : ts[i]? = some (t, .inside)) :
    Latched { w with running := w.running.filter fun s => s ≠ t } (ts.set i (t, .left)) := by
  intro service
  have hset := countAt_set service .left Hold.Raised hi
  rw [h service] at hset
  by_cases hts : t = service
  · subst hts
    simp only [Hold.Raised, Hold.Past] at hset
    by_cases ht : t ∈ w.running <;> simp [ht] at hset ⊢
    omega
  · simpa [hts, Ne.symm hts, Hold.Raised, Hold.Past] using hset

/-- **What every call of an execution keeps.** -/
theorem Latched.call (h : Latched w ts) {c : Command} {ω : Draw} (hi : ts[i]? = some (t, q))
    (hc : q.Allows t c) :
    Latched (exec ω c w).2 (ts.set i (t, q.next c (exec ω c w).1)) := by
  by_cases haside : c.Aside
  · intro service
    have hset := countAt_set service
      (q.next c (exec ω c w).1) Hold.Raised hi
    rw [raised_next haside, h service] at hset
    rw [exec_running haside]
    omega
  · cases c with
    | enter s =>
        obtain ⟨rfl, rfl⟩ := hc
        have hnext : Hold.outside.next (.enter s) (exec ω (.enter s) w).1 =
            if s ∉ w.running then .starting else .skipped := by
          by_cases hs : s ∈ w.running <;> simp [exec, Command.stores, answer, Hold.next, hs]
        rw [hnext]
        exact h.enter hi
    | leave s =>
        obtain ⟨rfl, rfl⟩ := hc
        exact h.leave hi
    | _ => exact absurd ⟨fun s h => Command.noConfusion h, fun s h => Command.noConfusion h⟩ haside

end Invariant

/-! ### Runs -/

section Runs

variable {ar : Arith} {P : Executions} {service : ℕ}

/-- Every execution is where its stage says, and the latch with it. -/
def Kept (ar : Arith) (P : Executions) : Prop :=
  P.Tracked (latch ar) (fun _ _ q => q.Ended) ∧ Latched P.world P.stages

variable (ar) in
theorem kept_opened (runs : Table ReconciliationRunEntity)
    (issues : Table ReconciliationIssueEntity) : Kept ar (opened runs issues) :=
  ⟨Pool.tracked_start _ _, fun _ => rfl⟩

theorem Kept.run (h : Kept ar P) (labels : List (Label ℕ Draw)) :
    Kept ar (P.run (latch ar) labels) := by
  have halong : Pool.Along (latch ar) (fun _ _ => True) P labels :=
    Pool.along_of_forall (fun _ _ => trivial) P labels
  refine Pool.invariant (S := latch ar) (follows_latch ar) ?_ ?_ halong h.1 h.2
  · rintro P t w hlatched - hw
    obtain rfl := Option.some.inj hw
    exact hlatched.spawn t
  · rintro P i t q c ω hlatched - hi - hc
    exact hlatched.call hi hc

/-- An execution of the instance has had its first `save` refused. -/
def Stuck (service : ℕ) (P : Executions) : Prop :=
  0 < countAt service (fun q => q = .refused) P.stages

/-- Where a call leads to `refused`: it was the first `save`, and it was rejected. -/
theorem next_refused {w : World} {ω : Draw} {t : ℕ} {q : Hold} {c : Command} (hc : q.Allows t c) :
    q.next c (exec ω c w).1 = .refused ↔
      q = .refused ∨ ∃ run, c = .saveRun run ∧ ∃ e, (exec ω (.saveRun run) w).1 = .error e := by
  cases c with
  | saveRun run =>
      obtain rfl : q = .starting := hc
      cases hr : (exec ω (.saveRun run) w).1 with
      | ok r => simp [Hold.next, hr]
      | error e => simp [Hold.next, hr]
  | newDate => rcases hc with rfl | rfl <;> simp [Hold.next, exec, Command.stores, answer]
  | enter s =>
      obtain ⟨rfl, rfl⟩ := hc
      by_cases hs : s ∈ w.running <;> simp [exec, Command.stores, answer, Hold.next, hs]
  | leave s =>
      obtain ⟨rfl, rfl⟩ := hc
      simp [Hold.next]
  | _ =>
      obtain rfl : q = .inside := hc
      simp [Hold.next]

/-- **An execution gets stuck by a refused first `save` and in no other way.** -/
theorem stuck_step (h : Kept ar P) (l : Label ℕ Draw) :
    Stuck service (P.step (latch ar) l) ↔ Stuck service P ∨ RefusesFirst service P l := by
  cases l with
  | spawn t =>
      have hstages : (P.step (latch ar) (.spawn t)).stages = P.stages ++ [(t, .outside)] :=
        List.map_append
      unfold Stuck
      rw [hstages, countAt_append]
      simp [RefusesFirst]
  | step i ω =>
      cases hi : P.threads[i]? with
      | none => simp [Pool.step, RefusesFirst, hi]
      | some th =>
          obtain ⟨t, q, rest⟩ := th
          cases rest with
          | ret a => simp [Pool.step, RefusesFirst, hi, Thread.head]
          | raise e => simp [Pool.step, RefusesFirst, hi, Thread.head]
          | call c k =>
              have hallows : q.Allows t c := (h.1 _ (List.mem_of_getElem? hi)).1
              have hstage : P.stages[i]? = some (t, q) := by simp [Pool.stages, hi]
              have hnext := next_refused (w := P.world) (ω := ω) hallows
              have hstages : (P.step (latch ar) (.step i ω)).stages =
                  P.stages.set i (t, q.next c (exec ω c P.world).1) := by
                simp [Pool.step, hi, Pool.stages, List.map_set, latch, Hold.protocol]
              have hrefuses : RefusesFirst service P (.step i ω) ↔ t = service ∧
                  ∃ run, c = .saveRun run ∧ ∃ e, (exec ω (.saveRun run) P.world).1 = .error e := by
                simp [RefusesFirst, hi, Thread.head]
              unfold Stuck
              rw [hrefuses, hstages, countAt_pos_set hstage (by simpa [hnext] using Or.inl)]
              -- who is stuck already is counted already
              have hpos : t = service → q = .refused →
                  0 < countAt service (fun q => q = .refused) P.stages := fun ht hq =>
                List.countP_pos_iff.2 ⟨_, List.mem_of_getElem? hstage, by simp [ht, hq]⟩
              rw [decide_eq_true_eq, hnext]
              constructor
              · rintro (hstuck | ⟨ht, hq | herror⟩)
                · exact Or.inl hstuck
                · exact Or.inl (hpos ht hq)
                · exact Or.inr ⟨ht, herror⟩
              · rintro (hstuck | ⟨ht, herror⟩)
                · exact Or.inl hstuck
                · exact Or.inr ⟨ht, Or.inr herror⟩

variable (service) in
theorem stuck_run (h : Kept ar P) (labels : List (Label ℕ Draw)) :
    Stuck service (P.run (latch ar) labels) ↔ Stuck service P ∨
      ¬ Pool.Along (latch ar) (fun P l => ¬ RefusesFirst service P l) P labels := by
  induction labels generalizing P with
  | nil => simp [Pool.run, Pool.Along]
  | cons l labels ih =>
      have hnext : Kept ar (P.step (latch ar) l) := h.run [l]
      rw [Pool.Along, not_and_or, not_not, ← or_assoc, ← stuck_step h l]
      exact ih hnext

end Runs

/-- **At most one execution is past the latch, and once all have settled it is open
if and only if no first `save` was refused.** -/
theorem latch_released_iff (ar : Arith) (runs : Table ReconciliationRunEntity)
    (issues : Table ReconciliationIssueEntity) (service : ℕ) (labels : List (Label ℕ Draw)) :
    countAt service Hold.Past (Pool.run (latch ar) (opened runs issues) labels).stages ≤ 1 ∧
      ((Pool.run (latch ar) (opened runs issues) labels).AtRest →
        (service ∉ (Pool.run (latch ar) (opened runs issues) labels).world.running ↔
          Pool.Along (latch ar) (fun P l => ¬ RefusesFirst service P l) (opened runs issues)
            labels)) := by
  have hkept := (kept_opened ar runs issues).run labels
  have hstuck := stuck_run service (kept_opened ar runs issues) labels
  have hnone : ¬ Stuck service (opened runs issues) := by
    simp [Stuck, opened, Pool.start, Pool.stages, countAt]
  generalize Pool.run (latch ar) (opened runs issues) labels = P at hkept hstuck ⊢
  have hraised := hkept.2 service
  constructor
  · have hle : countAt service Hold.Past P.stages ≤ countAt service Hold.Raised P.stages := by
      refine List.countP_mono_left fun x _ hx => ?_
      simp only [Bool.and_eq_true, Hold.Raised, Bool.or_eq_true] at hx ⊢
      exact ⟨hx.1, Or.inl hx.2⟩
    split_ifs at hraised <;> omega
  · intro hrest
    have hsame : countAt service Hold.Raised P.stages =
        countAt service (fun q => q = .refused) P.stages := by
      refine List.countP_congr fun x hx => ?_
      obtain ⟨th, hth, rfl⟩ := List.mem_map.1 hx
      obtain ⟨r, hended⟩ := hkept.1.ended hth (hrest th hth)
      have hpast : th.stage.Past = false := hended
      simp [Hold.Raised, hpast]
    rw [or_iff_right hnone] at hstuck
    rw [← not_iff_not, ← hstuck, not_not, Stuck, ← hsame, hraised]
    split_ifs <;> simp [*]

/-- A call that meets no fault. -/
def passing : Draw := ⟨none, 0, fun i => .ofText [i.toUInt16], .empty, true⟩

/-- An execution that meets none. -/
def untroubled : List (Label ℕ Draw) := .spawn 0 :: List.replicate 9 (.step 0 passing)

theorem latch_released_iff_untroubled :
    Pool.Along (latch (.exact fun _ => true)) (fun P l => ¬ RefusesFirst 0 P l)
      (opened .empty .empty) untroubled :=
  ((latch_released_iff (.exact fun _ => true) .empty .empty 0 untroubled).2 (by decide)).1
    (by decide)

/-- An execution whose first `save` is refused. -/
def refusedFirst : List (Label ℕ Draw) :=
  [.spawn 0, .step 0 passing, .step 0 passing,
    .step 0 { passing with fault := some (.refused violation) }]

/-- **After a refused first `save` the latch stays closed**: the execution has
settled, `running` is raised, and the next call is skipped. -/
theorem refusedFirst_closed :
    let P := Pool.run (latch (.exact fun _ => true)) (opened .empty .empty) refusedFirst
    P.AtRest ∧ 0 ∈ P.world.running ∧
      ∃ th ∈ (P.run (latch (.exact fun _ => true)) [.spawn 0, .step 1 passing]).threads[1]?,
        th.rest = .ret (.skipped (js "already_running")) :=
  ⟨by decide, by decide, _, rfl, rfl⟩

end Reconciliation
end LedgerEngine
