/-
# The threads of the engine

Each kind of thread has stages of its own: `RequestStage` for the write requests,
`Delivering` for the webhooks, and for the reconciliation job whether a query of its run
has given a row.  `system` is the pool of all of them, and every thread keeps to the
protocol of its kind (`system_follows`).
-/

import LedgerEngine.Engine.Answers
import LedgerEngine.Engine.Posts

namespace LedgerEngine
namespace Engine

open Api (accountJson)

/-! ### A reconciliation run -/

/-- Whether a query has given a row. -/
def Found.next (q : Bool) : (c : Reconciliation.Command) → Except Exception c.Res → Bool
  | .queryAccounts, .ok rows => q || !rows.isEmpty
  | .queryTransactions, .ok rows => q || !rows.isEmpty
  | _, _ => q

/-- Where no query has given a row, no issue is saved and none is counted. -/
def Found.Allows (q : Bool) : Reconciliation.Command → Prop
  | .saveRun run => run.totalIssues = 0
  | .saveIssues _ => q = true
  | .updateRun _ p => q = true ∨ p.totalIssues.getD 0 = 0
  | _ => True

/-- The protocol of a reconciliation run. -/
def foundProtocol : Protocol Reconciliation.Command Reconciliation.Command.Res Exception Bool :=
  ⟨Found.next, Found.Allows⟩

section Reconcile

open Reconciliation (AccountMismatch ReconciliationRunEntity RunResult UnbalancedTransaction)
open Ledger (Arith)

variable {ar : Arith}

/-- What a query has given, and that it is known of the queries before. -/
def Gives {α : Type} (q : Bool) (r : Except Exception (List α)) (q' : Bool) : Prop :=
  (q = true → q' = true) ∧ ∀ rows, r = .ok rows → q' = true ∨ rows = []

theorem gives_map {α β : Type} (f : α → β) (q : Bool) (rows : List α) :
    Gives q (.ok (rows.map f)) (q || !rows.isEmpty) := by
  refine ⟨fun hq => by simp [hq], fun rows' he => ?_⟩
  obtain rfl := Except.ok.inj he
  cases rows with
  | nil => exact Or.inr rfl
  | cons row rows => exact Or.inl (by simp)

theorem gives_error {α : Type} (q : Bool) (e : Exception) :
    Gives q (.error e : Except Exception (List α)) q :=
  ⟨id, fun _ he => by cases he⟩

theorem found_accounts (q : Bool) :
    (Reconciliation.findAccountBalanceMismatches ar).Follows foundProtocol (Gives q) q :=
  .await_bind trivial (fun rows => gives_map _ q rows) fun e => gives_error q e

theorem found_transactions (q : Bool) :
    (Reconciliation.findUnbalancedTransactions ar).Follows foundProtocol (Gives q) q :=
  .await_bind trivial (fun rows => gives_map _ q rows) fun e => gives_error q e

/-- What the two queries have found. -/
def Finds : Except Exception (List AccountMismatch × List UnbalancedTransaction) → Bool → Prop
  | .ok found, q => q = true ∨ found = ([], [])
  | .error _, _ => True

theorem Gives.finds {α β : Type} {q₁ q₂ : Bool} {rows₁ : List α} {rows₂ : List β}
    (h₁ : Gives false (.ok rows₁) q₁) (h₂ : Gives q₁ (.ok rows₂) q₂) :
    q₂ = true ∨ rows₁ = [] ∧ rows₂ = [] := by
  rcases h₂.2 rows₂ rfl with hq | hrows₂
  · exact Or.inl hq
  · rcases h₁.2 rows₁ rfl with hq | hrows₁
    · exact Or.inl (h₂.1 hq)
    · exact Or.inr ⟨hrows₁, hrows₂⟩

theorem found_findBoth : (Reconciliation.findBoth ar).Follows foundProtocol Finds false := by
  refine .await_bind trivial (fun first => ?_) fun _ => trivial
  show Prog.Follows _ _ _ false
  cases first with
  | true =>
      refine .bind (found_accounts false) (fun mismatches q₁ h₁ => ?_) fun _ _ _ => trivial
      refine .bind (found_transactions q₁) (fun unbalanced q₂ h₂ => ?_) fun _ _ _ => trivial
      exact (h₁.finds h₂).imp id fun h => Prod.ext h.1 h.2
  | false =>
      refine .bind (found_transactions false) (fun unbalanced q₁ h₁ => ?_) fun _ _ _ => trivial
      refine .bind (found_accounts q₁) (fun mismatches q₂ h₂ => ?_) fun _ _ _ => trivial
      exact (h₁.finds h₂).imp id fun h => Prod.ext h.2 h.1

theorem found_reconcile (run : ReconciliationRunEntity) :
    (Reconciliation.reconcile ar run).Follows foundProtocol (fun _ _ => True) false := by
  refine .bind found_findBoth (fun found q hq => ?_) fun _ _ _ => trivial
  have htotal : q = true ∨ (Reconciliation.issuesFor run.id found).length = 0 := by
    rcases hq with hq | rfl
    · exact Or.inl hq
    · exact Or.inr rfl
  have hsave : (Reconciliation.saveFound (Reconciliation.issuesFor run.id found)).Follows
      foundProtocol (fun _ q' => q' = q) q := by
    unfold Reconciliation.saveFound
    split_ifs with hlength
    · have hq : q = true := htotal.resolve_right fun h => absurd hlength (by omega)
      exact .await_bind hq (fun _ => rfl) fun _ => rfl
    · exact rfl
  refine .bind hsave (fun _ q' hq' => ?_) fun _ _ _ => trivial
  subst hq'
  refine .await_bind trivial (fun completedAt => ?_) fun _ => trivial
  exact .await_bind htotal (fun _ => trivial) fun _ => trivial

theorem found_recordFailure (run : ReconciliationRunEntity) (e : Exception) (q : Bool) :
    (Reconciliation.recordFailure run e).Follows foundProtocol (fun _ _ => True) q := by
  refine .await_bind trivial (fun completedAt => ?_) fun _ => trivial
  exact .await_bind (Or.inr rfl) (fun _ => trivial) fun _ => trivial

/-- **A run in which no query gives a row saves no issue and counts none.** -/
theorem runReconciliation_follows (ar : Arith) (service : ℕ) :
    (Reconciliation.runReconciliation ar service).Follows foundProtocol (fun _ _ => True)
      false := by
  refine .await_bind trivial (fun entered => ?_) fun _ => trivial
  show Prog.Follows _ _ _ false
  cases entered with
  | false => trivial
  | true =>
      have hstart : Reconciliation.startRun.Follows foundProtocol (fun _ q => q = false) false :=
        .await_bind trivial (fun startedAt => .await rfl fun _ => rfl) fun _ => rfl
      refine .bind hstart (fun run q hq => ?_) fun _ _ _ => trivial
      subst hq
      refine .andThen (fun _ _ => True) ?_ fun settled q' _ => ?_
      · exact .tryCatch _ (found_reconcile run) (fun _ _ _ => trivial)
          fun e q' _ => found_recordFailure run e q'
      · refine .await_bind trivial (fun _ => ?_) fun _ => trivial
        cases settled <;> trivial

end Reconcile

/-! ### The pool -/

/-- Where a thread is. -/
inductive Stage : Type
  | request (q : RequestStage)
  | webhook (q : Delivering)
  | reconcile (q : Bool)

/-- The stage after a call: each kind of thread makes calls of its own. -/
def Stage.next (env : Env) : Task → Stage → (c : Command) → Except Exception c.Res → Stage
  | .request r, .request q, c, s =>
      .request (q.advance (env.requestHash r.endpoint r.body) c s)
  | .webhook _, .webhook q, .webhooks (.command c), s => .webhook (q.next c s)
  | .reconcile _, .reconcile q, .reconcile c, s => .reconcile (Found.next q c s)
  | _, q, _, _ => q

/-- The calls a thread may make at a stage. -/
inductive Stage.Allows (env : Env) : Task → Stage → Command → Prop
  | record {r : HttpRequest} {q : RequestStage} {c : Idempotency.Command}
      (hc : q.Allows (r.endpoint.path, r.idempotencyKey.getD [])
        (env.requestHash r.endpoint r.body) c)
      (hop : ∀ endpoint key, c ≠ .operation endpoint key) :
      Allows env (.request r) (.request q) (.record c)
  | operate {r : HttpRequest} (id : Uuid) {request : Api.WriteRequest}
      (h : Api.accept env.validators r.endpoint r.body = some request) :
      Allows env (.request r) (.request (.operating id)) (commandOf request)
  | webhook {call : Webhooks.Call} {q : Delivering} {c : Webhooks.Command}
      (hc : q.Allows env.webhooks c) :
      Allows env (.webhook call) (.webhook q) (.webhooks (.command c))
  | reconcile {service : ℕ} {q : Bool} {c : Reconciliation.Command} (hc : Found.Allows q c) :
      Allows env (.reconcile service) (.reconcile q) (.reconcile c)

theorem RequestStage.Makes.allows {env : Env} {r : HttpRequest} {q : RequestStage} {c : Command}
    (h : RequestStage.Makes env r q c) : Stage.Allows env (.request r) (.request q) c := by
  cases h with
  | record hc hop => exact .record hc hop
  | operate id h => exact .operate id h

/-- The protocol of a thread. -/
def protocol (env : Env) (task : Task) : Protocol Command Command.Res Exception Stage :=
  ⟨Stage.next env task, Stage.Allows env task⟩

/-- The pool of write requests, webhook threads and reconciliation runs. -/
def system (env : Env) :
    System Task Command Command.Res Exception (Option Json) World Draw Stage where
  exec := exec env
  body := body env
  spawn := spawn env
  entry
    | .request _ => .request .entering
    | .webhook _ => .webhook .idle
    | .reconcile _ => .reconcile false
  protocol := protocol env

/-- A thread that returns a body is a request that has passed the pipe and was answered
with it. -/
def Ended (env : Env) : Task → Except Exception (Option Json) → Stage → Prop
  | .request r, .ok (some body), q =>
      q = .request (.answered body) ∧ (Api.accept env.validators r.endpoint r.body).isSome
  | _, .ok (some _), _ => False
  | _, _, _ => True

/-- **Every thread makes only the calls its stage allows**, and a request returns the
body it is answered with. -/
theorem system_follows (env : Env) (task : Task) :
    ((system env).body task).Follows ((system env).protocol task) (Ended env task)
      ((system env).entry task) := by
  cases task with
  | request r =>
      have hhandle : (handle env r).Follows (protocol env (.request r))
          (fun settled q => ∀ answer, settled = .ok answer → q = .request (.answered answer) ∧
            (Api.accept env.validators r.endpoint r.body).isSome)
          (.request .entering) := by
        refine (handle_follows env r).embed Stage.request (fun _ _ _ => rfl)
          (fun _ _ h => RequestStage.Makes.allows h) fun settled q h answer he => ?_
        subst he
        exact ⟨congrArg Stage.request h.1, h.2⟩
      exact .bind hhandle (fun answer q hq => hq answer rfl) fun _ _ _ => trivial
  | webhook call =>
      have hcall : ((Webhooks.system env.webhooks).body call).Follows
          ((protocol env (.webhook call)).comap fun c => .webhooks (.command c))
          (fun _ _ => True) (.webhook .idle) :=
        (webhook_follows env.webhooks call).embed Stage.webhook (fun _ _ _ => rfl)
          (fun _ _ h => Stage.Allows.webhook h) fun _ _ h => h
      exact .bind hcall.expand_await (fun _ _ _ => trivial) fun _ _ _ => trivial
  | reconcile service =>
      have hrun : (Reconciliation.runReconciliation env.arith service).Follows
          ((protocol env (.reconcile service)).comap .reconcile) (fun _ _ => True)
          (.reconcile false) :=
        (runReconciliation_follows env.arith service).embed Stage.reconcile (fun _ _ _ => rfl)
          (fun _ _ h => Stage.Allows.reconcile h) fun _ _ h => h
      exact .bind hrun.expand_await (fun _ _ _ => trivial) fun _ _ _ => trivial

/-- The engine after some steps from the empty tables. -/
def after (env : Env) (labels : List (Label Task Draw)) :
    Pool Task Command Command.Res Exception (Option Json) World Stage :=
  Pool.run (system env) (Pool.start .empty) labels

/-- A request has been answered with the body. -/
def Answered (P : Pool Task Command Command.Res Exception (Option Json) World Stage)
    (r : HttpRequest) (body : Json) : Prop :=
  ∃ th ∈ P.threads, th.tag = .request r ∧ th.rest = .ret (some body)

/-- What the engine has answered is at the stage of its thread. -/
theorem Answered.stage {env : Env}
    {P : Pool Task Command Command.Res Exception (Option Json) World Stage} {r : HttpRequest}
    {body : Json} (h : Answered P r body) (hP : Pool.Tracked (system env) (Ended env) P) :
    (.request r, .request (.answered body)) ∈ P.stages ∧
      (Api.accept env.validators r.endpoint r.body).isSome := by
  obtain ⟨⟨tag, stage, rest⟩, hth, rfl, rfl⟩ := h
  obtain ⟨rfl, haccept⟩ : Ended env (.request r) (.ok (some body)) stage := hP _ hth
  exact ⟨List.mem_map_of_mem hth, haccept⟩

/-! ### A small run -/

def sampleEnv : Env where
  arith := .double
  column := .verbatim
  validators := Idempotency.sampleValidators
  sha256 := Idempotency.sampleSha256
  webhooks := .defaults fun _ secret => secret

/-- A request that opens an account. -/
def opening : HttpRequest where
  endpoint := .createAccount
  idempotencyKey := some (js "opening")
  body := {
    members := [(js "currency", .str (js "INR"))]
    distinct := by decide
    numbers := fun m hm n hn => by
      obtain rfl := List.mem_singleton.1 hm
      cases hn }

/-- A deposit of 5000 on it. -/
def deposit : HttpRequest where
  endpoint := .deposit
  idempotencyKey := some (js "deposit")
  body := Idempotency.depositBody Idempotency.depositMembers (List.Perm.refl _)

def sampleAccountId : Uuid := .ofText (js "0f8fad5b-d9cb-469f-a165-70867728950e")

/-- What is drawn for a call that meets no fault. -/
def drawn (s : String) : Draw where
  fault := none
  record := ⟨none, .ofText (js s), 0, .reject .notAnError⟩
  webhooks := ⟨none, 0, [.ofText (js s)], .ok 200, .ok []⟩
  reconcile := ⟨none, 0, fun _ => .ofText (js s), .empty, true⟩
  id := sampleAccountId
  now := 0
  draws := Ledger.drawsEnding s
  faults := []
  commitFault := none

/-- A request as thread `i`, and the five calls it makes. -/
def served (i : ℕ) (s : String) (r : HttpRequest) : List (Label Task Draw) :=
  .spawn (.request r) :: List.replicate 5 (.step i (drawn s))

/-- The account is opened. -/
def opened : List (Label Task Draw) := served 0 "1" opening

/-- The account is opened, and the deposit made. -/
def deposited : List (Label Task Draw) := opened ++ served 1 "2" deposit

/-- A request that subscribes a webhook to the transactions. -/
def subscribing : HttpRequest where
  endpoint := .registerWebhook
  idempotencyKey := some (js "subscribing")
  body := {
    members := [(js "targetUrl", .str (js "https://example.com/hook")),
      (js "eventType", .str (js "transaction.completed")),
      (js "secret", .str (js "a secret of sixteen"))]
    distinct := by decide
    numbers := fun m hm n hn => by
      simp only [List.mem_cons, List.not_mem_nil, or_false] at hm
      rcases hm with rfl | rfl | rfl <;> cases hn }

/-- A deposit that is dispatched by a poll and told to the subscription by a worker. -/
def notified : List (Label Task Draw) :=
  opened ++ served 1 "2" subscribing ++ served 2 "3" deposit ++
    .spawn (.webhook (.poll 0)) :: List.replicate 12 (.step 3 (drawn "4")) ++
    .spawn (.webhook (.work ⟨.ofText (js "4"), 1⟩ 0)) :: List.replicate 9 (.step 4 (drawn "5"))

/-- What the opening is answered. -/
def openedBody : Json := accountJson ⟨sampleAccountId, js "INR", 0, .active, 0⟩

theorem opening_answered : Answered (after sampleEnv opened) opening openedBody :=
  ⟨_, List.mem_of_getElem? (i := 0) rfl, rfl, rfl⟩

end Engine
end LedgerEngine
