/-
# What is done, and how often

Nothing is in the tables that nobody has asked for, and no request is done twice: every
account, every transaction and every subscription was made by a write request of its own,
one that asks for just this and that has a record under its key (`made_once`).  This holds
whatever calls are refused or lose their answer: a request runs its operation once, and
what it does after that writes to its record only (`RequestStage.Past`).
-/

import LedgerEngine.Engine.Results

namespace LedgerEngine
namespace Engine

open Api (WriteRequest accept)
open Ledger (Arith serve storedTransaction)

/-- A row that a write request makes. -/
inductive Item : Type
  | account (id : Uuid)
  | transaction (id : Uuid)
  | subscription (id : Uuid)
  deriving DecidableEq

/-- The row is in its table. -/
def World.Has (w : World) : Item → Prop
  | .account id => (w.accounts.find? id).isSome
  | .transaction id => (w.transactions.find? id).isSome
  | .subscription id => (w.webhooks.subscriptions.find? id).isSome

/-- The row is in its table, and is what the request asks for. -/
inductive World.Grants (ar : Arith) (w : World) : WriteRequest → Item → Prop
  | account {dto : Ledger.CreateAccountDto} {id : Uuid} {a : AccountEntity}
      (found : w.accounts.find? id = some a)
      (row : (a.currency, a.status) = (dto.currency, dto.status.join.getD .active)) :
      w.Grants ar (.createAccount dto) (.account id)
  | transaction {m : Ledger.Movement} {id : Uuid} {t : TransactionEntity}
      (found : w.transactions.find? id = some (storedTransaction ar t)) (row : m.Makes t) :
      w.Grants ar (.move m) (.transaction id)
  | subscription {dto : Webhooks.RegisterWebhookDto} {id : Uuid}
      (found : w.webhooks.subscriptions.find? id = some ((newSubscription dto).row id)) :
      w.Grants ar (.registerWebhook dto) (.subscription id)

section Items

variable {env : Env} {ar : Arith} {w w' : World} {request : WriteRequest} {x : Item}

theorem World.Grants.grows (h : w.Grants ar request x) (hw : w.Grows w') :
    w'.Grants ar request x := by
  cases h with
  | account found row =>
      obtain ⟨a', found', row'⟩ := hw.accounts _ _ found
      obtain ⟨hcurrency, hrest⟩ := Prod.mk.inj row'
      refine .account found' (Eq.trans ?_ row)
      rw [hcurrency, (Prod.mk.inj hrest).1]
  | transaction found row => exact .transaction (hw.transactions.find? found) row
  | subscription found => exact .subscription (hw.webhooks.subscriptions.find? found)

/-- The tables that hold the items are the same. -/
theorem has_of_eq
    (h : (w'.accounts, w'.transactions, w'.webhooks.subscriptions) =
      (w.accounts, w.transactions, w.webhooks.subscriptions)) (hx : w'.Has x) : w.Has x := by
  obtain ⟨haccounts, hrest⟩ := Prod.mk.inj h
  obtain ⟨htransactions, hsubscriptions⟩ := Prod.mk.inj hrest
  cases x with
  | account id => rwa [World.Has, haccounts] at hx
  | transaction id => rwa [World.Has, htransactions] at hx
  | subscription id => rwa [World.Has, hsubscriptions] at hx

/-- An account that was opened is the one new row. -/
theorem World.Has.opened {id : Uuid} {now : Time} {dto : Ledger.CreateAccountDto}
    (hid : w.accounts.find? id = none)
    (haccounts : w'.accounts = w.accounts.insert (Ledger.newAccount id now dto))
    (hrest : (w'.transactions, w'.webhooks.subscriptions) =
      (w.transactions, w.webhooks.subscriptions)) (hx : w'.Has x) :
    w.Has x ∨ x = .account id ∧ w'.Grants ar (.createAccount dto) x := by
  obtain ⟨htransactions, hsubscriptions⟩ := Prod.mk.inj hrest
  cases x with
  | account id' =>
      rw [World.Has, haccounts] at hx
      refine (Table.find?_of_isSome_insert hid hx).imp_right ?_
      rintro ⟨rfl, hfound⟩
      rw [← haccounts] at hfound
      exact ⟨rfl, .account hfound rfl⟩
  | transaction id' => exact Or.inl (by rwa [World.Has, htransactions] at hx)
  | subscription id' => exact Or.inl (by rwa [World.Has, hsubscriptions] at hx)

/-- The transaction of a movement is the one new row. -/
theorem World.Has.moved {m : Ledger.Movement} {d : Ledger.Draws}
    {p : Ledger.Posting} {r : Ledger.TransactionResponse}
    (hacc : Ledger.Accepted ar m d w.db p r w'.db)
    (hsubscriptions : w'.webhooks.subscriptions = w.webhooks.subscriptions) (hx : w'.Has x) :
    w.Has x ∨ x = .transaction d.transactionId ∧ w'.Grants ar (.move m) x := by
  have haccounts : w'.accounts = (p.posted ar d w.db).accounts := congrArg Db.accounts hacc.state
  have htransactions : w'.transactions = w.transactions.insert ((p.stored ar).transaction d) :=
    congrArg Db.transactions hacc.state
  cases x with
  | account id =>
      rw [World.Has, haccounts, Ledger.Posting.find?_posted hacc.valid, Option.isSome_map] at hx
      exact Or.inl hx
  | transaction id =>
      rw [World.Has, htransactions] at hx
      refine (Table.find?_of_isSome_insert hacc.newKeys.transaction hx).imp_right ?_
      rintro ⟨rfl, hfound⟩
      rw [← htransactions] at hfound
      exact ⟨rfl, .transaction (t := p.transaction d) hfound (Ledger.Posting.makes hacc.fits d)⟩
  | subscription id => exact Or.inl (by rwa [World.Has, hsubscriptions] at hx)

/-- **A call of the ledger makes one row**, the one that was asked for, or none. -/
theorem has_ledger {c : LedgerCall} (hc : commandOf request = .ledger c) (ω : Draw) (w : World) :
    ∃ new, ∀ x, (exec env ω (.ledger c) w).2.Has x →
      w.Has x ∨ x = new ∧ (exec env ω (.ledger c) w).2.Grants env.arith request x := by
  have hsubscriptions : (exec env ω (.ledger c) w).2.webhooks.subscriptions =
      w.webhooks.subscriptions := rfl
  have hdb : (exec env ω (.ledger c) w).2.db =
      ((ledgerAnswer env.arith ω).meet ω.fault c w.db).2 := rfl
  generalize (exec env ω (.ledger c) w).2 = w' at hsubscriptions hdb ⊢
  have hsame : w'.db = w.db →
      ∃ new, ∀ x, w'.Has x → w.Has x ∨ x = new ∧ w'.Grants env.arith request x := by
    intro he
    have haccounts : w'.accounts = w.accounts := congrArg Db.accounts he
    have htransactions : w'.transactions = w.transactions := congrArg Db.transactions he
    exact ⟨.account ω.id, fun x hx => Or.inl
      (has_of_eq (by rw [haccounts, htransactions, hsubscriptions]) hx)⟩
  rcases ledger_state env.arith ω c w.db with hstate | hstate
  · exact hsame (hdb.trans hstate)
  rw [hstate] at hdb
  have hs := Ledger.serve_cases env.arith (ω.call c) w.db
  generalize serve env.arith (ω.call c) w.db = settled at hs hdb
  cases hs with
  | failed e => exact hsame hdb
  | @opened id now dto r hcall hid =>
      cases request with
      | createAccount dto' =>
          obtain rfl := Command.ledger.inj hc
          obtain ⟨-, -, rfl, -⟩ := Ledger.Call.createAccount.inj hcall
          have htransactions : w'.transactions = w.transactions := congrArg Db.transactions hdb
          exact ⟨_, fun x hx => World.Has.opened hid (congrArg Db.accounts hdb)
            (by rw [htransactions, hsubscriptions]) hx⟩
      | move m =>
          obtain rfl := Command.ledger.inj hc
          cases hcall
      | registerWebhook dto' => cases hc
  | @moved m d _ p _ db' hcall hacc =>
      cases request with
      | move m' =>
          obtain rfl := Command.ledger.inj hc
          obtain ⟨rfl, -⟩ := Ledger.Call.move.inj hcall
          obtain rfl : w'.db = db' := hdb
          exact ⟨_, fun x hx => World.Has.moved hacc hsubscriptions hx⟩
      | createAccount dto =>
          obtain rfl := Command.ledger.inj hc
          cases hcall
      | registerWebhook dto => cases hc

/-- **An operation makes one row**, the one that was asked for, or none. -/
theorem has_operation (env : Env) (ω : Draw) (request : WriteRequest) (w : World) :
    ∃ new, ∀ x, (exec env ω (commandOf request) w).2.Has x →
      w.Has x ∨ x = new ∧ (exec env ω (commandOf request) w).2.Grants env.arith request x := by
  cases request with
  | createAccount dto => exact has_ledger rfl ω w
  | move m => exact has_ledger rfl ω w
  | registerWebhook dto =>
      rcases Webhooks.storageExec_save ω.webhooks (newSubscription dto) w.webhooks with
        hstate | ⟨id, hid, hstate⟩
      · refine ⟨.account ω.id, fun x hx => Or.inl (has_of_eq ?_ hx)⟩
        show (w.accounts, w.transactions, (Webhooks.storageExec _ _ _).2.subscriptions) = _
        rw [hstate]
      · refine ⟨.subscription id, fun x hx => ?_⟩
        have hsubscriptions :
            (exec env ω (commandOf (.registerWebhook dto)) w).2.webhooks.subscriptions =
            w.webhooks.subscriptions.insert ((newSubscription dto).row id) := by
          show (Webhooks.storageExec _ _ _).2.subscriptions = _
          rw [hstate]
        cases x with
        | account id' => exact Or.inl hx
        | transaction id' => exact Or.inl hx
        | subscription id' =>
            rw [World.Has, hsubscriptions] at hx
            refine (Table.find?_of_isSome_insert hid hx).imp_right ?_
            rintro ⟨rfl, hfound⟩
            rw [← hsubscriptions] at hfound
            exact ⟨rfl, .subscription hfound⟩

end Items

/-! ### Who has made what -/

/-- The operation has been run. -/
def RequestStage.Past : RequestStage → Prop
  | .completing _ _ | .failing _ | .answered _ | .settled => True
  | _ => False

theorem past_caught (id : Uuid) (e : Exception) : (RequestStage.caught id e).Past := by
  unfold RequestStage.caught
  cases Idempotency.normalizeError e <;> trivial

/-- **The operation is not run again.** -/
theorem RequestStage.Past.next {q : RequestStage} (h : q.Past) {key : JsString × JsString}
    {hash : JsString} {c : Idempotency.Command} (hc : q.Allows key hash c)
    (r : Except Exception c.Res) : (q.next hash c r).Past := by
  cases hc with
  | complete id result =>
      cases r with
      | ok u => trivial
      | error e => exact past_caught id e
  | fail id normalized => trivial
  | _ => exact h.elim

theorem past_performed (id : Uuid) (c : Command) (r : Except Exception c.Res) :
    (RequestStage.performed id c r).Past := by
  cases r with
  | ok r =>
      unfold RequestStage.performed
      dsimp only
      cases resultOf c r <;> trivial
  | error e => exact past_caught id e

/-- The thread has made the row: it is a request that asks for it, has a record and has
run its operation. -/
def By (env : Env) (w : World) (stages : List (Task × Stage)) (i : ℕ) (x : Item) : Prop :=
  ∃ r q request, stages[i]? = some (.request r, .request q) ∧ q.Past ∧
    accept env.validators r.endpoint r.body = some request ∧ w.Grants env.arith request x ∧
      ∃ id, Owns env r w id

section By

variable {env : Env} {w w' : World} {stages stages' : List (Task × Stage)} {i : ℕ}
  {task : Task} {q q' : Stage} {r : HttpRequest} {x : Item}

/-- What the threads were that had made something, they still are. -/
theorem By.kept (h : By env w stages i x) (hw : w.Grows w')
    (hstage : ∀ r q, stages[i]? = some (.request r, .request q) → q.Past →
      ∃ q' : RequestStage, stages'[i]? = some (.request r, .request q') ∧ q'.Past) :
    By env w' stages' i x := by
  obtain ⟨r, q, request, hi, hpast, haccept, hgrants, id, howns⟩ := h
  obtain ⟨q', hi', hpast'⟩ := hstage r q hi hpast
  exact ⟨r, q', request, hi', hpast', haccept, hgrants.grows hw, id, howns.grows hw⟩

/-- A step of a thread that leaves it past its operation, if it was. -/
theorem By.set (h : By env w stages i x) (hw : w.Grows w') {j : ℕ}
    (hj : stages[j]? = some (task, q))
    (hpast : ∀ r q₀, (task, q) = (.request r, .request q₀) → q₀.Past →
      ∃ q₁ : RequestStage, q' = .request q₁ ∧ q₁.Past) :
    By env w' (stages.set j (task, q')) i x := by
  refine h.kept hw fun r q₀ hi hq₀ => ?_
  rw [List.getElem?_set]
  by_cases he : j = i
  · subst he
    obtain ⟨rfl, rfl⟩ := Prod.mk.inj (Option.some.inj (hj.symm.trans hi))
    obtain ⟨q₁, rfl, hq₁⟩ := hpast r q₀ rfl hq₀
    have hlt : j < stages.length := (List.getElem?_eq_some_iff.1 hi).1
    exact ⟨q₁, by rw [if_pos rfl, if_pos hlt], hq₁⟩
  · exact ⟨q₀, by rw [if_neg he]; exact hi, hq₀⟩

/-- **A call that is no operation** makes nothing. -/
theorem madeOnce_idle {ω : Draw} {c : Command} (h : MadeOnce {x | w.Has x} (By env w stages))
    (hi : stages[i]? = some (task, q))
    (hsame : ∀ x, (exec env ω c w).2.Has x → w.Has x)
    (hpast : ∀ r q₀, (task, q) = (.request r, .request q₀) → q₀.Past →
      ∃ q₁ : RequestStage, q' = .request q₁ ∧ q₁.Past) :
    MadeOnce {x | (exec env ω c w).2.Has x}
      (By env (exec env ω c w).2 (stages.set i (task, q'))) :=
  h.mono (fun x hx => hsame x hx) fun _ _ _ hby => hby.set (grows_exec env ω c w) hi hpast

/-- **An operation makes one row**, of a thread that has made none. -/
theorem madeOnce_operate {ω : Draw} {request : WriteRequest} {id : Uuid}
    (h : MadeOnce {x | w.Has x} (By env w stages))
    (hi : stages[i]? = some (.request r, .request (.operating id)))
    (haccept : accept env.validators r.endpoint r.body = some request) (howns : Owns env r w id) :
    MadeOnce {x | (exec env ω (commandOf request) w).2.Has x}
      (By env (exec env ω (commandOf request) w).2 (stages.set i (.request r, .request
        (.performed id (commandOf request) (exec env ω (commandOf request) w).1)))) := by
  have hgrows := grows_exec env ω (commandOf request) w
  obtain ⟨new, hnew⟩ := has_operation env ω request w
  refine h.add i new (fun x hx => (hnew x hx).imp_right And.left) ?_ ?_ ?_
  · rintro x ⟨r', q', -, hi', hpast, -⟩
    obtain ⟨-, he⟩ := Prod.mk.inj (Option.some.inj (hi.symm.trans hi'))
    obtain rfl := Stage.request.inj he
    exact hpast
  · intro j x _ hby
    refine hby.set hgrows hi fun r q₀ he hq₀ => ?_
    obtain ⟨-, he⟩ := Prod.mk.inj he
    obtain rfl := Stage.request.inj he
    exact hq₀.elim
  · intro hmem hold
    have hgrants := ((hnew new hmem).resolve_left hold).2
    refine ⟨r, .performed id (commandOf request) (exec env ω (commandOf request) w).1, request, ?_,
      past_performed .., haccept, hgrants, id, howns.grows hgrows⟩
    rw [List.getElem?_set, if_pos rfl, if_pos (List.getElem?_eq_some_iff.1 hi).1]

end By

/-! ### Every run -/

theorem makers_after (env : Env) (labels : List (Label Task Draw)) :
    MadeOnce {x | (after env labels).world.Has x}
      (By env (after env labels).world (after env labels).stages) := by
  have hall : Pool.Along (system env) (fun _ _ => True) (Pool.start .empty) labels :=
    Pool.along_of_forall (fun _ _ => trivial) _ labels
  refine (Pool.invariant
    (J := fun w stages => (truth env).Holds w stages ∧ MadeOnce {x | w.Has x} (By env w stages))
    (system_follows env) ?_ ?_ hall (Pool.tracked_start _ _) ⟨?_, ?_⟩).2.2
  · rintro P task w ⟨htruth, hmade⟩ - hspawn
    have hs := spawned_spawn hspawn
    refine ⟨htruth.spawn hspawn, hmade.mono (fun x hx => has_of_eq ?_ hx) fun i x _ hby => ?_⟩
    · rw [hs.subscriptions, show w.accounts = P.world.accounts from congrArg Db.accounts hs.db,
        show w.transactions = P.world.transactions from congrArg Db.transactions hs.db]
    · refine hby.kept hs.grows fun r q hi hq => ⟨q, ?_, hq⟩
      rw [List.getElem?_append_left (List.getElem?_eq_some_iff.1 hi).1]
      exact hi
  · rintro P i task q c ω ⟨htruth, hmade⟩ - hi - hallows
    refine ⟨htruth.call hi hallows ω, ?_⟩
    have hknows := htruth.2 _ (List.mem_of_getElem? hi)
    cases hallows with
    | record hc hop =>
        refine madeOnce_idle hmade hi (fun x hx => has_of_eq rfl hx) fun r' q₀ he hq₀ => ?_
        obtain ⟨-, he⟩ := Prod.mk.inj he
        obtain rfl := Stage.request.inj he
        exact ⟨_, rfl, hq₀.next hc _⟩
    | @operate r id request hrequest =>
        have hoperate := madeOnce_operate (ω := ω) hmade hi hrequest hknows.2
        cases request <;> exact hoperate
    | @webhook call q c hc =>
        refine madeOnce_idle hmade hi (fun x hx => has_of_eq ?_ hx) fun r q₀ he _ => ?_
        · show (P.world.accounts, P.world.transactions, (Webhooks.exec _ c _).2.subscriptions) = _
          rw [(Webhooks.kept_exec ω.webhooks c P.world.webhooks).subscriptions]
        · cases (Prod.mk.inj he).1
    | reconcile hc =>
        refine madeOnce_idle hmade hi (fun x hx => has_of_eq rfl hx) fun r q₀ he _ => ?_
        cases (Prod.mk.inj he).1
  · exact Pool.Contract.holds_start fun _ h => absurd h List.not_mem_nil
  · refine ⟨fun _ => 0, fun x hx => ?_, fun x hx => ?_⟩ <;> cases x <;> cases hx

/-- **No request is done twice, and nothing is done without one.**  Every account, every
transaction and every subscription there is has a thread of its own that made it: a write
request that asks for it and has a record. -/
theorem made_once (env : Env) (labels : List (Label Task Draw)) :
    ∃ maker : Item → ℕ, Set.InjOn maker {x | (after env labels).world.Has x} ∧
      ∀ x, (after env labels).world.Has x → ∃ r request,
        ((after env labels).threads[maker x]?).map Thread.tag = some (.request r) ∧
        accept env.validators r.endpoint r.body = some request ∧
        (after env labels).world.Grants env.arith request x ∧
        ∃ record ∈ (after env labels).world.idempotency.records.rows,
          (record.endpoint, some record.idempotencyKey) = (r.endpoint.path, r.idempotencyKey) := by
  obtain ⟨maker, hinj, hmaker⟩ := makers_after env labels
  refine ⟨maker, hinj, fun x hx => ?_⟩
  obtain ⟨r, q, request, hi, -, haccept, hgrants, id, record, hrecord, hkey, -⟩ := hmaker x hx
  refine ⟨r, request, ?_, haccept, hgrants, record, (Table.find?_eq_some hrecord).1, hkey⟩
  have hstage := congrArg (Option.map Prod.fst) hi
  rwa [Pool.stages, List.getElem?_map, Option.map_map] at hstage

end Engine
end LedgerEngine
