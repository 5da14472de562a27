/-
# What an answer says

A request that is answered is told the truth: whatever the other threads did, and
whichever calls were refused or lost, the body it returns is that of a request that has
arrived with the same key and the same hash, and what the body says is in the tables and
stays there (`answers_truthful`).

`Performed` is what a result says of the tables.  It is known from the moment the
operation has returned, it goes with the result into the record, and no call takes it
away (`grows_exec`); so what is replayed from the record is still true.
-/

import LedgerEngine.Engine.Calls

namespace LedgerEngine

namespace Ledger

/-- The transaction that a movement asks for. -/
structure Movement.Makes (m : Movement) (t : TransactionEntity) : Prop where
  type : t.type = m.type
  status : t.status = .completed
  amount : t.amount = m.amount
  currency : t.currency = m.currency
  fromAccountId : t.fromAccountId = m.fromAccountId
  toAccountId : t.toAccountId = m.toAccountId
  description : t.description = m.description

theorem Posting.makes {p : Posting} {m : Movement} (h : p.Fits m) (d : Draws) :
    m.Makes (p.transaction d) where
  type := h.type
  status := rfl
  amount := h.amount
  currency := h.currency
  fromAccountId := h.debit
  toAccountId := h.credit
  description := h.description

/-- A transaction that commits has made a posting. -/
theorem accepted_of_transaction {ar : Arith} {m : Movement} {d : Draws}
    {faults : List (Option Exception)} {commitFault : Option Exception} {db db' : Db}
    {r : TransactionResponse}
    (h : transactionWithFaults ar d faults commitFault (m.body ar) db = (.ok r, db')) :
    ∃ p, Accepted ar m d db p r db' := by
  unfold transactionWithFaults at h
  split at h
  · rename_i r₀ db₀ faults' hbody
    cases commitFault with
    | some e => cases h
    | none =>
        obtain ⟨hr, rfl⟩ := Prod.mk.inj h
        obtain rfl := Except.ok.inj hr
        exact Movement.accepted ((m.rethrows ar).eval_faulty hbody)
  · cases h

end Ledger

namespace Engine

open Api (WriteRequest accept accountJson transactionJson webhookJson)
open Idempotency (IdempotencyRecordEntity OperationResult completed failed reclaimed)
open Ledger (AccountResponse Arith CreateAccountDto Movement TransactionResponse storedTransaction
  toTransactionResponse)
open Webhooks (NewSubscription RegisterWebhookDto SavedSubscription)

/-- The request as it arrived has been done, and `result` says so. -/
inductive Performed (ar : Arith) (w : World) : WriteRequest → OperationResult → Prop
  | createAccount {dto : CreateAccountDto} {account : AccountEntity} {r : AccountResponse}
      (found : w.accounts.find? r.id = some account)
      (row : (account.currency, account.status, account.createdAt) =
        (r.currency, r.status, r.createdAt))
      (request :
        (r.currency, r.status, r.balance) = (dto.currency, dto.status.join.getD .active, 0)) :
      Performed ar w (.createAccount dto) ⟨201, accountJson r, none⟩
  | move {m : Movement} {t : TransactionEntity}
      (found : w.transactions.find? t.id = some (storedTransaction ar t)) (request : m.Makes t) :
      Performed ar w (.move m) ⟨201, transactionJson (toTransactionResponse t), some t.id⟩
  | registerWebhook {dto : RegisterWebhookDto} {saved : SavedSubscription} {id : Uuid}
      (found : w.webhooks.subscriptions.find? id = some saved.row)
      (request : saved.row = (newSubscription dto).row id) :
      Performed ar w (.registerWebhook dto) ⟨201, webhookJson (registered saved), none⟩

section Performed

variable {ar : Arith} {w w' : World} {request : WriteRequest} {result : OperationResult}

/-- **What was done stays done.** -/
theorem Performed.grows (h : Performed ar w request result) (hw : w.Grows w') :
    Performed ar w' request result := by
  cases h with
  | createAccount found row request =>
      obtain ⟨account', found', row'⟩ := hw.accounts _ _ found
      exact .createAccount found' (row'.trans row) request
  | move found request => exact .move (hw.transactions.find? found) request
  | registerWebhook found request =>
      exact .registerWebhook (hw.webhooks.subscriptions.find? found) request

/-- An account that was created is in the table. -/
theorem createAccount_found {id : Uuid} {now : Time} {dto : CreateAccountDto} {db db' : Db}
    {r : AccountResponse} (h : Ledger.createAccount id now dto db = (.ok r, db')) :
    ∃ account, db'.accounts.find? r.id = some account ∧
      (account.currency, account.status, account.createdAt) = (r.currency, r.status, r.createdAt) ∧
      (r.currency, r.status, r.balance) = (dto.currency, dto.status.join.getD .active, 0) := by
  unfold Ledger.createAccount at h
  dsimp only at h
  split_ifs at h with hid
  · cases h
  obtain ⟨hr, rfl⟩ := Prod.mk.inj h
  obtain rfl := Except.ok.inj hr
  have hid : db.accounts.find? id = none := by simpa using hid
  exact ⟨Ledger.newAccount id now dto, Table.find?_key ((Table.mem_insert hid).2 (Or.inr rfl)),
    rfl, rfl⟩

/-- **A call of the ledger that answers has done what it was asked.** -/
theorem performed_ledger {env : Env} {ω : Draw} {c : LedgerCall} {r : c.Res}
    (h : ((ledgerAnswer env.arith ω).meet ω.fault c w.db).1 = .ok r)
    (hrequest : commandOf request = .ledger c) (hresult : resultOf (.ledger c) r = some result) :
    Performed env.arith (w.withDb ((ledgerAnswer env.arith ω).meet ω.fault c w.db).2) request
      result := by
  have hmeet := Prog.Handler.meet_of_ok h
  rw [hmeet] at h ⊢
  cases request with
  | registerWebhook dto => cases hrequest
  | createAccount dto =>
      obtain rfl := Command.ledger.inj hrequest
      obtain rfl := Option.some.inj hresult
      have hcreated : Ledger.createAccount ω.id ω.now dto w.db =
          (.ok r, (ledgerAnswer env.arith ω (.createAccount dto) w.db).2) := Prod.ext h rfl
      obtain ⟨account, found, row, request⟩ := createAccount_found hcreated
      exact .createAccount found row request
  | move m =>
      obtain rfl := Command.ledger.inj hrequest
      obtain rfl := Option.some.inj hresult
      have hcommit : Ledger.transactionWithFaults env.arith ω.draws ω.faults ω.commitFault
          (m.body env.arith) w.db =
            (.ok r, (ledgerAnswer env.arith ω (.transaction m) w.db).2) := Prod.ext h rfl
      obtain ⟨p, hp⟩ := Ledger.accepted_of_transaction hcommit
      rw [hp.answer, hp.state]
      refine .move (t := p.transaction ω.draws) ?_ (Ledger.Posting.makes hp.fits ω.draws)
      exact Table.find?_key ((Table.mem_insert hp.newKeys.transaction).2 (Or.inr rfl))

/-- A subscription that was inserted is in the table. -/
theorem insertSubscription_found {ω : Webhooks.Draw} {s : NewSubscription} {w w' : Webhooks.World}
    {saved : SavedSubscription}
    (h : Webhooks.insertSubscription ω s w = (.ok saved, w')) :
    ∃ id, saved.row = s.row id ∧ w'.subscriptions.find? id = some saved.row := by
  unfold Webhooks.insertSubscription at h
  split_ifs at h with hfits
  · split at h
    · rename_i id hids
      split_ifs at h with hid
      · cases h
      obtain ⟨hr, rfl⟩ := Prod.mk.inj h
      obtain rfl := Except.ok.inj hr
      have hid : w.subscriptions.find? id = none := by simpa using hid
      exact ⟨id, rfl, Table.find?_key ((Table.mem_insert hid).2 (Or.inr rfl))⟩
    · cases h
  · cases h

/-- **A subscription that is saved is the one that was asked for.** -/
theorem performed_webhook {ω : Webhooks.Draw} {dto : RegisterWebhookDto} {saved : SavedSubscription}
    (h : (Webhooks.storageExec ω (.saveSubscription (newSubscription dto)) w.webhooks).1 =
      .ok saved) :
    Performed ar
      { w with
        webhooks :=
          (Webhooks.storageExec ω (.saveSubscription (newSubscription dto)) w.webhooks).2 }
      (.registerWebhook dto) ⟨201, webhookJson (registered saved), none⟩ := by
  have hmeet : Webhooks.storageExec ω (.saveSubscription (newSubscription dto)) w.webhooks =
      Webhooks.insertSubscription ω (newSubscription dto) w.webhooks := Prog.Handler.meet_of_ok h
  obtain ⟨id, request, found⟩ := insertSubscription_found (hmeet.symm.trans (Prod.ext h rfl))
  exact .registerWebhook found request

end Performed

/-! ### What a request knows -/

/-- A request with this key and this hash has arrived and been done, with this result. -/
def Earned (env : Env) (w : World) (key : JsString × JsString) (hash : JsString)
    (result : OperationResult) : Prop :=
  ∃ r ∈ w.received, (r.endpoint.path, r.idempotencyKey) = (key.1, some key.2) ∧
    env.requestHash r.endpoint r.body = hash ∧
    ∃ request, accept env.validators r.endpoint r.body = some request ∧
      Performed env.arith w request result

/-- A record that is COMPLETED holds a result. -/
def Justified (env : Env) (w : World) (record : IdempotencyRecordEntity) : Prop :=
  record.status = .completed → ∃ result,
    Earned env w (record.endpoint, record.idempotencyKey) record.requestHash result ∧
      record.responseCode = some result.statusCode ∧
      record.responseBody = env.column.store result.body ∧
      record.transactionId = result.transactionId

/-- The body is that of a result of the request, or of one like it before. -/
def Truthful (env : Env) (w : World) (r : HttpRequest) (body : Json) : Prop :=
  ∃ key result, r.idempotencyKey = some key ∧
    Earned env w (r.endpoint.path, key) (env.requestHash r.endpoint r.body) result ∧
      body.Same result.body

/-- The record with this id is for the request. -/
def Owns (env : Env) (r : HttpRequest) (w : World) (id : Uuid) : Prop :=
  ∃ record, w.idempotency.records.find? id = some record ∧
    (record.endpoint, some record.idempotencyKey) = (r.endpoint.path, r.idempotencyKey) ∧
    record.requestHash = env.requestHash r.endpoint r.body

/-- What is known of a request at a stage. -/
def RequestStage.Knows (env : Env) (r : HttpRequest) (w : World) : RequestStage → Prop
  | .entering | .settled => True
  | .inserting | .racing => r.idempotencyKey.isSome
  | .reclaiming id | .operating id | .failing id => Owns env r w id
  | .claimed => ∃ id, Owns env r w id
  | .completing id result => Owns env r w id ∧ ∃ request,
      accept env.validators r.endpoint r.body = some request ∧ Performed env.arith w request result
  | .answered body => Truthful env w r body

section Knows

variable {env : Env} {w w' : World} {r : HttpRequest} {key : JsString × JsString} {hash : JsString}
  {result : OperationResult} {record : IdempotencyRecordEntity} {id : Uuid} {q : RequestStage}

theorem Earned.grows (h : Earned env w key hash result) (hw : w.Grows w') :
    Earned env w' key hash result := by
  obtain ⟨r, hr, hkey, hhash, request, hrequest, hperformed⟩ := h
  exact ⟨r, hw.received hr, hkey, hhash, request, hrequest, hperformed.grows hw⟩

theorem Justified.grows (h : Justified env w record) (hw : w.Grows w') :
    Justified env w' record := by
  intro hstatus
  obtain ⟨result, hearned, h⟩ := h hstatus
  exact ⟨result, hearned.grows hw, h⟩

theorem Owns.grows (h : Owns env r w id) (hw : w.Grows w') : Owns env r w' id := by
  obtain ⟨record, hrecord, hkey, hhash⟩ := h
  obtain ⟨record', hrecord', he⟩ := hw.records id record hrecord
  obtain ⟨hendpoint, hrest⟩ := Prod.mk.inj he
  obtain ⟨hk, hh⟩ := Prod.mk.inj hrest
  exact ⟨record', hrecord', by rw [hendpoint, hk, hkey], hh.trans hhash⟩

theorem Truthful.grows {body : Json} (h : Truthful env w r body) (hw : w.Grows w') :
    Truthful env w' r body := by
  obtain ⟨key, result, hkey, hearned, hsame⟩ := h
  exact ⟨key, result, hkey, hearned.grows hw, hsame⟩

/-- **What a request knows no call takes away.** -/
theorem RequestStage.Knows.grows (h : q.Knows env r w) (hw : w.Grows w') : q.Knows env r w' := by
  cases q with
  | entering => trivial
  | settled => trivial
  | inserting => exact h
  | racing => exact h
  | reclaiming id => exact Owns.grows h hw
  | operating id => exact Owns.grows h hw
  | failing id => exact Owns.grows h hw
  | claimed => exact h.imp fun id hid => hid.grows hw
  | completing id result =>
      obtain ⟨howns, request, hrequest, hperformed⟩ := h
      exact ⟨howns.grows hw, request, hrequest, hperformed.grows hw⟩
  | answered body => exact Truthful.grows h hw

theorem knows_caught (h : Owns env r w id) (e : Exception) :
    (RequestStage.caught id e).Knows env r w := by
  unfold RequestStage.caught
  cases Idempotency.normalizeError e with
  | ok normalized => exact h
  | error e' => trivial

/-- The record a lookup has found is one of the table. -/
theorem owns_of_lookup {k : JsString} (hkey : r.idempotencyKey = some k)
    (h : w.idempotency.records.lookup (r.endpoint.path, k) = some record)
    (hhash : record.requestHash = env.requestHash r.endpoint r.body) :
    Owns env r w record.id := by
  obtain ⟨hmem, hindex⟩ := IndexedTable.lookup_eq_some h
  obtain ⟨hendpoint, hk⟩ := Prod.mk.inj hindex
  exact ⟨record, Table.find?_key hmem, by rw [hendpoint, hk, hkey], hhash⟩

/-- A record that is replayed is the truth. -/
theorem truthful_of_lookup {k : JsString} (hkey : r.idempotencyKey = some k)
    (h : w.idempotency.records.lookup (r.endpoint.path, k) = some record)
    (hhash : record.requestHash = env.requestHash r.endpoint r.body)
    (hreplay : Idempotency.replayable record = true) (hj : Justified env w record) :
    Truthful env w r record.responseBody := by
  obtain ⟨hstatus, -⟩ := Bool.and_eq_true_iff.1 hreplay
  obtain ⟨result, hearned, -, hbody, -⟩ := hj (of_decide_eq_true hstatus)
  obtain ⟨-, hindex⟩ := IndexedTable.lookup_eq_some h
  obtain ⟨hendpoint, hk⟩ := Prod.mk.inj hindex
  refine ⟨k, result, hkey, ?_, ?_⟩
  · rw [← hhash, ← hendpoint, ← hk]
    exact hearned
  · rw [hbody]
    exact env.column.same result.body

/-! ### One call -/

section Exec

variable {column : Jsonb} {ω : Idempotency.Draw} {w w' : Idempotency.World}

/-- A lookup changes nothing, and finds what is there. -/
theorem exec_findOne {endpoint k : JsString}
    {settled : Except Exception (Option IdempotencyRecordEntity)}
    (h : Idempotency.exec column ω (.findOne endpoint k) w = (settled, w')) :
    w' = w ∧
      ∀ record, settled = .ok (some record) → w.records.lookup (endpoint, k) = some record := by
  refine ⟨?_, fun record he => ?_⟩
  · have hstate := Prog.Handler.meet_state (Idempotency.answer column ω) ω.fault
      (.findOne endpoint k) w
    rw [show Prog.Handler.meet _ _ _ _ = _ from h] at hstate
    exact hstate.elim id id
  · subst he
    have hok := Prog.Handler.meet_of_ok (congrArg Prod.fst h)
    exact Except.ok.inj (congrArg Prod.fst (hok.symm.trans h))

theorem exec_findOneOrFail {endpoint k : JsString}
    {settled : Except Exception IdempotencyRecordEntity}
    (h : Idempotency.exec column ω (.findOneOrFail endpoint k) w = (settled, w')) :
    w' = w ∧ ∀ record, settled = .ok record → w.records.lookup (endpoint, k) = some record := by
  have hanswer : (Idempotency.answer column ω (.findOneOrFail endpoint k) w).2 = w := by
    simp only [Idempotency.answer]
    cases w.records.lookup (endpoint, k) <;> rfl
  refine ⟨?_, fun record he => ?_⟩
  · have hstate := Prog.Handler.meet_state (Idempotency.answer column ω) ω.fault
      (.findOneOrFail endpoint k) w
    rw [show Prog.Handler.meet _ _ _ _ = _ from h, hanswer] at hstate
    exact hstate.elim id id
  · subst he
    have hok := Prog.Handler.meet_of_ok (congrArg Prod.fst h)
    have hfound := congrArg Prod.fst (hok.symm.trans h)
    simp only [Idempotency.answer] at hfound
    cases hl : w.records.lookup (endpoint, k) with
    | none => rw [hl] at hfound; cases hfound
    | some found =>
        rw [hl] at hfound
        exact congrArg some (Except.ok.inj hfound)

/-- What an update or a save does to the records: the patch, or nothing, and then it
throws. -/
theorem exec_patch (column : Jsonb) (ω : Idempotency.Draw) {c : Idempotency.Command} {id : Uuid}
    {p : Idempotency.Patch} (hc : c = .update id p ∨ c = .save id p) (w : Idempotency.World) :
    (Idempotency.exec column ω c w).2.records = w.records ∧
        (∃ e, (Idempotency.exec column ω c w).1 = .error e) ∨
      (Idempotency.exec column ω c w).2.records = w.records.update id (p.change column ω.now) := by
  cases hx : (Idempotency.exec column ω c w).1 with
  | ok r =>
      rw [show Idempotency.exec column ω c w = Idempotency.answer column ω c w from
        Prog.Handler.meet_of_ok hx]
      rcases hc with rfl | rfl <;> exact Or.inr rfl
  | error e =>
      rcases Prog.Handler.meet_state (Idempotency.answer column ω) ω.fault c w with h | h
      · exact Or.inl ⟨congrArg Idempotency.World.records h, e, rfl⟩
      · refine Or.inr ((congrArg Idempotency.World.records h).trans ?_)
        rcases hc with rfl | rfl <;> rfl

/-- An update changes the record with its id, or nothing. -/
theorem mem_exec_update {c : Idempotency.Command} {id : Uuid} {p : Idempotency.Patch}
    (hc : c = .update id p ∨ c = .save id p) {record : IdempotencyRecordEntity}
    (h : record ∈ (Idempotency.exec column ω c w).2.records.rows) :
    record ∈ w.records.rows ∨
      ∃ old, w.records.find? id = some old ∧ record = p.apply column ω.now old := by
  rcases exec_patch column ω hc w with ⟨hrecords, -⟩ | hrecords
  · rw [hrecords] at h
    exact Or.inl h
  · rw [hrecords] at h
    obtain ⟨old, hold, rfl⟩ := List.mem_map.1 h
    unfold IndexedTable.changed
    split_ifs with hid
    · exact Or.inr ⟨old, hid ▸ Table.find?_key hold, rfl⟩
    · exact Or.inl hold

/-- An insert adds its record, or nothing. -/
theorem mem_exec_insert {new : Idempotency.NewRecord} {record : IdempotencyRecordEntity}
    (h : record ∈ (Idempotency.exec column ω (.insert new) w).2.records.rows) :
    record ∈ w.records.rows ∨ record = new.row ω.id ω.now := by
  rcases Prog.Handler.meet_state (Idempotency.answer column ω) ω.fault (.insert new) w with
    hstate | hstate
  · rw [show (Idempotency.exec column ω (.insert new) w).2 = w from hstate] at h
    exact Or.inl h
  · rw [show (Idempotency.exec column ω (.insert new) w).2 = _ from hstate] at h
    simp only [Idempotency.answer] at h
    cases hins : w.records.insert? (new.row ω.id ω.now) with
    | none =>
        rw [hins] at h
        exact Or.inl h
    | some records =>
        rw [hins] at h
        change record ∈ records.rows at h
        rw [(IndexedTable.insert?_eq_some hins).2.2] at h
        simpa using h

/-- A record that was inserted is there. -/
theorem find?_exec_insert {new : Idempotency.NewRecord} {u : Unit}
    (h : Idempotency.exec column ω (.insert new) w = (.ok u, w')) :
    w'.records.find? ω.id = some (new.row ω.id ω.now) := by
  have hmeet :
      Idempotency.exec column ω (.insert new) w = Idempotency.answer column ω (.insert new) w :=
    Prog.Handler.meet_of_ok (congrArg Prod.fst h)
  rw [hmeet] at h
  simp only [Idempotency.answer] at h
  cases hins : w.records.insert? (new.row ω.id ω.now) with
  | none => rw [hins] at h; cases h
  | some records =>
      rw [hins] at h
      obtain rfl := (Prod.mk.inj h).2
      show records.find? ω.id = _
      rw [IndexedTable.find?_insert hins]
      exact if_pos rfl

end Exec

/-- Every record that is COMPLETED holds a result. -/
def Kept (env : Env) (w : World) : Prop :=
  ∀ record ∈ w.idempotency.records.rows, Justified env w record

/-- What a call of the records leaves: every record is one that was there, or has been
changed to one that holds what it should. -/
theorem Kept.of_record {c : Idempotency.Command} {ω : Draw} (h : Kept env w)
    (hrows : ∀ record ∈ (Idempotency.exec env.column ω.record c w.idempotency).2.records.rows,
      record ∈ w.idempotency.records.rows ∨ Justified env w record) :
    Kept env (exec env ω (.record c) w).2 := fun record hrecord =>
  (Or.elim (hrows record hrecord) (h record) id).grows (grows_exec env ω (.record c) w)

theorem key_eq {k endpoint : JsString}
    (h : (endpoint, k) = (r.endpoint.path, r.idempotencyKey.getD []))
    (hk : r.idempotencyKey.isSome) : endpoint = r.endpoint.path ∧ r.idempotencyKey = some k := by
  obtain ⟨key, hkey⟩ := Option.isSome_iff_exists.1 hk
  obtain ⟨rfl, rfl⟩ := Prod.mk.inj h
  rw [hkey]
  exact ⟨rfl, rfl⟩

/-- A call that reads the records. -/
theorem Kept.read {c : Idempotency.Command} {ω : Draw} (h : Kept env w)
    (hsame : (Idempotency.exec env.column ω.record c w.idempotency).2 = w.idempotency) :
    Kept env (exec env ω (.record c) w).2 :=
  h.of_record fun record hrecord => Or.inl (by rwa [hsame] at hrecord)

/-- A patch after which the record is not COMPLETED. -/
theorem Kept.patched {c : Idempotency.Command} {p : Idempotency.Patch} {ω : Draw}
    (h : Kept env w) (hc : c = .update id p ∨ c = .save id p)
    (hp : ∀ old, (p.apply env.column ω.record.now old).status ≠ .completed) :
    Kept env (exec env ω (.record c) w).2 :=
  h.of_record fun record hrecord => (mem_exec_update hc hrecord).imp_right fun hpatched => by
    obtain ⟨old, -, rfl⟩ := hpatched
    exact fun hstatus => absurd hstatus (hp old)

/-- The result of a request that owns the record. -/
theorem Owns.earned (h : Owns env r w id) (hr : r ∈ w.received) {request : WriteRequest}
    (hrequest : accept env.validators r.endpoint r.body = some request)
    (hperformed : Performed env.arith w request result) :
    ∃ record, w.idempotency.records.find? id = some record ∧
      r.idempotencyKey = some record.idempotencyKey ∧ record.endpoint = r.endpoint.path ∧
      record.requestHash = env.requestHash r.endpoint r.body ∧
      Earned env w (r.endpoint.path, record.idempotencyKey)
        (env.requestHash r.endpoint r.body) result := by
  obtain ⟨record, hrecord, hindex, hhash⟩ := h
  obtain ⟨hendpoint, hkey⟩ := Prod.mk.inj hindex
  exact ⟨record, hrecord, hkey.symm, hendpoint, hhash, r, hr, by rw [← hkey], rfl, request,
    hrequest, hperformed⟩

/-- **A call of the records keeps what they say.** -/
theorem Kept.call {c : Idempotency.Command} {ω : Draw} (h : Kept env w) (hr : r ∈ w.received)
    (hq : q.Knows env r w)
    (hc : q.Allows (r.endpoint.path, r.idempotencyKey.getD [])
      (env.requestHash r.endpoint r.body) c)
    (hop : ∀ endpoint key, c ≠ .operation endpoint key) :
    Kept env (exec env ω (.record c) w).2 := by
  cases hc with
  | operate id hkey => exact absurd rfl (hop _ _)
  | find hindex hk => exact h.read (exec_findOne rfl).1
  | race hindex => exact h.read (exec_findOne rfl).1
  | reload hindex => exact h.read (exec_findOneOrFail rfl).1
  | reclaim id => exact h.patched (Or.inl rfl) fun old => by nofun
  | fail id normalized => exact h.patched (Or.inr rfl) fun old => by nofun
  | insert hindex =>
      refine h.of_record fun record hrecord => (mem_exec_insert hrecord).imp_right ?_
      rintro rfl hstatus
      cases hstatus
  | complete id result =>
      obtain ⟨howns, request, hrequest, hperformed⟩ := hq
      obtain ⟨owned, howned, -, hendpoint, hhash, hearned⟩ := howns.earned hr hrequest hperformed
      refine h.of_record fun record hrecord => (mem_exec_update (Or.inr rfl) hrecord).imp_right ?_
      rintro ⟨old, hold, rfl⟩ -
      obtain rfl := Option.some.inj (howned.symm.trans hold)
      refine ⟨result, ?_, rfl, rfl, rfl⟩
      show Earned env w (owned.endpoint, owned.idempotencyKey) owned.requestHash result
      rw [hendpoint, hhash]
      exact hearned

/-- What the first lookup tells. -/
theorem Kept.knows_found (h : Kept env w) {k : JsString} (hkey : r.idempotencyKey = some k)
    (hlookup : w.idempotency.records.lookup (r.endpoint.path, k) = some record) :
    (RequestStage.found (env.requestHash r.endpoint r.body) record).Knows env r w := by
  unfold RequestStage.found
  split_ifs with hhash hreplay hprocessing
  · trivial
  · exact truthful_of_lookup hkey hlookup (not_not.1 hhash) hreplay
      (h record (IndexedTable.lookup_eq_some hlookup).1)
  · trivial
  · exact owns_of_lookup hkey hlookup (not_not.1 hhash)

/-- What the lookup after a failed insert tells. -/
theorem Kept.knows_overtaken (h : Kept env w) {k : JsString} (hkey : r.idempotencyKey = some k)
    (hlookup : w.idempotency.records.lookup (r.endpoint.path, k) = some record) :
    (RequestStage.overtaken (env.requestHash r.endpoint r.body) record).Knows env r w := by
  unfold RequestStage.overtaken
  split_ifs with hhash hreplay
  · trivial
  · exact truthful_of_lookup hkey hlookup (not_not.1 hhash) hreplay
      (h record (IndexedTable.lookup_eq_some hlookup).1)
  · trivial

/-- The record a request has claimed is the only one with its key. -/
theorem Owns.reloaded (h : Owns env r w id) {k : JsString} (hkey : r.idempotencyKey = some k)
    (hlookup : w.idempotency.records.lookup (r.endpoint.path, k) = some record) :
    Owns env r w record.id := by
  obtain ⟨owned, howned, hindex, hhash⟩ := h
  obtain ⟨hendpoint, hk⟩ := Prod.mk.inj hindex
  rw [hkey] at hk
  obtain ⟨hmem, hindex'⟩ := IndexedTable.lookup_eq_some hlookup
  have he : record = owned := IndexedTable.eq_of_index_eq hmem (Table.find?_eq_some howned).1
    (hindex'.trans (Prod.ext hendpoint.symm (Option.some.inj hk).symm))
  exact owns_of_lookup hkey hlookup (he ▸ hhash)

/-- **What a request knows after a call of the records.** -/
theorem knows_record {c : Idempotency.Command} {ω : Draw} (h : Kept env w) (hr : r ∈ w.received)
    (hq : q.Knows env r w)
    (hc : q.Allows (r.endpoint.path, r.idempotencyKey.getD [])
      (env.requestHash r.endpoint r.body) c)
    (hop : ∀ endpoint key, c ≠ .operation endpoint key) :
    (q.next (env.requestHash r.endpoint r.body) c
      (exec env ω (.record c) w).1).Knows env r (exec env ω (.record c) w).2 := by
  have hgrows := grows_exec env ω (.record c) w
  have hsettled : (exec env ω (.record c) w).1 =
      (Idempotency.exec env.column ω.record c w.idempotency).1 := rfl
  have hworld : (exec env ω (.record c) w).2.idempotency =
      (Idempotency.exec env.column ω.record c w.idempotency).2 := rfl
  rw [hsettled]
  cases hx : Idempotency.exec env.column ω.record c w.idempotency with
  | mk settled w' =>
  rw [hx] at hworld
  change _ = w' at hworld
  cases hc with
  | operate id hkey => exact absurd rfl (hop _ _)
  | @find endpoint k hindex hk =>
      have hsome : r.idempotencyKey.isSome := by
        cases he : r.idempotencyKey with
        | none => rw [he] at hindex; exact absurd (Prod.mk.inj hindex).2 hk
        | some k => rfl
      obtain ⟨rfl, hkey⟩ := key_eq hindex hsome
      refine RequestStage.Knows.grows ?_ hgrows
      cases settled with
      | error e => trivial
      | ok found =>
          cases found with
          | none => exact hsome
          | some record => exact h.knows_found hkey ((exec_findOne hx).2 record rfl)
  | @race endpoint k hindex =>
      obtain ⟨rfl, hkey⟩ := key_eq hindex hq
      refine RequestStage.Knows.grows ?_ hgrows
      cases settled with
      | error e => trivial
      | ok found =>
          cases found with
          | none => trivial
          | some record => exact h.knows_overtaken hkey ((exec_findOne hx).2 record rfl)
  | reclaim id =>
      cases settled with
      | error e => trivial
      | ok u => exact ⟨id, Owns.grows hq hgrows⟩
  | @insert endpoint k hindex =>
      obtain ⟨rfl, hkey⟩ := key_eq hindex hq
      cases settled with
      | ok u =>
          have hnew := find?_exec_insert hx
          rw [← hworld] at hnew
          exact ⟨ω.record.id, _, hnew, by rw [hkey]; rfl, rfl⟩
      | error e => cases e <;> first | exact hq | trivial
  | @reload endpoint k hindex =>
      obtain ⟨id, howns⟩ := hq
      have hsome : r.idempotencyKey.isSome := by
        obtain ⟨owned, -, hkey, -⟩ := howns
        rw [← (Prod.mk.inj hkey).2]
        rfl
      obtain ⟨rfl, hkey⟩ := key_eq hindex hsome
      refine RequestStage.Knows.grows ?_ hgrows
      cases settled with
      | error e => trivial
      | ok record => exact howns.reloaded hkey ((exec_findOneOrFail hx).2 record rfl)
  | complete id result =>
      obtain ⟨howns, request, hrequest, hperformed⟩ := hq
      cases settled with
      | error e => exact knows_caught (howns.grows hgrows) e
      | ok u =>
          obtain ⟨owned, -, hkey, -, -, hearned⟩ := howns.earned hr hrequest hperformed
          exact ⟨_, result, hkey, hearned.grows hgrows, .refl _⟩
  | fail id normalized => trivial

/-- What the other calls leave of the records. -/
theorem Kept.of_eq {c : Command} {ω : Draw} (h : Kept env w)
    (hrecords : (exec env ω c w).2.idempotency = w.idempotency) :
    Kept env (exec env ω c w).2 := by
  intro record hrecord
  rw [hrecords] at hrecord
  exact (h record hrecord).grows (grows_exec env ω c w)

/-- **The operation has done what its result says.** -/
theorem call_operation {ω : Draw} {request : WriteRequest} (hq : Owns env r w id)
    (hrequest : accept env.validators r.endpoint r.body = some request) :
    (RequestStage.performed id (commandOf request) (exec env ω (commandOf request) w).1).Knows env r
      (exec env ω (commandOf request) w).2 := by
  have howns := hq.grows (grows_exec env ω (commandOf request) w)
  cases hx : (exec env ω (commandOf request) w).1 with
  | error e => exact knows_caught howns e
  | ok answer =>
      cases request with
      | createAccount dto =>
          exact ⟨howns, _, hrequest, performed_ledger (r := answer) hx rfl rfl⟩
      | move m => exact ⟨howns, _, hrequest, performed_ledger (r := answer) hx rfl rfl⟩
      | registerWebhook dto =>
          have hsaved : (Webhooks.storageExec ω.webhooks (.saveSubscription (newSubscription dto))
            w.webhooks).1 = .ok answer := hx
          exact ⟨howns, _, hrequest, performed_webhook hsaved⟩

end Knows

/-! ### Every run -/

/-- What a thread knows. -/
def Stage.Knows (env : Env) (w : World) : Task → Stage → Prop
  | .request r, .request q => r ∈ w.received ∧ q.Knows env r w
  | _, _ => True

/-- The contract of the requests: each knows what it has done. -/
def truth (env : Env) : Pool.Contract (system env) where
  world := Kept env
  knows task q w := q.Knows env w task
  change := World.Grows
  stable task q w w' h hw := by
    cases task with
    | request r =>
        cases q with
        | request q => exact ⟨hw.received h.1, h.2.grows hw⟩
        | _ => trivial
    | _ => trivial
  spawn task w w' h hspawn := by
    have hs := spawned_spawn hspawn
    have hgrows := hs.grows
    refine ⟨fun record hrecord => ?_, hgrows, ?_⟩
    · rw [hs.idempotency] at hrecord
      exact (h record hrecord).grows hgrows
    · cases task with
      | request r =>
          obtain rfl := Option.some.inj hspawn
          exact ⟨List.mem_cons_self .., trivial⟩
      | _ => trivial
  call task q c ω w h hq hallows := by
    have hgrows := grows_exec env ω c w
    cases hallows with
    | record hc hop =>
        exact ⟨Kept.call h hq.1 hq.2 hc hop, hgrows, hgrows.received hq.1,
          knows_record h hq.1 hq.2 hc hop⟩
    | @operate r id request hrequest =>
        have hknows := call_operation (ω := ω) hq.2 hrequest
        cases request <;> exact ⟨h.of_eq rfl, hgrows, hgrows.received hq.1, hknows⟩
    | webhook hc => exact ⟨h.of_eq rfl, hgrows, trivial⟩
    | reconcile hc => exact ⟨h.of_eq rfl, hgrows, trivial⟩

/-- **Every COMPLETED record holds the result of a request that was done.** -/
theorem truth_after (env : Env) (labels : List (Label Task Draw)) :
    Pool.Tracked (system env) (Ended env) (after env labels) ∧
      (truth env).Holds (after env labels).world (after env labels).stages :=
  Pool.rely_guarantee (truth env) (system_follows env) (fun _ h => absurd h List.not_mem_nil) labels

theorem path_injective : Function.Injective Idempotency.WriteEndpoint.path := by
  intro a b h
  cases a <;> cases b <;> first | rfl | exact absurd h (by decide)

/-- What the request asked for has been done, and the body says so. -/
def Honest (env : Env) (w : World) (r : HttpRequest) (body : Json) : Prop :=
  ∃ request result, accept env.validators r.endpoint r.body = some request ∧
    Performed env.arith w request result ∧ body.Same result.body

/-- SHA-256 tells the payloads of the requests that have arrived apart. -/
def Collisionless (env : Env) (w : World) : Prop :=
  ∀ r ∈ w.received, ∀ r' ∈ w.received,
    env.sha256 (Api.payloadBytes env.validators r.endpoint r.body) =
        env.sha256 (Api.payloadBytes env.validators r'.endpoint r'.body) →
      Api.payloadBytes env.validators r.endpoint r.body =
        Api.payloadBytes env.validators r'.endpoint r'.body

theorem collisionless_of_injective {env : Env} (hsha256 : Function.Injective env.sha256)
    (w : World) : Collisionless env w := fun _ _ _ _ h => hsha256 h

/-- The result of a request with the same hash is one of the request itself. -/
theorem Truthful.honest {env : Env} {w : World} (hsha256 : Collisionless env w)
    {r : HttpRequest} (hr : r ∈ w.received) {body : Json} (h : Truthful env w r body)
    (haccept : (accept env.validators r.endpoint r.body).isSome) : Honest env w r body := by
  obtain ⟨key, result, -, ⟨⟨endpoint, key', body'⟩, hmem, hkey, hhash, request, hrequest,
    hperformed⟩, hsame⟩ := h
  obtain ⟨request', hrequest'⟩ := Option.isSome_iff_exists.1 haccept
  obtain rfl : endpoint = r.endpoint := path_injective (Prod.mk.inj hkey).1
  obtain rfl := Api.accept_eq_of_requestHash_eq (hsha256 _ hmem r hr) hrequest hrequest' hhash
  exact ⟨request, result, hrequest', hperformed, hsame⟩

theorem Honest.grows {env : Env} {w w' : World} {r : HttpRequest} {body : Json}
    (h : Honest env w r body) (hw : w.Grows w') : Honest env w' r body := by
  obtain ⟨request, result, hrequest, hperformed, hsame⟩ := h
  exact ⟨request, result, hrequest, hperformed.grows hw, hsame⟩

/-- A request that has been answered has been done. -/
theorem Answered.honest {env : Env} {labels : List (Label Task Draw)}
    (hsha256 : Collisionless env (after env labels).world) {r : HttpRequest} {body : Json}
    (h : Answered (after env labels) r body) : Honest env (after env labels).world r body := by
  obtain ⟨htracked, -, hknows⟩ := truth_after env labels
  obtain ⟨hstage, haccept⟩ := h.stage htracked
  obtain ⟨hr, htruthful⟩ : _ ∧ Truthful env (after env labels).world r body := hknows _ hstage
  exact htruthful.honest hsha256 hr haccept

/-- **Whatever a client is answered is true**, and stays true.  The first answer to a
request and every replay of it say what is in the tables. -/
theorem answers_truthful {env : Env} {labels : List (Label Task Draw)}
    (hsha256 : Collisionless env (after env labels).world) (later : List (Label Task Draw))
    {r : HttpRequest} {body : Json} (h : Answered (after env labels) r body) :
    Honest env (after env (labels ++ later)).world r body :=
  (h.honest hsha256).grows (grows_after env labels later)

theorem answers_truthful_opening :
    Honest sampleEnv (after sampleEnv (opened ++ served 1 "2" deposit)).world opening openedBody :=
  answers_truthful (collisionless_of_injective Idempotency.sampleSha256_injective _)
    (served 1 "2" deposit) opening_answered

end Engine
end LedgerEngine
