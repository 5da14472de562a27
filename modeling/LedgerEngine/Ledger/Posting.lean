/-
# Every accepted movement is a posting

Double entry in one word: an amount leaves one party and arrives at another,
each an account or the world outside (`Posting`).  A posting has its
transaction row, its new balances and its two ledger entries, and `posted` is
the state after it.

`Movement.accepted` is what the three services can do at all, said once: where
`deposit`, `withdraw` or `transfer` returns, there is a posting that fits the
request and the accounts of the state (`Posting.Valid`), the keys drawn were
new, the new state is `posted` and the answer is that of its transaction row.
Every invariant of the ledger is proved from it, never by opening a service
again.
-/

import LedgerEngine.Ledger.Services

namespace LedgerEngine
namespace Ledger

/-- A side of a posting: an account as the transaction read it, or the world
outside. -/
inductive Party : Type
  | account (a : AccountEntity)
  | external

namespace Party

def accountId : Party → Option Uuid
  | .account a => some a.id
  | .external => none

def ledgerAccount : Party → Option JsString
  | .account _ => none
  | .external => some externalSettlement

/-- The account with its balance changed to `balance`. -/
def withBalance (balance : ℤ → ℤ) : Party → List AccountEntity
  | .account a => [{ a with balance := balance a.balance }]
  | .external => []

end Party

/-- An amount that leaves `debit` and arrives at `credit`. -/
structure Posting where
  type : TransactionType
  amount : ℤ
  currency : JsString
  description : Option JsString
  debit : Party
  credit : Party

namespace Posting

/-- The row the movement inserts first, still PENDING. -/
def newTransaction (p : Posting) : NewTransaction where
  type := p.type
  status := .pending
  amount := p.amount
  currency := p.currency
  fromAccountId := p.debit.accountId
  toAccountId := p.credit.accountId
  description := p.description

/-- The row it leaves. -/
def transaction (p : Posting) (d : Draws) : TransactionEntity :=
  { p.newTransaction.row d with status := .completed, completedAt := some d.clock }

/-- The ledger entry of one side. -/
def leg (p : Posting) (transactionId : Uuid) (type : LedgerEntryType) (party : Party) :
    NewLedgerEntry where
  transactionId := transactionId
  accountId := party.accountId
  ledgerAccount := party.ledgerAccount
  entryType := type
  amount := p.amount
  currency := p.currency

/-- The two entries, in the order the service lists them. -/
def newEntries (p : Posting) (transactionId : Uuid) : List NewLedgerEntry :=
  match p.type with
  | .deposit => [p.leg transactionId .credit p.credit, p.leg transactionId .debit p.debit]
  | _ => [p.leg transactionId .debit p.debit, p.leg transactionId .credit p.credit]

/-- The rows of the two entries. -/
def entries (p : Posting) (d : Draws) : List LedgerEntryEntity :=
  entryRows d (p.newEntries d.transactionId)

/-- The accounts with their new balances, the debited one first. -/
def accounts (ar : Arith) (p : Posting) : List AccountEntity :=
  p.debit.withBalance (fun b => ar.round (b - p.amount)) ++
    p.credit.withBalance fun b => ar.round (b + p.amount)

/-- The event it leaves. -/
def event (p : Posting) (d : Draws) : OutboxEventEntity where
  id := d.outboxEventId
  aggregateType := js "transaction"
  aggregateId := d.transactionId
  eventType := js "transaction.completed"
  payload := {
    transactionId := d.transactionId
    type := p.type
    amount := p.amount
    currency := p.currency
    fromAccountId := p.debit.accountId
    toAccountId := p.credit.accountId
    completedAt := some d.clock }
  status := .pending
  retryCount := 0
  nextRetryAt := none
  publishedAt := none
  transactionId := d.transactionId
  createdAt := d.startedAt
  updatedAt := d.startedAt

/-- The posting the tables keep: its amount is the one the columns hold. -/
def stored (ar : Arith) (p : Posting) : Posting := { p with amount := ar.column p.amount }

@[simp] theorem amount_stored (ar : Arith) (p : Posting) :
    (p.stored ar).amount = ar.column p.amount := rfl

@[simp] theorem debit_stored (ar : Arith) (p : Posting) : (p.stored ar).debit = p.debit := rfl

@[simp] theorem credit_stored (ar : Arith) (p : Posting) : (p.stored ar).credit = p.credit := rfl

@[simp] theorem stored_exact (storable : ℤ → Bool) (p : Posting) :
    p.stored (.exact storable) = p := rfl

/-- The rows of its entries are the stored ones. -/
theorem map_stored_entries (ar : Arith) (p : Posting) (d : Draws) :
    (p.entries d).map (storedEntry ar) = (p.stored ar).entries d := by
  cases ht : p.type <;> simp [entries, newEntries, entryRows, stored, ht] <;> exact ⟨rfl, rfl⟩

/-- The ids of its entries do not depend on the amount. -/
theorem map_id_stored (ar : Arith) (p : Posting) (d : Draws) :
    ((p.stored ar).entries d).map LedgerEntryEntity.id =
      (p.entries d).map LedgerEntryEntity.id := by
  rw [← map_stored_entries, List.map_map]
  rfl

/-- The row a locked read of `a` gives the service. -/
def read (ar : Arith) (a : AccountEntity) : AccountEntity :=
  { a with balance := ar.round a.balance }

/-- The party is the world outside, or an active account of the state in the
posting's currency, as a locked read gives it. -/
def Reads (ar : Arith) (db : Db) (p : Posting) (party : Party) : Prop :=
  ∀ a, party = .account a → ∃ row, db.accounts.find? a.id = some row ∧ a = read ar row ∧
    a.status = .active ∧ a.currency = p.currency

/-- The type says which sides are accounts. -/
def Shaped (p : Posting) : Prop :=
  match p.type with
  | .deposit => p.debit = .external ∧ ∃ b, p.credit = .account b
  | .withdrawal => (∃ a, p.debit = .account a) ∧ p.credit = .external
  | .transfer => (∃ a, p.debit = .account a) ∧ ∃ b, p.credit = .account b

/-- What the services have checked of a posting they make. -/
structure Valid (ar : Arith) (db : Db) (p : Posting) : Prop where
  amount_min : 1 ≤ p.amount
  debit_reads : p.Reads ar db p.debit
  credit_reads : p.Reads ar db p.credit
  funds : ∀ a, p.debit = .account a → p.amount ≤ a.balance
  distinct : ∀ a b, p.debit = .account a → p.credit = .account b → a.id ≠ b.id
  shape : p.Shaped

/-- The keys drawn for a posting are not in the tables yet. -/
structure NewKeys (db : Db) (d : Draws) (p : Posting) : Prop where
  transaction : db.transactions.find? d.transactionId = none
  entries_nodup : ((p.entries d).map LedgerEntryEntity.id).Nodup
  entries : ∀ e ∈ p.entries d, db.ledgerEntries.find? e.id = none
  event : db.outboxEvents.find? d.outboxEventId = none

/-- The keys of the posting the tables keep are its own. -/
theorem NewKeys.stored {ar : Arith} {d : Draws} {db : Db} {p : Posting} (hk : p.NewKeys db d) :
    (p.stored ar).NewKeys db d where
  transaction := hk.transaction
  entries_nodup := (map_id_stored ar p d).symm ▸ hk.entries_nodup
  entries e he := by
    rw [← map_stored_entries] at he
    obtain ⟨e₀, he₀, rfl⟩ := List.mem_map.1 he
    exact hk.entries e₀ he₀
  event := hk.event

/-- The state after a posting. -/
def posted (ar : Arith) (d : Draws) (p : Posting) (db : Db) : Db where
  accounts := (p.accounts ar).foldl
    (fun t a => t.put (storedAccount ar { a with updatedAt := d.startedAt })) db.accounts
  transactions := db.transactions.insert ((p.stored ar).transaction d)
  ledgerEntries := db.ledgerEntries.insertAll ((p.stored ar).entries d)
  outboxEvents := db.outboxEvents.insert ((p.stored ar).event d)

/-- The entries after a posting. -/
theorem ledgerEntries_posted {ar : Arith} {d : Draws} {db : Db} {p : Posting}
    (hk : p.NewKeys db d) :
    (p.posted ar d db).ledgerEntries.rows =
      db.ledgerEntries.rows ++ (p.stored ar).entries d :=
  Table.rows_insertAll hk.stored.entries_nodup hk.stored.entries

/-- An entry of a posting is the leg of one of its sides. -/
theorem exists_of_mem_entries {d : Draws} {p : Posting} {e : LedgerEntryEntity}
    (h : e ∈ p.entries d) :
    ∃ i, e = (p.leg d.transactionId .debit p.debit).row d i ∨
      e = (p.leg d.transactionId .credit p.credit).row d i := by
  cases ht : p.type <;>
    simp only [entries, newEntries, entryRows, ht, List.zipIdx_cons, List.zipIdx_nil, List.map_cons,
      List.map_nil, List.mem_cons, List.not_mem_nil, or_false] at h <;>
    rcases h with rfl | rfl
  · exact ⟨0, Or.inr rfl⟩
  · exact ⟨1, Or.inl rfl⟩
  · exact ⟨0, Or.inl rfl⟩
  · exact ⟨1, Or.inr rfl⟩
  · exact ⟨0, Or.inl rfl⟩
  · exact ⟨1, Or.inr rfl⟩

end Posting

/-! ### What each statement does when it succeeds -/

section Statements

variable {ar : Arith} {d : Draws} {db db' : Db}

theorem eval_findAccountForUpdate (id : Uuid) :
    (findAccountForUpdate id).eval ((statements ar).handler d) db =
      (.ok ((db.accounts.find? id).map (Posting.read ar)), db) :=
  Prog.eval_await ..

theorem eval_insertTransaction_ok {t : NewTransaction} {row : TransactionEntity}
    (h : (insertTransaction t).eval ((statements ar).handler d) db = (.ok row, db')) :
    db.transactions.find? d.transactionId = none ∧ row = t.row d ∧
      db' = { db with
        transactions := db.transactions.insert (storedTransaction ar (t.row d)) } := by
  rw [insertTransaction, Prog.eval_await] at h
  simp only [TwoPhase.Statements.handler, statements, exec] at h
  split_ifs at h with hdup hfit
  · simp at h
  · obtain ⟨h₁, h₂⟩ := Prod.mk.inj h
    exact ⟨by simpa using hdup, (Except.ok.inj h₁).symm, h₂.symm⟩
  · simp at h

theorem eval_saveAccount_ok {a r : AccountEntity}
    (h : (saveAccount a).eval ((statements ar).handler d) db = (.ok r, db')) :
    db' = { db with
      accounts := db.accounts.put (storedAccount ar { a with updatedAt := d.startedAt }) } := by
  rw [saveAccount, Prog.eval_await] at h
  simp only [TwoPhase.Statements.handler, statements, exec] at h
  split_ifs at h with hfit
  · exact (Prod.mk.inj h).2.symm
  · simp at h

theorem eval_saveAccounts_ok {accounts : List AccountEntity} {u : Unit}
    (h : (saveAccounts accounts).eval ((statements ar).handler d) db = (.ok u, db')) :
    db' = { db with
      accounts := accounts.foldl
        (fun t a => t.put (storedAccount ar { a with updatedAt := d.startedAt }))
        db.accounts } := by
  induction accounts generalizing db with
  | nil => exact (Prod.mk.inj h).2.symm
  | cons a accounts ih =>
      obtain ⟨r, db₁, h₁, h₂⟩ := Prog.eval_bind_ok h
      rw [ih h₂, eval_saveAccount_ok h₁, List.foldl_cons]

theorem applyAll_addLedgerEntry (ar : Arith) (es : List LedgerEntryEntity) (db : Db) :
    (statements ar).applyAll (es.map .addLedgerEntry) db =
      { db with ledgerEntries := db.ledgerEntries.insertAll es } := by
  induction es generalizing db with
  | nil => rfl
  | cons e es ih =>
      have hcons : (statements ar).applyAll ((e :: es).map .addLedgerEntry) db =
          (statements ar).applyAll (es.map .addLedgerEntry)
            { db with ledgerEntries := db.ledgerEntries.insert e } := rfl
      rw [hcons, ih]
      rfl

theorem eval_createEntries_ok {es : List NewLedgerEntry} {rows : List LedgerEntryEntity}
    (h : (createEntries ar es).eval ((statements ar).handler d) db = (.ok rows, db')) :
    ((entryRows d es).map LedgerEntryEntity.id).Nodup ∧
      (∀ e ∈ entryRows d es, db.ledgerEntries.find? e.id = none) ∧
      db' = { db with ledgerEntries :=
        db.ledgerEntries.insertAll ((entryRows d es).map (storedEntry ar)) } := by
  unfold createEntries at h
  dsimp only at h
  split_ifs at h with hne
  · simp at h
  · rw [insertLedgerEntries, Prog.eval_await] at h
    simp only [TwoPhase.Statements.handler, statements, exec] at h
    split_ifs at h with hnew hfit
    · have h₂ := (Prod.mk.inj h).2
      refine ⟨hnew.1, hnew.2, h₂.symm.trans ?_⟩
      rw [← applyAll_addLedgerEntry ar, List.map_map]
      rfl
    · simp at h
    · simp at h

theorem eval_saveTransaction_ok {t row : TransactionEntity}
    (h : (saveTransaction t).eval ((statements ar).handler d) db = (.ok row, db')) :
    row = t ∧ db' = { db with transactions := db.transactions.put (storedTransaction ar t) } := by
  rw [saveTransaction, Prog.eval_await] at h
  simp only [TwoPhase.Statements.handler, statements, exec] at h
  split_ifs at h with hfit
  · obtain ⟨h₁, h₂⟩ := Prod.mk.inj h
    exact ⟨(Except.ok.inj h₁).symm, h₂.symm⟩
  · simp at h

theorem eval_insertOutboxEvent_ok {e : NewOutboxEvent} {row : OutboxEventEntity}
    (h : (insertOutboxEvent e).eval ((statements ar).handler d) db = (.ok row, db')) :
    db.outboxEvents.find? d.outboxEventId = none ∧
      db' = { db with
        outboxEvents := db.outboxEvents.insert (storedEvent ar (e.row d)) } := by
  rw [insertOutboxEvent, Prog.eval_await] at h
  simp only [TwoPhase.Statements.handler, statements, exec] at h
  split_ifs at h with hdup
  · simp at h
  · exact ⟨by simpa using hdup, (Prod.mk.inj h).2.symm⟩

/-- **The tail of a movement makes its posting.** -/
theorem eval_recordMovement_ok {p : Posting} {r : TransactionResponse}
    (h : (recordMovement ar p.newTransaction (p.accounts ar) p.newEntries).eval
      ((statements ar).handler d) db = (.ok r, db')) :
    p.NewKeys db d ∧ db' = p.posted ar d db ∧ r = toTransactionResponse (p.transaction d) := by
  obtain ⟨t, db₁, h₁, h⟩ := Prog.eval_bind_ok h
  obtain ⟨ht, rfl, rfl⟩ := eval_insertTransaction_ok h₁
  obtain ⟨_, db₂, h₂, h⟩ := Prog.eval_bind_ok h
  obtain rfl := eval_saveAccounts_ok h₂
  obtain ⟨_, db₃, h₃, h⟩ := Prog.eval_bind_ok h
  obtain ⟨hn, he, rfl⟩ := eval_createEntries_ok h₃
  obtain ⟨now, db₄, h₄, h⟩ := Prog.eval_bind_ok h
  obtain ⟨hnow, rfl⟩ : now = d.clock ∧ db₄ = _ := by
    rw [newDate, Prog.eval_await] at h₄
    obtain ⟨h₁, h₂⟩ := Prod.mk.inj h₄
    exact ⟨(Except.ok.inj h₁).symm, h₂.symm⟩
  obtain ⟨saved, db₅, h₅, h⟩ := Prog.eval_bind_ok h
  obtain ⟨rfl, rfl⟩ := eval_saveTransaction_ok h₅
  obtain ⟨_, db₆, h₆, h⟩ := Prog.eval_bind_ok h
  obtain ⟨hv, rfl⟩ := eval_insertOutboxEvent_ok h₆
  obtain ⟨h₇, h₈⟩ := Prod.mk.inj h
  subst hnow
  refine ⟨⟨ht, hn, he, hv⟩, ?_, (Except.ok.inj h₇).symm⟩
  rw [← h₈]
  refine Db.ext rfl ?_ ?_ rfl
  · exact Table.put_insert ht rfl
  · exact congrArg db.ledgerEntries.insertAll (Posting.map_stored_entries ar p d)

theorem eval_assertActiveAccount_ok {a : AccountEntity} {u : Unit}
    (h : (assertActiveAccount a).eval ((statements ar).handler d) db = (.ok u, db')) :
    a.status = .active ∧ db = db' := by
  unfold assertActiveAccount at h
  split_ifs at h with hs
  · simp at h
  · exact ⟨not_not.1 hs, (Prod.mk.inj h).2⟩

theorem eval_assertCurrency_ok {accountCurrency requestCurrency : JsString} {u : Unit}
    (h : (assertCurrency accountCurrency requestCurrency).eval ((statements ar).handler d) db =
      (.ok u, db')) : accountCurrency = requestCurrency ∧ db = db' := by
  unfold assertCurrency at h
  split_ifs at h with hc
  · simp at h
  · exact ⟨not_not.1 hc, (Prod.mk.inj h).2⟩

theorem eval_assertSufficientFunds_ok {balance amount : ℤ} {u : Unit}
    (h : (assertSufficientFunds balance amount).eval ((statements ar).handler d) db =
      (.ok u, db')) : amount ≤ balance ∧ db = db' := by
  unfold assertSufficientFunds at h
  split_ifs at h with hb
  · simp at h
  · exact ⟨not_lt.1 hb, (Prod.mk.inj h).2⟩

/-- The rows a locked query for several ids gives, in the order of the ids. -/
theorem eval_lockRows (ids : List Uuid) :
    (lockRows ids).eval ((statements ar).handler d) db =
      (.ok (ids.filterMap fun id => (db.accounts.find? id).map (Posting.read ar)), db) := by
  induction ids with
  | nil => rfl
  | cons id ids ih =>
      rw [lockRows, Prog.bind_eq, Prog.eval_bind, eval_findAccountForUpdate]
      dsimp only
      rw [Prog.bind_eq, Prog.eval_bind, ih, List.filterMap_cons]
      cases (db.accounts.find? id).map (Posting.read ar) <;> rfl

/-- An account a locked query gave is the row of the state under its own id. -/
theorem find?_of_mem_lockRows {ids : List Uuid} {a : AccountEntity}
    (h : a ∈ ids.filterMap fun id => (db.accounts.find? id).map (Posting.read ar)) :
    ∃ row, db.accounts.find? a.id = some row ∧ a = Posting.read ar row := by
  obtain ⟨id, -, h⟩ := List.mem_filterMap.1 h
  obtain ⟨row, hrow, rfl⟩ := Option.map_eq_some_iff.1 h
  obtain ⟨-, rfl⟩ := Table.find?_eq_some hrow
  exact ⟨row, hrow, rfl⟩

end Statements

/-! ### What an accepted movement is -/

namespace Movement

def type : Movement → TransactionType
  | .deposit _ => .deposit
  | .withdraw _ => .withdrawal
  | .transfer _ => .transfer

def amount : Movement → ℤ
  | .deposit dto | .withdraw dto => dto.amount
  | .transfer dto => dto.amount

def currency : Movement → JsString
  | .deposit dto | .withdraw dto => dto.currency
  | .transfer dto => dto.currency

def description : Movement → Option JsString
  | .deposit dto | .withdraw dto => dto.description.join
  | .transfer dto => dto.description.join

def fromAccountId : Movement → Option Uuid
  | .deposit _ => none
  | .withdraw dto => some (.ofText dto.accountId)
  | .transfer dto => some (.ofText dto.fromAccountId)

def toAccountId : Movement → Option Uuid
  | .deposit dto => some (.ofText dto.accountId)
  | .withdraw _ => none
  | .transfer dto => some (.ofText dto.toAccountId)

end Movement

/-- The posting is the one the request asks for. -/
structure Posting.Fits (p : Posting) (m : Movement) : Prop where
  type : p.type = m.type
  amount : p.amount = m.amount
  currency : p.currency = m.currency
  description : p.description = m.description
  debit : p.debit.accountId = m.fromAccountId
  credit : p.credit.accountId = m.toAccountId

/-- What is known of a movement that returned `r` and left `db'`. -/
structure Accepted (ar : Arith) (m : Movement) (d : Draws) (db : Db) (p : Posting)
    (r : TransactionResponse) (db' : Db) : Prop where
  fits : p.Fits m
  valid : p.Valid ar db
  newKeys : p.NewKeys db d
  state : db' = p.posted ar d db
  answer : r = toTransactionResponse (p.transaction d)

section Movements

variable {ar : Arith} {d : Draws} {db db' : Db} {r : TransactionResponse}

/-- The party whose row was read under lock and passed the checks. -/
theorem Posting.reads_account {p : Posting} {a row : AccountEntity}
    (hrow : db.accounts.find? a.id = some row) (hread : a = Posting.read ar row)
    (hs : a.status = .active) (hc : a.currency = p.currency) : p.Reads ar db (.account a) := by
  rintro b hb
  obtain rfl := Party.account.inj hb
  exact ⟨row, hrow, hread, hs, hc⟩

theorem Posting.reads_external (p : Posting) : p.Reads ar db .external :=
  fun _ h => Party.noConfusion h

/-- What a movement of one account begins with: it finds it, active and in its currency. -/
theorem eval_oneAccount_ok {e : Exception} {id : Uuid} {currency : JsString}
    {f : AccountEntity → Query TransactionResponse}
    (h : (do
      let some account ← findAccountForUpdate id | throw e
      assertActiveAccount account
      assertCurrency account.currency currency
      f account : Query TransactionResponse).eval ((statements ar).handler d) db = (.ok r, db')) :
    ∃ row, db.accounts.find? row.id = some row ∧ row.id = id ∧ row.status = .active ∧
      row.currency = currency ∧
        (f (Posting.read ar row)).eval ((statements ar).handler d) db = (.ok r, db') := by
  obtain ⟨found, db₁, h₁, h⟩ := Prog.eval_bind_ok h
  rw [eval_findAccountForUpdate, Prod.mk.injEq, Except.ok.injEq] at h₁
  obtain ⟨rfl, rfl⟩ := h₁
  cases hrow : db.accounts.find? id with
  | none => rw [hrow] at h; simp at h
  | some row =>
      rw [hrow] at h
      obtain ⟨_, _, h₂, h⟩ := Prog.eval_bind_ok h
      obtain ⟨hs, rfl⟩ := eval_assertActiveAccount_ok h₂
      obtain ⟨_, _, h₃, h⟩ := Prog.eval_bind_ok h
      obtain ⟨hc, rfl⟩ := eval_assertCurrency_ok h₃
      have hid : row.id = id := (Table.find?_eq_some hrow).2
      exact ⟨row, hid ▸ hrow, hid, hs, hc, h⟩

theorem deposit_accepted {dto : DepositDto}
    (h : (Ledger.deposit ar dto).eval ((statements ar).handler d) db = (.ok r, db')) :
    ∃ p, Accepted ar (.deposit dto) d db p r db' := by
  obtain ⟨row, hrow, hid, hs, hc, h⟩ := eval_oneAccount_ok h
  let p : Posting := {
    type := .deposit, amount := dto.amount, currency := dto.currency
    description := dto.description.join, debit := .external
    credit := .account (Posting.read ar row) }
  obtain ⟨hk, hdb, hr⟩ := @eval_recordMovement_ok ar d db db' p r h
  refine ⟨p, ⟨rfl, rfl, rfl, rfl, rfl, congrArg some hid⟩, ⟨dto.amount_min,
    p.reads_external, Posting.reads_account hrow rfl hs hc, ?_, ?_,
    rfl, _, rfl⟩, hk, hdb, hr⟩
  · rintro a ⟨⟩
  · rintro a b ⟨⟩

theorem withdraw_accepted {dto : WithdrawDto}
    (h : (Ledger.withdraw ar dto).eval ((statements ar).handler d) db = (.ok r, db')) :
    ∃ p, Accepted ar (.withdraw dto) d db p r db' := by
  obtain ⟨row, hrow, hid, hs, hc, h⟩ := eval_oneAccount_ok h
  obtain ⟨_, _, h₁, h⟩ := Prog.eval_bind_ok h
  obtain ⟨hb, rfl⟩ := eval_assertSufficientFunds_ok h₁
  let p : Posting := {
    type := .withdrawal, amount := dto.amount, currency := dto.currency
    description := dto.description.join
    debit := .account (Posting.read ar row), credit := .external }
  obtain ⟨hk, hdb, hr⟩ := @eval_recordMovement_ok ar d db db' p r h
  refine ⟨p, ⟨rfl, rfl, rfl, rfl, congrArg some hid, rfl⟩, ⟨dto.amount_min,
    Posting.reads_account hrow rfl hs hc, p.reads_external, ?_, ?_,
    ⟨_, rfl⟩, rfl⟩, hk, hdb, hr⟩
  · rintro a ha
    obtain rfl := Party.account.inj ha
    exact hb
  · rintro a b - ⟨⟩

theorem transfer_accepted {dto : TransferDto}
    (h : (Ledger.transfer ar dto).eval ((statements ar).handler d) db = (.ok r, db')) :
    ∃ p, Accepted ar (.transfer dto) d db p r db' := by
  unfold Ledger.transfer at h
  split_ifs at h with hsame
  · simp at h
  dsimp only at h
  obtain ⟨found, db₁, h₁, h⟩ := Prog.eval_bind_ok h
  rw [findAccountsForUpdate, eval_lockRows, Prod.mk.injEq, Except.ok.injEq] at h₁
  obtain ⟨hfound, rfl⟩ := h₁
  split_ifs at h with hlen
  · simp at h
  have hmem : ∀ a ∈ found, ∃ row, db.accounts.find? a.id = some row ∧ a = Posting.read ar row :=
    fun a ha => find?_of_mem_lockRows (hfound ▸ ha)
  split at h
  · rename_i a b ha hb
    have hat : a.id.text = dto.fromAccountId := by simpa using List.find?_some ha
    have hbt : b.id.text = dto.toAccountId := by simpa using List.find?_some hb
    obtain ⟨rowA, hrowA, hreadA⟩ := hmem a (List.mem_of_find?_eq_some ha)
    obtain ⟨rowB, hrowB, hreadB⟩ := hmem b (List.mem_of_find?_eq_some hb)
    obtain ⟨_, _, h₂, h⟩ := Prog.eval_bind_ok h
    obtain ⟨hsa, rfl⟩ := eval_assertActiveAccount_ok h₂
    obtain ⟨_, _, h₃, h⟩ := Prog.eval_bind_ok h
    obtain ⟨hsb, rfl⟩ := eval_assertActiveAccount_ok h₃
    obtain ⟨_, _, h₄, h⟩ := Prog.eval_bind_ok h
    obtain ⟨hca, rfl⟩ := eval_assertCurrency_ok h₄
    obtain ⟨_, _, h₅, h⟩ := Prog.eval_bind_ok h
    obtain ⟨hcb, rfl⟩ := eval_assertCurrency_ok h₅
    obtain ⟨_, _, h₆, h⟩ := Prog.eval_bind_ok h
    obtain ⟨hfunds, rfl⟩ := eval_assertSufficientFunds_ok h₆
    let p : Posting := {
      type := .transfer, amount := dto.amount, currency := dto.currency
      description := dto.description.join, debit := .account a, credit := .account b }
    obtain ⟨hk, hdb, hr⟩ := @eval_recordMovement_ok ar d db db' p r h
    refine ⟨p, ⟨rfl, rfl, rfl, rfl, congrArg some (Uuid.ofText_eq_of_text_eq hat).symm,
      congrArg some (Uuid.ofText_eq_of_text_eq hbt).symm⟩, ⟨dto.amount_min,
      Posting.reads_account hrowA hreadA hsa hca, Posting.reads_account hrowB hreadB hsb hcb,
      ?_, ?_, ⟨_, rfl⟩, _, rfl⟩, hk, hdb, hr⟩
    · rintro c hc
      obtain rfl := Party.account.inj hc
      exact hfunds
    · rintro c e hc he hid
      obtain rfl := Party.account.inj hc
      obtain rfl := Party.account.inj he
      exact hsame (hat.symm.trans ((congrArg Uuid.text hid).trans hbt))
  · simp at h

/-- **A movement that returns has made a posting** that fits its request. -/
theorem Movement.accepted {m : Movement}
    (h : (m.body ar).eval ((statements ar).handler d) db = (.ok r, db')) :
    ∃ p, Accepted ar m d db p r db' := by
  cases m with
  | deposit dto => exact deposit_accepted h
  | withdraw dto => exact withdraw_accepted h
  | transfer dto => exact transfer_accepted h

end Movements

/-! ### Faults: no service catches -/

theorem rethrows_saveAccounts (accounts : List AccountEntity) :
    (saveAccounts accounts).Rethrows := by
  induction accounts with
  | nil => trivial
  | cons a accounts ih => exact (Prog.rethrows_await _).bind fun _ => ih

theorem rethrows_createEntries (ar : Arith) (entries : List NewLedgerEntry) :
    (createEntries ar entries).Rethrows := by
  unfold createEntries
  dsimp only
  split_ifs
  · trivial
  · exact Prog.rethrows_await _

theorem rethrows_recordMovement (ar : Arith) (t : NewTransaction) (accounts : List AccountEntity)
    (entries : Uuid → List NewLedgerEntry) :
    (recordMovement ar t accounts entries).Rethrows := by
  refine (Prog.rethrows_await _).bind fun t => ?_
  refine (rethrows_saveAccounts accounts).bind fun _ => ?_
  refine (rethrows_createEntries ar _).bind fun _ => ?_
  refine (Prog.rethrows_await _).bind fun now => ?_
  refine (Prog.rethrows_await _).bind fun saved => ?_
  exact (Prog.rethrows_await _).bind fun _ => trivial

theorem rethrows_assertActiveAccount (a : AccountEntity) : (assertActiveAccount a).Rethrows := by
  unfold assertActiveAccount
  split_ifs <;> trivial

theorem rethrows_assertCurrency (c c' : JsString) : (assertCurrency c c').Rethrows := by
  unfold assertCurrency
  split_ifs <;> trivial

theorem rethrows_assertSufficientFunds (b n : ℤ) : (assertSufficientFunds b n).Rethrows := by
  unfold assertSufficientFunds
  split_ifs <;> trivial

theorem rethrows_lockRows (ids : List Uuid) : (lockRows ids).Rethrows := by
  induction ids with
  | nil => trivial
  | cons id ids ih =>
      exact (Prog.rethrows_await _).bind fun row => ih.bind fun rows => trivial

theorem rethrows_deposit (ar : Arith) (dto : DepositDto) : (Ledger.deposit ar dto).Rethrows := by
  refine (Prog.rethrows_await _).bind fun found => ?_
  cases found with
  | none => trivial
  | some a =>
      refine (rethrows_assertActiveAccount a).bind fun _ => ?_
      refine (rethrows_assertCurrency _ _).bind fun _ => ?_
      exact rethrows_recordMovement ..

theorem rethrows_withdraw (ar : Arith) (dto : WithdrawDto) :
    (Ledger.withdraw ar dto).Rethrows := by
  refine (Prog.rethrows_await _).bind fun found => ?_
  cases found with
  | none => trivial
  | some a =>
      refine (rethrows_assertActiveAccount a).bind fun _ => ?_
      refine (rethrows_assertCurrency _ _).bind fun _ => ?_
      refine (rethrows_assertSufficientFunds _ _).bind fun _ => ?_
      exact rethrows_recordMovement ..

theorem rethrows_transfer (ar : Arith) (dto : TransferDto) :
    (Ledger.transfer ar dto).Rethrows := by
  unfold Ledger.transfer
  split_ifs
  · trivial
  refine (rethrows_lockRows _).bind fun found => ?_
  split_ifs
  · trivial
  dsimp only
  split
  · rename_i a b _ _
    refine (rethrows_assertActiveAccount a).bind fun _ => ?_
    refine (rethrows_assertActiveAccount b).bind fun _ => ?_
    refine (rethrows_assertCurrency _ _).bind fun _ => ?_
    refine (rethrows_assertCurrency _ _).bind fun _ => ?_
    refine (rethrows_assertSufficientFunds _ _).bind fun _ => ?_
    exact rethrows_recordMovement ..
  · trivial

theorem Movement.rethrows (ar : Arith) (m : Movement) : (m.body ar).Rethrows := by
  cases m with
  | deposit dto => exact rethrows_deposit ar dto
  | withdraw dto => exact rethrows_withdraw ar dto
  | transfer dto => exact rethrows_transfer ar dto

/-! ### What a request can do -/

/-- **What a request can do**: fail and leave the state as it was, open an
account with a new id, or make a posting. -/
inductive Served (ar : Arith) (call : Call) (db : Db) : Except Exception Response × Db → Prop
  | failed (e : Exception) : Served ar call db (.error e, db)
  | opened {id : Uuid} {now : Time} {dto : CreateAccountDto} (r : AccountResponse)
      (hcall : call = .createAccount id now dto none) (hid : db.accounts.find? id = none) :
      Served ar call db
        (.ok (.account r), { db with accounts := db.accounts.insert (newAccount id now dto) })
  | moved {m : Movement} {d : Draws} {faults : List (Option Exception)} {p : Posting}
      {r : TransactionResponse} {db' : Db} (hcall : call = .move m d faults none)
      (h : Accepted ar m d db p r db') : Served ar call db (.ok (.transaction r), db')

theorem serve_cases (ar : Arith) (call : Call) (db : Db) :
    Served ar call db (serve ar call db) := by
  cases call with
  | createAccount id now dto fault =>
      cases fault with
      | some e => exact .failed e
      | none =>
          simp only [serve, createAccount]
          split_ifs with hid
          · exact .failed _
          · exact .opened _ rfl (by simpa using hid)
  | move m d faults commitFault =>
      simp only [serve, transactionWithFaults]
      cases hbody : (m.body ar).eval (Prog.faulty ((statements ar).handler d)) (db, faults) with
      | mk answer s =>
          cases answer with
          | error e => exact .failed e
          | ok r =>
              cases commitFault with
              | some e => exact .failed e
              | none =>
                  obtain ⟨p, h⟩ := Movement.accepted ((m.rethrows ar).eval_faulty hbody)
                  exact .moved rfl h

end Ledger
end LedgerEngine
