/-
# When a movement is accepted

`Movement.accepted` says what a movement that returns has done; here is when it
returns.  A deposit needs an active account in its currency whose new balance
the column accepts (`Creditable`), a withdrawal moreover the funds
(`Debitable`), and each of them new keys and a storable amount (`Recordable`).
A transfer needs all of that and one thing more: it matches the rows it locked
with the request by string equality, so both ids must be spelled as the
database returns them (`returns_transfer_iff`).

`Returns` is the weakest precondition of returning, with one rule for each
statement and each check; the three theorems follow the bodies with them.
-/

import LedgerEngine.Ledger.Posting

namespace LedgerEngine
namespace Ledger

/-- Alone in `db` and without faults, the query returns. -/
def Returns {α : Type} (ar : Arith) (d : Draws) (q : Query α) (db : Db) : Prop :=
  ∃ r db', q.eval ((statements ar).handler d) db = (.ok r, db')

/-- The keys a movement draws are not in the tables. -/
structure Draws.New (db : Db) (d : Draws) : Prop where
  transaction : db.transactions.find? d.transactionId = none
  distinct : d.ledgerEntryId 0 ≠ d.ledgerEntryId 1
  first : db.ledgerEntries.find? (d.ledgerEntryId 0) = none
  second : db.ledgerEntries.find? (d.ledgerEntryId 1) = none
  event : db.outboxEvents.find? d.outboxEventId = none

/-- A movement of `amount` finds its keys new and the amount in range. -/
structure Recordable (ar : Arith) (d : Draws) (amount : ℤ) (db : Db) : Prop where
  keys : d.New db
  amount : ar.storable amount

/-- An account that a withdrawal of `amount` in `currency` may be made from. -/
structure Debitable (ar : Arith) (amount : ℤ) (currency : JsString) (row : AccountEntity) :
    Prop where
  status : row.status = .active
  currency : row.currency = currency
  funds : amount ≤ ar.round row.balance
  stored : ar.storable (ar.round (ar.round row.balance - amount))

/-- An account that a deposit of `amount` in `currency` may be made to. -/
structure Creditable (ar : Arith) (amount : ℤ) (currency : JsString) (row : AccountEntity) :
    Prop where
  status : row.status = .active
  currency : row.currency = currency
  stored : ar.storable (ar.round (ar.round row.balance + amount))

section Rules

variable {α β : Type} {ar : Arith} {d : Draws} {db db' : Db}

theorem returns_ret (a : α) : Returns ar d (.ret a) db := ⟨a, db, rfl⟩

theorem not_returns_raise (e : Exception) : ¬ Returns ar d (.raise e : Query α) db := by
  rintro ⟨r, db', h⟩
  simp at h

/-- A sequence whose first half returns. -/
theorem returns_bind {q : Query α} {a : α} (f : α → Query β)
    (h : q.eval ((statements ar).handler d) db = (.ok a, db')) :
    Returns ar d (q.bind f) db ↔ Returns ar d (f a) db' := by
  unfold Returns
  rw [Prog.eval_bind, h]

/-- A sequence whose first half throws. -/
theorem not_returns_bind {q : Query α} {e : Exception} (f : α → Query β)
    (h : q.eval ((statements ar).handler d) db = (.error e, db')) :
    ¬ Returns ar d (q.bind f) db := by
  unfold Returns
  rw [Prog.eval_bind, h]
  simp

theorem returns_assertActiveAccount {a : AccountEntity} (f : Unit → Query β) :
    Returns ar d ((assertActiveAccount a).bind f) db ↔
      a.status = .active ∧ Returns ar d (f ()) db := by
  unfold assertActiveAccount
  split_ifs with hs
  · exact iff_of_false (not_returns_raise _) fun h => hs h.1
  · exact (and_iff_right (not_not.1 hs)).symm

theorem returns_assertCurrency {c c' : JsString} (f : Unit → Query β) :
    Returns ar d ((assertCurrency c c').bind f) db ↔ c = c' ∧ Returns ar d (f ()) db := by
  unfold assertCurrency
  split_ifs with hc
  · exact iff_of_false (not_returns_raise _) fun h => hc h.1
  · exact (and_iff_right (not_not.1 hc)).symm

theorem returns_assertSufficientFunds {balance amount : ℤ} (f : Unit → Query β) :
    Returns ar d ((assertSufficientFunds balance amount).bind f) db ↔
      amount ≤ balance ∧ Returns ar d (f ()) db := by
  unfold assertSufficientFunds
  split_ifs with hb
  · exact iff_of_false (not_returns_raise _) fun h => not_lt.2 h.1 hb
  · exact (and_iff_right (not_lt.1 hb)).symm

theorem returns_insertTransaction {t : NewTransaction} (f : TransactionEntity → Query β) :
    Returns ar d ((insertTransaction t).bind f) db ↔
      (db.transactions.find? d.transactionId = none ∧ ar.storable t.amount) ∧
        Returns ar d (f (t.row d))
          { db with
            transactions := db.transactions.insert (storedTransaction ar (t.row d)) } := by
  have heval : (insertTransaction t).eval ((statements ar).handler d) db = _ := Prog.eval_await ..
  simp only [TwoPhase.Statements.handler, statements, exec] at heval
  by_cases hdup : (db.transactions.find? d.transactionId).isSome
  · rw [if_pos hdup] at heval
    refine iff_of_false (not_returns_bind f heval) fun h => ?_
    rw [h.1.1] at hdup
    exact Bool.noConfusion hdup
  · rw [if_neg hdup] at heval
    by_cases hfit : ar.storable t.amount
    · rw [if_pos hfit] at heval
      exact (returns_bind f heval).trans
        (and_iff_right ⟨Option.not_isSome_iff_eq_none.1 hdup, hfit⟩).symm
    · rw [if_neg hfit] at heval
      exact iff_of_false (not_returns_bind f heval) fun h => hfit h.1.2

theorem returns_saveAccounts {accounts : List AccountEntity} (f : Unit → Query β) :
    Returns ar d ((saveAccounts accounts).bind f) db ↔
      (∀ a ∈ accounts, ar.storable a.balance) ∧
        Returns ar d (f ()) { db with
          accounts := accounts.foldl
            (fun t a => t.put (storedAccount ar { a with updatedAt := d.startedAt }))
            db.accounts } := by
  induction accounts generalizing db with
  | nil => exact (and_iff_right (by simp)).symm
  | cons a accounts ih =>
      have heval : (saveAccount a).eval ((statements ar).handler d) db = _ := Prog.eval_await ..
      simp only [TwoPhase.Statements.handler, statements, exec] at heval
      have hcons : (saveAccounts (a :: accounts)).bind f =
          (saveAccount a).bind fun _ => (saveAccounts accounts).bind f := Prog.bind_assoc ..
      rw [hcons, List.forall_mem_cons, List.foldl_cons]
      by_cases hfit : ar.storable a.balance
      · rw [if_pos hfit] at heval
        rw [returns_bind _ heval, ih, and_iff_right hfit]
        rfl
      · rw [if_neg hfit] at heval
        exact iff_of_false (not_returns_bind _ heval) fun h => hfit h.1.1

end Rules

/-! ### The tail of a movement -/

section Record

variable {ar : Arith} {d : Draws} {db : Db} {p : Posting}

/-- The ids of a posting's entries are the first two drawn. -/
theorem Posting.map_id_entries : (p.entries d).map LedgerEntryEntity.id =
    [d.ledgerEntryId 0, d.ledgerEntryId 1] := by
  cases ht : p.type <;> simp [entries, newEntries, entryRows, ht, NewLedgerEntry.row]

theorem Posting.newKeys_iff : p.NewKeys db d ↔ d.New db := by
  have hmem : (∀ e ∈ p.entries d, db.ledgerEntries.find? e.id = none) ↔
      db.ledgerEntries.find? (d.ledgerEntryId 0) = none ∧
        db.ledgerEntries.find? (d.ledgerEntryId 1) = none := by
    have := List.forall_mem_map (l := p.entries d) (f := LedgerEntryEntity.id)
      (P := fun id => db.ledgerEntries.find? id = none)
    rw [← this, Posting.map_id_entries]
    simp
  have hnodup : ((p.entries d).map LedgerEntryEntity.id).Nodup ↔
      d.ledgerEntryId 0 ≠ d.ledgerEntryId 1 := by
    rw [Posting.map_id_entries]
    simp
  constructor
  · rintro ⟨ht, hn, he, hv⟩
    exact ⟨ht, hnodup.1 hn, (hmem.1 he).1, (hmem.1 he).2, hv⟩
  · rintro ⟨ht, hn, h₀, h₁, hv⟩
    exact ⟨ht, hnodup.2 hn, hmem.2 ⟨h₀, h₁⟩, hv⟩

/-- Both sides of a posting count the same amount. -/
theorem Posting.total_newEntries (type : LedgerEntryType) (id : Uuid) :
    total ar type (p.newEntries id) = ar.round (0 + p.amount) := by
  cases ht : p.type <;> cases type <;> simp [total, newEntries, ht, leg]

theorem returns_createEntries {β : Type} (f : List LedgerEntryEntity → Query β)
    (hfit : ar.storable p.amount) :
    Returns ar d ((createEntries ar (p.newEntries d.transactionId)).bind f) db ↔
      (((p.entries d).map LedgerEntryEntity.id).Nodup ∧
        ∀ e ∈ p.entries d, db.ledgerEntries.find? e.id = none) ∧
        Returns ar d (f (p.entries d))
          { db with
            ledgerEntries := db.ledgerEntries.insertAll ((p.stored ar).entries d) } := by
  have hall : ((p.newEntries d.transactionId).all fun e => ar.storable e.amount) = true := by
    cases ht : p.type <;> simp [Posting.newEntries, ht, Posting.leg, hfit]
  have hcreate : createEntries ar (p.newEntries d.transactionId) =
      insertLedgerEntries (p.newEntries d.transactionId) := by
    unfold createEntries
    dsimp only
    rw [Posting.total_newEntries, Posting.total_newEntries]
    exact if_neg (not_not.2 rfl)
  have heval : (insertLedgerEntries (p.newEntries d.transactionId)).eval
      ((statements ar).handler d) db = _ := Prog.eval_await ..
  have hentries : entryRows d (p.newEntries d.transactionId) = p.entries d := rfl
  simp only [TwoPhase.Statements.handler, statements, exec, hall, if_true, hentries] at heval
  rw [hcreate]
  by_cases hnew : ((p.entries d).map LedgerEntryEntity.id).Nodup ∧
      ∀ e ∈ p.entries d, db.ledgerEntries.find? e.id = none
  · rw [if_pos hnew] at heval
    have happly := applyAll_addLedgerEntry ar ((p.stored ar).entries d) db
    rw [← Posting.map_stored_entries, List.map_map] at happly
    rw [returns_bind f heval, and_iff_right hnew, ← Posting.map_stored_entries]
    exact iff_of_eq (congrArg (Returns ar d _) happly)
  · rw [if_neg hnew] at heval
    exact iff_of_false (not_returns_bind f heval) fun h => hnew h.1

theorem returns_saveTransaction {β : Type} {t : TransactionEntity}
    (f : TransactionEntity → Query β) (hfit : ar.storable t.amount) :
    Returns ar d ((saveTransaction t).bind f) db ↔
      Returns ar d (f t)
        { db with transactions := db.transactions.put (storedTransaction ar t) } := by
  refine returns_bind f ?_
  rw [saveTransaction, Prog.eval_await]
  simp only [TwoPhase.Statements.handler, statements, exec, if_pos hfit]
  rfl

theorem returns_insertOutboxEvent {β : Type} {e : NewOutboxEvent}
    (f : OutboxEventEntity → Query β) :
    Returns ar d ((insertOutboxEvent e).bind f) db ↔
      db.outboxEvents.find? d.outboxEventId = none ∧
        Returns ar d (f (e.row d))
          { db with
            outboxEvents := db.outboxEvents.insert (storedEvent ar (e.row d)) } := by
  have heval : (insertOutboxEvent e).eval ((statements ar).handler d) db = _ := Prog.eval_await ..
  simp only [TwoPhase.Statements.handler, statements, exec] at heval
  by_cases hdup : (db.outboxEvents.find? d.outboxEventId).isSome
  · rw [if_pos hdup] at heval
    refine iff_of_false (not_returns_bind f heval) fun h => ?_
    rw [h.1] at hdup
    exact Bool.noConfusion hdup
  · rw [if_neg hdup] at heval
    exact (returns_bind f heval).trans
      (and_iff_right (Option.not_isSome_iff_eq_none.1 hdup)).symm

theorem returns_createTransactionCompletedEvent {saved : TransactionEntity}
    {r : TransactionResponse} :
    Returns ar d ((createTransactionCompletedEventInManager saved none).bind fun _ => .ret r) db ↔
      db.outboxEvents.find? d.outboxEventId = none :=
  (returns_insertOutboxEvent fun _ => .ret r).trans (and_iff_left (returns_ret r))

/-- **The tail of a movement returns** when its keys are new and the columns
accept the amount and the new balances. -/
theorem returns_recordMovement_iff :
    Returns ar d (recordMovement ar p.newTransaction (p.accounts ar) p.newEntries) db ↔
      Recordable ar d p.amount db ∧ ∀ a ∈ p.accounts ar, ar.storable a.balance := by
  by_cases hfit : ar.storable p.amount
  swap
  · exact iff_of_false (fun h => hfit ((returns_insertTransaction _).1 h).1.2)
      fun h => hfit h.1.amount
  have hdate : ∀ db : Db, newDate.eval ((statements ar).handler d) db = (.ok d.clock, db) :=
    fun db => Prog.eval_await ..
  -- the statements of `recordMovement` in their order
  refine ((returns_insertTransaction _).trans <| and_congr_right' <|
    (returns_saveAccounts _).trans <| and_congr_right' <|
    (returns_createEntries _ hfit).trans <| and_congr_right' <|
    (returns_bind _ (hdate _)).trans <| (returns_saveTransaction _ hfit).trans <|
    returns_createTransactionCompletedEvent).trans ?_
  constructor
  · rintro ⟨⟨ht, -⟩, ha, ⟨hn, he⟩, hv⟩
    exact ⟨⟨Posting.newKeys_iff.1 ⟨ht, hn, he, hv⟩, hfit⟩, ha⟩
  · rintro ⟨⟨hk, -⟩, ha⟩
    have hk := Posting.newKeys_iff (p := p).2 hk
    exact ⟨⟨hk.transaction, hfit⟩, ha, ⟨hk.entries_nodup, hk.entries⟩, hk.event⟩

end Record

/-! ### The three movements -/

section Movements

variable {ar : Arith} {d : Draws} {db : Db}

/-- How a movement of one account begins: with its row, which is active and has the
currency of the request. -/
theorem returns_locked_iff {β : Type} {id currency : JsString} {e : Exception}
    {f : Option AccountEntity → Query β} {body : AccountEntity → Query β}
    (hnone : f none = .raise e)
    (hsome : ∀ account, f (some account) = (assertActiveAccount account).bind fun _ =>
      (assertCurrency account.currency currency).bind fun _ => body account) :
    Returns ar d ((findAccountForUpdate (.ofText id)).bind f) db ↔
      ∃ row, db.accounts.find? (.ofText id) = some row ∧ row.status = .active ∧
        row.currency = currency ∧ Returns ar d (body (Posting.read ar row)) db := by
  rw [returns_bind _ (eval_findAccountForUpdate _)]
  cases hrow : db.accounts.find? (.ofText id) with
  | none =>
      rw [Option.map_none, hnone]
      exact iff_of_false (not_returns_raise _) (by simp)
  | some row =>
      rw [Option.map_some, hsome]
      refine ((returns_assertActiveAccount _).trans <| and_congr_right' <|
        returns_assertCurrency _).trans ?_
      constructor
      · intro h
        exact ⟨row, rfl, h⟩
      · rintro ⟨_, ⟨⟩, h⟩
        exact h

/-- **A deposit returns** when its account may be credited. -/
theorem returns_deposit_iff {dto : DepositDto} :
    Returns ar d (deposit ar dto) db ↔
      (∃ row, db.accounts.find? (.ofText dto.accountId) = some row ∧
        Creditable ar dto.amount dto.currency row) ∧ Recordable ar d dto.amount db := by
  let p (account : AccountEntity) : Posting := {
    type := .deposit, amount := dto.amount, currency := dto.currency
    description := dto.description.join, debit := .external, credit := .account account }
  have haccounts : ∀ account, (∀ a ∈ (p account).accounts ar, ar.storable a.balance) ↔
      ar.storable (ar.round (account.balance + dto.amount)) := by
    simp [p, Posting.accounts, Party.withBalance]
  have hmovement := fun account => @returns_recordMovement_iff ar d db (p account)
  simp only [haccounts] at hmovement
  refine (@returns_locked_iff ar d db _ dto.accountId dto.currency _ _ (fun account =>
    recordMovement ar (p account).newTransaction ((p account).accounts ar) (p account).newEntries)
    rfl fun _ => rfl).trans ?_
  constructor
  · rintro ⟨row, hrow, hs, hc, h⟩
    obtain ⟨hr, hb⟩ := (hmovement _).1 h
    exact ⟨⟨row, hrow, hs, hc, hb⟩, hr⟩
  · rintro ⟨⟨row, hrow, hs, hc, hb⟩, hr⟩
    exact ⟨row, hrow, hs, hc, (hmovement _).2 ⟨hr, hb⟩⟩

/-- **A withdrawal returns** when its account may be debited. -/
theorem returns_withdraw_iff {dto : WithdrawDto} :
    Returns ar d (withdraw ar dto) db ↔
      (∃ row, db.accounts.find? (.ofText dto.accountId) = some row ∧
        Debitable ar dto.amount dto.currency row) ∧ Recordable ar d dto.amount db := by
  let p (account : AccountEntity) : Posting := {
    type := .withdrawal, amount := dto.amount, currency := dto.currency
    description := dto.description.join, debit := .account account, credit := .external }
  have haccounts : ∀ account, (∀ a ∈ (p account).accounts ar, ar.storable a.balance) ↔
      ar.storable (ar.round (account.balance - dto.amount)) := by
    simp [p, Posting.accounts, Party.withBalance]
  have hmovement := fun account => @returns_recordMovement_iff ar d db (p account)
  simp only [haccounts] at hmovement
  refine (@returns_locked_iff ar d db _ dto.accountId dto.currency _ _ (fun account =>
    (assertSufficientFunds account.balance dto.amount).bind fun _ => recordMovement ar
      (p account).newTransaction ((p account).accounts ar) (p account).newEntries)
    rfl fun _ => rfl).trans ?_
  simp only [returns_assertSufficientFunds]
  constructor
  · rintro ⟨row, hrow, hs, hc, hf, h⟩
    obtain ⟨hr, hb⟩ := (hmovement _).1 h
    exact ⟨⟨row, hrow, hs, hc, hf, hb⟩, hr⟩
  · rintro ⟨⟨row, hrow, hs, hc, hf, hb⟩, hr⟩
    exact ⟨row, hrow, hs, hc, hf, (hmovement _).2 ⟨hr, hb⟩⟩

/-- The ids a transfer locks, in the order it locks them. -/
def lockOrder (dto : TransferDto) : List Uuid :=
  ((([dto.fromAccountId, dto.toAccountId].insertionSort (· ≤ ·)).map Uuid.ofText).dedup).insertionSort
    fun u v => Uuid.le u v

/-- The rows a transfer locks, as it reads them. -/
def lockedRows (ar : Arith) (db : Db) (dto : TransferDto) : List AccountEntity :=
  (lockOrder dto).filterMap fun id => (db.accounts.find? id).map (Posting.read ar)

/-- The row a transfer takes for an id is the one stored under its spelling. -/
theorem of_find?_lockedRows {dto : TransferDto} {s : JsString} {a : AccountEntity}
    (h : (lockedRows ar db dto).find? (fun account => account.id.text = s) = some a) :
    (Uuid.ofText s).text = s ∧
      ∃ row, db.accounts.find? (.ofText s) = some row ∧ a = Posting.read ar row := by
  have htext : a.id.text = s := by simpa using List.find?_some h
  obtain ⟨row, hrow, hread⟩ := find?_of_mem_lockRows (List.mem_of_find?_eq_some h)
  rw [Uuid.ofText_eq_of_text_eq htext]
  exact ⟨htext, row, hrow, hread⟩

theorem perm_lockOrder {dto : TransferDto}
    (h : Uuid.ofText dto.fromAccountId ≠ Uuid.ofText dto.toAccountId) :
    (lockOrder dto).Perm [.ofText dto.fromAccountId, .ofText dto.toAccountId] := by
  have hmap : (([dto.fromAccountId, dto.toAccountId].insertionSort (· ≤ ·)).map Uuid.ofText).Perm
      [.ofText dto.fromAccountId, .ofText dto.toAccountId] :=
    (List.perm_insertionSort _ _).map Uuid.ofText
  have hnodup : (([dto.fromAccountId, dto.toAccountId].insertionSort (· ≤ ·)).map
      Uuid.ofText).Nodup := hmap.nodup_iff.2 (by simp [h])
  refine (List.perm_insertionSort _ _).trans ?_
  rw [hnodup.dedup]
  exact hmap

/-- The rows of two accounts spelled as they are stored are both found. -/
theorem lockedRows_of_canonical (ar : Arith) {dto : TransferDto} {a b : AccountEntity}
    (hne : Uuid.ofText dto.fromAccountId ≠ Uuid.ofText dto.toAccountId)
    (hfrom : (Uuid.ofText dto.fromAccountId).text = dto.fromAccountId)
    (hto : (Uuid.ofText dto.toAccountId).text = dto.toAccountId)
    (ha : db.accounts.find? (.ofText dto.fromAccountId) = some a)
    (hb : db.accounts.find? (.ofText dto.toAccountId) = some b) :
    (lockedRows ar db dto).length = 2 ∧
      (lockedRows ar db dto).find? (fun account => account.id.text = dto.fromAccountId) =
        some (Posting.read ar a) ∧
      (lockedRows ar db dto).find? (fun account => account.id.text = dto.toAccountId) =
        some (Posting.read ar b) := by
  have hperm : (lockedRows ar db dto).Perm [Posting.read ar a, Posting.read ar b] := by
    have := (perm_lockOrder hne).filterMap fun id => (db.accounts.find? id).map (Posting.read ar)
    simp only [ha, hb, List.filterMap_cons, List.filterMap_nil, Option.map_some] at this
    exact this
  have hida : (Posting.read ar a).id = .ofText dto.fromAccountId := (Table.find?_eq_some ha).2
  have hidb : (Posting.read ar b).id = .ofText dto.toAccountId := (Table.find?_eq_some hb).2
  -- a row with the spelling of an id is the row of that id
  have hfind : ∀ (s : JsString) (x : AccountEntity), x ∈ lockedRows ar db dto →
      x.id.text = s → (∀ y ∈ lockedRows ar db dto, y.id.text = s → y = x) →
      (lockedRows ar db dto).find? (fun account => account.id.text = s) = some x := by
    intro s x hx hs huniq
    cases hf : (lockedRows ar db dto).find? (fun account => account.id.text = s) with
    | none => exact absurd hs (by simpa using List.find?_eq_none.1 hf x hx)
    | some y =>
        have hy : y.id.text = s := by simpa using List.find?_some hf
        rw [huniq y (List.mem_of_find?_eq_some hf) hy]
  have hmem : ∀ y, y ∈ lockedRows ar db dto → y = Posting.read ar a ∨ y = Posting.read ar b :=
    fun y hy => by simpa using hperm.mem_iff.1 hy
  refine ⟨hperm.length_eq, hfind _ _ (hperm.mem_iff.2 (by simp)) ?_ ?_,
    hfind _ _ (hperm.mem_iff.2 (by simp)) ?_ ?_⟩
  · rw [hida, hfrom]
  · intro y hy hs
    rcases hmem y hy with rfl | rfl
    · rfl
    · exact absurd ((Uuid.ofText_eq_of_text_eq hs).trans hidb) hne
  · rw [hidb, hto]
  · intro y hy hs
    rcases hmem y hy with rfl | rfl
    · exact absurd ((Uuid.ofText_eq_of_text_eq hs).trans hida).symm hne
    · rfl

/-- The ids of a transfer are spelled as the database returns them. -/
structure TransferDto.Canonical (dto : TransferDto) : Prop where
  fromAccountId : (Uuid.ofText dto.fromAccountId).text = dto.fromAccountId
  toAccountId : (Uuid.ofText dto.toAccountId).text = dto.toAccountId

/-- **A transfer returns** when its accounts are two, one may be debited, the
other credited, and both ids are spelled as they are stored. -/
theorem returns_transfer_iff {dto : TransferDto} :
    Returns ar d (transfer ar dto) db ↔
      dto.Canonical ∧ Uuid.ofText dto.fromAccountId ≠ Uuid.ofText dto.toAccountId ∧
        (∃ row, db.accounts.find? (.ofText dto.fromAccountId) = some row ∧
          Debitable ar dto.amount dto.currency row) ∧
        (∃ row, db.accounts.find? (.ofText dto.toAccountId) = some row ∧
          Creditable ar dto.amount dto.currency row) ∧ Recordable ar d dto.amount db := by
  unfold transfer
  split_ifs with hsame
  · exact iff_of_false (not_returns_raise _) fun h => h.2.1 (congrArg Uuid.ofText hsame)
  dsimp only
  have heval : (findAccountsForUpdate
      ([dto.fromAccountId, dto.toAccountId].insertionSort (· ≤ ·))).eval
        ((statements ar).handler d) db = (.ok (lockedRows ar db dto), db) := eval_lockRows _
  rw [Prog.bind_eq, returns_bind _ heval]
  split_ifs with hlen
  · refine iff_of_false (not_returns_raise _) ?_
    rintro ⟨hcan, hne, ⟨a, ha, -⟩, ⟨b, hb, -⟩, -⟩
    exact hlen (lockedRows_of_canonical ar hne hcan.fromAccountId hcan.toAccountId ha hb).1
  split
  · rename_i x y hx hy
    obtain ⟨hfrom, a, ha, rfl⟩ := of_find?_lockedRows hx
    obtain ⟨hto, b, hb, rfl⟩ := of_find?_lockedRows hy
    have hne : Uuid.ofText dto.fromAccountId ≠ Uuid.ofText dto.toAccountId := by
      intro h
      exact hsame (hfrom.symm.trans ((congrArg Uuid.text h).trans hto))
    let p : Posting := {
      type := .transfer, amount := dto.amount, currency := dto.currency
      description := dto.description.join, debit := .account (Posting.read ar a)
      credit := .account (Posting.read ar b) }
    have haccounts : (∀ a ∈ p.accounts ar, ar.storable a.balance) ↔
        ar.storable (ar.round (ar.round a.balance - dto.amount)) ∧
          ar.storable (ar.round (ar.round b.balance + dto.amount)) := by
      simp [p, Posting.accounts, Party.withBalance, Posting.read]
    refine ((returns_assertActiveAccount _).trans <| and_congr_right' <|
      (returns_assertActiveAccount _).trans <| and_congr_right' <|
      (returns_assertCurrency _).trans <| and_congr_right' <|
      (returns_assertCurrency _).trans <| and_congr_right' <|
      (returns_assertSufficientFunds _).trans <| and_congr_right' <|
      @returns_recordMovement_iff ar d db p).trans ?_
    rw [haccounts]
    constructor
    · rintro ⟨hsa, hsb, hca, hcb, hf, hr, hba, hbb⟩
      exact ⟨⟨hfrom, hto⟩, hne, ⟨a, ha, hsa, hca, hf, hba⟩, ⟨b, hb, hsb, hcb, hbb⟩, hr⟩
    · rintro ⟨-, -, ⟨a', ha', hda⟩, ⟨b', hb', hcb⟩, hr⟩
      obtain rfl := Option.some.inj (ha.symm.trans ha')
      obtain rfl := Option.some.inj (hb.symm.trans hb')
      exact ⟨hda.status, hcb.status, hda.currency, hcb.currency, hda.funds, hr, hda.stored,
        hcb.stored⟩
  · rename_i hnone
    refine iff_of_false (not_returns_raise _) ?_
    rintro ⟨hcan, hne, ⟨a, ha, -⟩, ⟨b, hb, -⟩, -⟩
    obtain ⟨-, hx, hy⟩ :=
      lockedRows_of_canonical ar hne hcan.fromAccountId hcan.toAccountId ha hb
    exact hnone _ _ hx hy

/-- The state and the draws admit the movement. -/
def Movement.Admitted (ar : Arith) (d : Draws) (db : Db) : Movement → Prop
  | .deposit dto =>
      (∃ row, db.accounts.find? (.ofText dto.accountId) = some row ∧
        Creditable ar dto.amount dto.currency row) ∧ Recordable ar d dto.amount db
  | .withdraw dto =>
      (∃ row, db.accounts.find? (.ofText dto.accountId) = some row ∧
        Debitable ar dto.amount dto.currency row) ∧ Recordable ar d dto.amount db
  | .transfer dto =>
      dto.Canonical ∧ Uuid.ofText dto.fromAccountId ≠ Uuid.ofText dto.toAccountId ∧
        (∃ row, db.accounts.find? (.ofText dto.fromAccountId) = some row ∧
          Debitable ar dto.amount dto.currency row) ∧
        (∃ row, db.accounts.find? (.ofText dto.toAccountId) = some row ∧
          Creditable ar dto.amount dto.currency row) ∧ Recordable ar d dto.amount db

/-- **A movement returns exactly when it is admitted.** -/
theorem returns_iff_admitted {m : Movement} :
    Returns ar d (m.body ar) db ↔ m.Admitted ar d db := by
  cases m with
  | deposit dto => exact returns_deposit_iff
  | withdraw dto => exact returns_withdraw_iff
  | transfer dto => exact returns_transfer_iff

end Movements

/-! ### Requests on their own -/

/-- A movement on its own that meets no fault. -/
def request (ar : Arith) (m : Movement) (d : Draws) (db : Db) : Except Exception Response × Db :=
  serve ar (.move m d [] none) db

/-- The movement is accepted. -/
def Accepts (ar : Arith) (m : Movement) (d : Draws) (db : Db) : Prop :=
  ∃ r, (request ar m d db).1 = .ok r

section Requests

variable {ar : Arith} {m : Movement} {d : Draws} {db : Db}

/-- A movement is accepted when its body returns. -/
theorem accepts_iff_returns : Accepts ar m d db ↔ Returns ar d (m.body ar) db := by
  unfold Accepts Returns
  simp only [request, serve, transactionWithFaults, Prog.eval_faulty_nil]
  cases hbody : (m.body ar).eval ((statements ar).handler d) db with
  | mk answer db' => cases answer <;> simp

/-- The state a movement that returns leaves. -/
theorem request_of_returns (h : Returns ar d (m.body ar) db) :
    ∃ p r, Accepted ar m d db p r (request ar m d db).2 := by
  obtain ⟨r, db', h⟩ := h
  obtain ⟨p, hp⟩ := Movement.accepted h
  refine ⟨p, r, ?_⟩
  have hstate : (request ar m d db).2 = db' := by
    simp only [request, serve, transactionWithFaults, Prog.eval_faulty_nil, h]
  rw [hstate]
  exact hp

/-- A movement that does not return leaves the state as it was. -/
theorem request_of_not_returns (h : ¬ Returns ar d (m.body ar) db) :
    (request ar m d db).2 = db := by
  simp only [request, serve, transactionWithFaults, Prog.eval_faulty_nil]
  cases hbody : (m.body ar).eval ((statements ar).handler d) db with
  | mk answer db' =>
      cases answer with
      | ok r => exact absurd ⟨r, db', hbody⟩ h
      | error e => rfl

end Requests

end Ledger
end LedgerEngine
