/-
# A transfer is a withdrawal and a deposit

Between two accounts a transfer should be accepted when the withdrawal from one
and the deposit to the other would be, and leave the balances these two leave
(`SplitsInTwo`).  The balances agree always (`balanceOf_transfer`).  The
acceptance does not: `deposit` and `withdraw` let the database compare the id,
which takes any spelling, while `transfer` looks among the rows it locked for
the very string of the request.  So the law holds exactly when both ids are
spelled as they are stored, or one of the two halves would be refused anyway
(`transfer_splits_iff`).
-/

import LedgerEngine.Ledger.Acceptance
import LedgerEngine.Ledger.Balance

namespace LedgerEngine
namespace Ledger

/-- The first half of a transfer. -/
def TransferDto.withdrawal (dto : TransferDto) : WithdrawDto where
  accountId := dto.fromAccountId
  amount := dto.amount
  currency := dto.currency
  description := dto.description
  accountId_isUuid := dto.fromAccountId_isUuid
  amount_min := dto.amount_min
  currency_matches := dto.currency_matches

/-- The second half. -/
def TransferDto.deposit (dto : TransferDto) : DepositDto where
  accountId := dto.toAccountId
  amount := dto.amount
  currency := dto.currency
  description := dto.description
  accountId_isUuid := dto.toAccountId_isUuid
  amount_min := dto.amount_min
  currency_matches := dto.currency_matches

/-- The balance of an account, if it exists. -/
def balanceOf (db : Db) (id : Uuid) : Option ℤ :=
  (db.accounts.find? id).map AccountEntity.balance

/-- The transfer `dto` does what the withdrawal and, after it, the deposit do.
`d` are the keys the first transaction draws, `d'` those of the second. -/
structure SplitsInTwo (ar : Arith) (dto : TransferDto) (d d' : Draws) (db : Db) : Prop where
  accepted : Accepts ar (.transfer dto) d db ↔
    Accepts ar (.withdraw dto.withdrawal) d db ∧ Accepts ar (.deposit dto.deposit) d db
  balances : Accepts ar (.transfer dto) d db → ∀ id,
    balanceOf (request ar (.transfer dto) d db).2 id =
      balanceOf (request ar (.deposit dto.deposit) d'
        (request ar (.withdraw dto.withdrawal) d db).2).2 id

/-- Both accounts exist, the one may be debited and the other credited, the
amount fits its column and the keys drawn are new: neither half is refused. -/
structure Admissible (ar : Arith) (dto : TransferDto) (d : Draws) (db : Db) : Prop where
  debit : ∃ row, db.accounts.find? (.ofText dto.fromAccountId) = some row ∧
    Debitable ar dto.amount dto.currency row
  credit : ∃ row, db.accounts.find? (.ofText dto.toAccountId) = some row ∧
    Creditable ar dto.amount dto.currency row
  record : Recordable ar d dto.amount db

section Requests

variable {ar : Arith} {m : Movement} {d d' : Draws} {db : Db} {dto : TransferDto}

theorem accepts_withdrawal_and_deposit_iff :
    Accepts ar (.withdraw dto.withdrawal) d db ∧ Accepts ar (.deposit dto.deposit) d db ↔
      Admissible ar dto d db := by
  rw [accepts_iff_returns, accepts_iff_returns]
  constructor
  · rintro ⟨hw, hd⟩
    obtain ⟨hdebit, hrecord⟩ := returns_withdraw_iff.1 hw
    exact ⟨hdebit, (returns_deposit_iff.1 hd).1, hrecord⟩
  · rintro ⟨hdebit, hcredit, hrecord⟩
    exact ⟨returns_withdraw_iff.2 ⟨hdebit, hrecord⟩, returns_deposit_iff.2 ⟨hcredit, hrecord⟩⟩

theorem accepts_transfer_iff : Accepts ar (.transfer dto) d db ↔
    dto.Canonical ∧ Uuid.ofText dto.fromAccountId ≠ Uuid.ofText dto.toAccountId ∧
      Admissible ar dto d db := by
  rw [accepts_iff_returns]
  constructor
  · intro h
    obtain ⟨hcan, hne, hdebit, hcredit, hrecord⟩ := returns_transfer_iff.1 h
    exact ⟨hcan, hne, hdebit, hcredit, hrecord⟩
  · rintro ⟨hcan, hne, hdebit, hcredit, hrecord⟩
    exact returns_transfer_iff.2 ⟨hcan, hne, hdebit, hcredit, hrecord⟩

/-- What a movement makes of the balance of an account. -/
def Movement.balance (ar : Arith) (m : Movement) (id : Uuid) (balance : ℤ) : ℤ :=
  let debited :=
    if m.fromAccountId = some id then ar.column (ar.round (ar.round balance - m.amount))
    else balance
  if m.toAccountId = some id then ar.column (ar.round (ar.round debited + m.amount))
  else debited

/-- **The balances after an accepted movement**, from the ids its request names. -/
theorem balanceOf_request (h : Returns ar d (m.body ar) db) (id : Uuid) :
    balanceOf (request ar m d db).2 id = (balanceOf db id).map (m.balance ar id) := by
  obtain ⟨p, r, hp⟩ := request_of_returns h
  unfold balanceOf
  rw [hp.state, Posting.find?_posted hp.valid]
  cases hrow : db.accounts.find? id with
  | none => rfl
  | some row =>
      obtain rfl : row.id = id := (Table.find?_eq_some hrow).2
      simp only [Option.map_some, Posting.move, Posting.moveSide, hp.fits.debit, hp.fits.credit,
        hp.fits.amount, Movement.balance]
      split_ifs <;> rfl

/-- After the withdrawal the account to credit is still there, unchanged. -/
theorem find?_withdrawn (hne : Uuid.ofText dto.fromAccountId ≠ Uuid.ofText dto.toAccountId)
    (hw : Returns ar d ((Movement.withdraw dto.withdrawal).body ar) db) :
    (request ar (.withdraw dto.withdrawal) d db).2.accounts.find? (.ofText dto.toAccountId) =
      db.accounts.find? (.ofText dto.toAccountId) := by
  obtain ⟨p, r, hp⟩ := request_of_returns hw
  rw [hp.state, Posting.find?_posted hp.valid]
  cases hrow : db.accounts.find? (.ofText dto.toAccountId) with
  | none => rfl
  | some row =>
      have hid : row.id = .ofText dto.toAccountId := (Table.find?_eq_some hrow).2
      have hdebit : p.debit.accountId ≠ some row.id := by
        rw [hp.fits.debit, hid]
        exact fun h => hne (Option.some.inj h)
      have hcredit : p.credit.accountId ≠ some row.id := by
        rw [hp.fits.credit]
        rintro ⟨⟩
      simp [Posting.move, Posting.moveSide, hdebit, hcredit]

/-- **The balances of an accepted transfer are those of its two halves.** -/
theorem balanceOf_transfer (h : Accepts ar (.transfer dto) d db)
    (hnew : d'.New (request ar (.withdraw dto.withdrawal) d db).2) (id : Uuid) :
    balanceOf (request ar (.transfer dto) d db).2 id =
      balanceOf (request ar (.deposit dto.deposit) d'
        (request ar (.withdraw dto.withdrawal) d db).2).2 id := by
  obtain ⟨-, hne, hadm⟩ := accepts_transfer_iff.1 h
  have hw : Returns ar d ((Movement.withdraw dto.withdrawal).body ar) db :=
    returns_withdraw_iff.2 ⟨hadm.debit, hadm.record⟩
  -- the deposit finds its account as the withdrawal did not touch it
  have hd : Returns ar d' ((Movement.deposit dto.deposit).body ar)
      (request ar (.withdraw dto.withdrawal) d db).2 := by
    refine returns_deposit_iff.2 ⟨?_, hnew, hadm.record.amount⟩
    have hfind := find?_withdrawn hne hw
    obtain ⟨row, hrow, hcredit⟩ := hadm.credit
    exact ⟨row, hfind.trans hrow, hcredit⟩
  rw [balanceOf_request (accepts_iff_returns.1 h), balanceOf_request hd, balanceOf_request hw,
    Option.map_map]
  rfl

end Requests

/-- **A transfer is its withdrawal and its deposit if and only if** its ids are
spelled as they are stored or one of the two would be refused.  The ids denote
different rows or none, and the second transaction draws new keys. -/
theorem transfer_splits_iff (ar : Arith) (dto : TransferDto) (d d' : Draws) (db : Db)
    (hrows : ∀ row, db.accounts.find? (.ofText dto.fromAccountId) = some row →
      db.accounts.find? (.ofText dto.toAccountId) ≠ some row)
    (hnew : d'.New (request ar (.withdraw dto.withdrawal) d db).2) :
    SplitsInTwo ar dto d d' db ↔ dto.Canonical ∨ ¬ Admissible ar dto d db := by
  constructor
  · intro h
    by_cases hadm : Admissible ar dto d db
    · have ht := h.accepted.2 (accepts_withdrawal_and_deposit_iff.2 hadm)
      exact Or.inl (accepts_transfer_iff.1 ht).1
    · exact Or.inr hadm
  · intro h
    refine ⟨?_, fun ht => balanceOf_transfer ht hnew⟩
    rw [accepts_transfer_iff, accepts_withdrawal_and_deposit_iff]
    constructor
    · rintro ⟨-, -, hadm⟩
      exact hadm
    · intro hadm
      have hcan : dto.Canonical := h.resolve_right (not_not.2 hadm)
      refine ⟨hcan, fun hne => ?_, hadm⟩
      obtain ⟨row, hrow, -⟩ := hadm.debit
      exact hrows row hrow (hne ▸ hrow)

/-- Two accounts with a balance of 100 each. -/
def twoAccounts : Db :=
  let account (id : String) : AccountEntity :=
    { id := .ofText (js id), currency := js "EUR", balance := 100, status := .active
      createdAt := 0, updatedAt := 0 }
  { Db.empty with
    accounts := (Table.empty.insert (account "aaaaaaaa-0000-4000-8000-00000000000a")).insert
      (account "bbbbbbbb-0000-4000-8000-00000000000b") }

/-- A `TransferDto` of 40 from one to the other, the first id spelled as given. -/
def transferFrom (s : JsString) (h : isUuid s = true) : TransferDto where
  fromAccountId := s
  toAccountId := js "bbbbbbbb-0000-4000-8000-00000000000b"
  amount := 40
  currency := js "EUR"
  description := none
  fromAccountId_isUuid := h
  toAccountId_isUuid := by decide
  amount_min := by decide
  currency_matches := by decide

/-- The id as it is stored. -/
def lowerCase : TransferDto := transferFrom (js "aaaaaaaa-0000-4000-8000-00000000000a") (by decide)

/-- The same id in capitals. -/
def upperCase : TransferDto := transferFrom (js "AAAAAAAA-0000-4000-8000-00000000000A") (by decide)

theorem transfer_splits_iff_lowerCase :
    SplitsInTwo (.exact fun _ => true) lowerCase (drawsEnding "1") (drawsEnding "2") twoAccounts :=
  (transfer_splits_iff (.exact fun _ => true) lowerCase (drawsEnding "1") (drawsEnding "2")
    twoAccounts (by decide) (by constructor <;> decide)).2 (Or.inl (by constructor <;> decide))

/-- **A transfer from an id in capitals is refused** though the withdrawal from
that id and the deposit are accepted. -/
theorem upperCase_refused : ¬ SplitsInTwo (.exact fun _ => true) upperCase (drawsEnding "1")
    (drawsEnding "2") twoAccounts := by
  intro h
  have hboth : Accepts (.exact fun _ => true) (.withdraw upperCase.withdrawal) (drawsEnding "1")
        twoAccounts ∧
      Accepts (.exact fun _ => true) (.deposit upperCase.deposit) (drawsEnding "1") twoAccounts := by
    refine accepts_withdrawal_and_deposit_iff.2 ⟨⟨_, rfl, ?_⟩, ⟨_, rfl, ?_⟩, ?_, rfl⟩
    · constructor <;> decide
    · constructor <;> decide
    · constructor <;> decide
  have hcan := (accepts_transfer_iff.1 (h.accepted.2 hboth)).1
  exact absurd hcan.fromAccountId (by decide)

end Ledger
end LedgerEngine
