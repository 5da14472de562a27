/-
# Accounts, ledger, outbox and transactions services

`AccountsService.createAccount`, `LedgerService.createEntries`,
`OutboxService.createTransactionCompletedEventInManager` and
`TransactionsService.deposit`, `withdraw` and `transfer`, each the body the
source gives it over the statements of `LedgerEngine.Ledger.Manager`.  The
logging calls are left out: nothing reads what they write.

The three movements end alike: insert a PENDING transaction, save the changed
accounts, create the entries, complete the transaction, create its outbox event
(`recordMovement`).  They differ in which rows they lock and check and in what
they hand to that tail.

`serve` is one request: a movement inside `dataSource.transaction`, which
commits if the body returns and the commit succeeds and rolls back otherwise.
`run` is any finite sequence of requests, each with the faults it meets.
-/

import LedgerEngine.Ledger.Manager
import Mathlib.Data.List.Dedup
import Mathlib.Data.List.Sort

namespace LedgerEngine
namespace Ledger

/-! ### Requests -/

/-- `DepositDto` as the validation pipe lets it through.  `description` may be
absent, `null` or a string. -/
structure DepositDto where
  accountId : JsString
  amount : ℤ
  currency : JsString
  description : Option (Option JsString)
  accountId_isUuid : isUuid accountId = true
  amount_min : 1 ≤ amount
  currency_matches : isCurrency currency = true

/-- `WithdrawDto extends DepositDto`. -/
abbrev WithdrawDto := DepositDto

/-- `TransferDto` as the validation pipe lets it through. -/
structure TransferDto where
  fromAccountId : JsString
  toAccountId : JsString
  amount : ℤ
  currency : JsString
  description : Option (Option JsString)
  fromAccountId_isUuid : isUuid fromAccountId = true
  toAccountId_isUuid : isUuid toAccountId = true
  amount_min : 1 ≤ amount
  currency_matches : isCurrency currency = true

/-- `CreateAccountDto` as the validation pipe lets it through. -/
structure CreateAccountDto where
  currency : JsString
  status : Option (Option AccountStatus)
  currency_matches : isCurrency currency = true

/-! ### Accounts -/

/-- What `createAccount` answers. -/
structure AccountResponse where
  id : Uuid
  currency : JsString
  balance : ℤ
  status : AccountStatus
  createdAt : Time
  deriving DecidableEq

/-- The row `createAccount` saves, under the id and at the time drawn for it. -/
def newAccount (id : Uuid) (now : Time) (dto : CreateAccountDto) : AccountEntity where
  id := id
  currency := dto.currency
  balance := 0
  status := dto.status.join.getD .active
  createdAt := now
  updatedAt := now

/-- `AccountsService.createAccount`: one insert, outside any transaction. -/
def createAccount (id : Uuid) (now : Time) (dto : CreateAccountDto) (db : Db) :
    Except Exception AccountResponse × Db :=
  let savedAccount := newAccount id now dto
  if (db.accounts.find? id).isSome then (.error (duplicateKey "PK_accounts_id"), db)
  else
    (.ok { id := savedAccount.id, currency := savedAccount.currency,
           balance := savedAccount.balance, status := savedAccount.status,
           createdAt := savedAccount.createdAt },
      { db with accounts := db.accounts.insert savedAccount })

/-! ### Ledger -/

/-- The amounts of one entry type, summed in the order of the entries. -/
def total (ar : Arith) (type : LedgerEntryType) (entries : List NewLedgerEntry) : ℤ :=
  (entries.filter fun entry => entry.entryType = type).foldl
    (fun sum entry => ar.round (sum + entry.amount)) 0

/-- `LedgerService.createEntries`. -/
def createEntries (ar : Arith) (entries : List NewLedgerEntry) :
    Query (List LedgerEntryEntity) := do
  let debits := total ar .debit entries
  let credits := total ar .credit entries
  if debits ≠ credits then
    throw (.domain (.unbalancedLedgerEntries debits credits))
  else
    insertLedgerEntries entries

/-! ### Outbox -/

/-- `OutboxService.createTransactionCompletedEventInManager`; no caller passes
a payload of its own. -/
def createTransactionCompletedEventInManager (transaction : TransactionEntity)
    (payload : Option TransactionCompletedPayload) : Query OutboxEventEntity :=
  insertOutboxEvent {
    aggregateType := js "transaction"
    aggregateId := transaction.id
    transactionId := transaction.id
    eventType := js "transaction.completed"
    payload := payload.getD {
      transactionId := transaction.id
      type := transaction.type
      amount := transaction.amount
      currency := transaction.currency
      fromAccountId := transaction.fromAccountId
      toAccountId := transaction.toAccountId
      completedAt := transaction.completedAt }
    status := .pending }

/-! ### Transactions -/

/-- What a movement answers. -/
structure TransactionResponse where
  id : Uuid
  type : TransactionType
  status : TransactionStatus
  amount : ℤ
  currency : JsString
  fromAccountId : Option Uuid
  toAccountId : Option Uuid
  description : Option JsString
  completedAt : Option Time
  createdAt : Time
  deriving DecidableEq

def toTransactionResponse (transaction : TransactionEntity) : TransactionResponse where
  id := transaction.id
  type := transaction.type
  status := transaction.status
  amount := transaction.amount
  currency := transaction.currency
  fromAccountId := transaction.fromAccountId
  toAccountId := transaction.toAccountId
  description := transaction.description
  completedAt := transaction.completedAt
  createdAt := transaction.createdAt

def assertActiveAccount (account : AccountEntity) : Query Unit :=
  if account.status ≠ .active then throw (.domain (.accountInactive account.id.text))
  else pure ()

def assertCurrency (accountCurrency requestCurrency : JsString) : Query Unit :=
  if accountCurrency ≠ requestCurrency then
    throw (.domain (.currencyMismatch accountCurrency requestCurrency))
  else pure ()

def assertSufficientFunds (balance amount : ℤ) : Query Unit :=
  if balance < amount then throw (.domain (.insufficientFunds balance amount)) else pure ()

/-- `manager.save(AccountEntity, accounts)`: one update for each account. -/
def saveAccounts : List AccountEntity → Query Unit
  | [] => pure ()
  | account :: accounts => do
      let _ ← saveAccount account
      saveAccounts accounts

/-- The tail of every movement: insert `transaction`, save the accounts with
their new balances, create the entries, complete the transaction, create its
outbox event. -/
def recordMovement (ar : Arith) (transaction : NewTransaction) (accounts : List AccountEntity)
    (entries : Uuid → List NewLedgerEntry) : Query TransactionResponse := do
  let transaction ← insertTransaction transaction
  saveAccounts accounts
  let _ ← createEntries ar (entries transaction.id)
  let completedAt ← newDate
  let savedTransaction ← saveTransaction
    { transaction with status := .completed, completedAt := some completedAt }
  let _ ← createTransactionCompletedEventInManager savedTransaction none
  return toTransactionResponse savedTransaction

/-- The ledger account that stands for the world outside. -/
def externalSettlement : JsString := js "external_settlement"

/-- `TransactionsService.deposit`. -/
def deposit (ar : Arith) (dto : DepositDto) : Query TransactionResponse := do
  let some account ← findAccountForUpdate (.ofText dto.accountId)
    | throw (.domain (.accountNotFound dto.accountId))
  assertActiveAccount account
  assertCurrency account.currency dto.currency
  recordMovement ar
    { type := .deposit, status := .pending, amount := dto.amount, currency := dto.currency,
      fromAccountId := none, toAccountId := some account.id,
      description := dto.description.join }
    [{ account with balance := ar.round (account.balance + dto.amount) }]
    fun transactionId => [
      { transactionId, accountId := some account.id, ledgerAccount := none,
        entryType := .credit, amount := dto.amount, currency := dto.currency },
      { transactionId, accountId := none, ledgerAccount := some externalSettlement,
        entryType := .debit, amount := dto.amount, currency := dto.currency }]

/-- `TransactionsService.withdraw`. -/
def withdraw (ar : Arith) (dto : WithdrawDto) : Query TransactionResponse := do
  let some account ← findAccountForUpdate (.ofText dto.accountId)
    | throw (.domain (.accountNotFound dto.accountId))
  assertActiveAccount account
  assertCurrency account.currency dto.currency
  assertSufficientFunds account.balance dto.amount
  recordMovement ar
    { type := .withdrawal, status := .pending, amount := dto.amount, currency := dto.currency,
      fromAccountId := some account.id, toAccountId := none,
      description := dto.description.join }
    [{ account with balance := ar.round (account.balance - dto.amount) }]
    fun transactionId => [
      { transactionId, accountId := some account.id, ledgerAccount := none,
        entryType := .debit, amount := dto.amount, currency := dto.currency },
      { transactionId, accountId := none, ledgerAccount := some externalSettlement,
        entryType := .credit, amount := dto.amount, currency := dto.currency }]

/-- Lock the rows with the given ids one after the other; a missing row gives
no entity. -/
def lockRows : List Uuid → Query (List AccountEntity)
  | [] => pure []
  | id :: ids => do
      let row ← findAccountForUpdate id
      let rows ← lockRows ids
      return row.toList ++ rows

/-- `manager.find(AccountEntity, { where: { id: In(ids) }, order: { id: 'ASC' },
lock })`: the rows with one of the ids, each row once, locked in id order. -/
def findAccountsForUpdate (ids : List JsString) : Query (List AccountEntity) :=
  lockRows ((ids.map Uuid.ofText).dedup.insertionSort fun u v => Uuid.le u v)

/-- `TransactionsService.transfer`. -/
def transfer (ar : Arith) (dto : TransferDto) : Query TransactionResponse := do
  if dto.fromAccountId = dto.toAccountId then
    throw (.domain (.sameAccountTransfer dto.fromAccountId))
  else
    let orderedIds := [dto.fromAccountId, dto.toAccountId].insertionSort (· ≤ ·)
    let accounts ← findAccountsForUpdate orderedIds
    if accounts.length ≠ 2 then
      throw (.domain (.accountsNotFound [dto.fromAccountId, dto.toAccountId]))
    else
      let fromAccount := accounts.find? fun account => account.id.text = dto.fromAccountId
      let toAccount := accounts.find? fun account => account.id.text = dto.toAccountId
      match fromAccount, toAccount with
      | some fromAccount, some toAccount => do
          assertActiveAccount fromAccount
          assertActiveAccount toAccount
          assertCurrency fromAccount.currency dto.currency
          assertCurrency toAccount.currency dto.currency
          assertSufficientFunds fromAccount.balance dto.amount
          recordMovement ar
            { type := .transfer, status := .pending, amount := dto.amount,
              currency := dto.currency, fromAccountId := some fromAccount.id,
              toAccountId := some toAccount.id, description := dto.description.join }
            [{ fromAccount with balance := ar.round (fromAccount.balance - dto.amount) },
              { toAccount with balance := ar.round (toAccount.balance + dto.amount) }]
            fun transactionId => [
              { transactionId, accountId := some fromAccount.id, ledgerAccount := none,
                entryType := .debit, amount := dto.amount, currency := dto.currency },
              { transactionId, accountId := some toAccount.id, ledgerAccount := none,
                entryType := .credit, amount := dto.amount, currency := dto.currency }]
      | _, _ => throw (.domain (.accountsNotFound [dto.fromAccountId, dto.toAccountId]))

/-! ### Requests one at a time -/

/-- A movement of money: the body of one of the three `dataSource.transaction`
calls. -/
inductive Movement : Type
  | deposit (dto : DepositDto)
  | withdraw (dto : WithdrawDto)
  | transfer (dto : TransferDto)

/-- The method a movement calls. -/
def Movement.body (ar : Arith) : Movement → Query TransactionResponse
  | .deposit dto => Ledger.deposit ar dto
  | .withdraw dto => Ledger.withdraw ar dto
  | .transfer dto => Ledger.transfer ar dto

/-- One request, with what the server draws for it and the faults it meets:
`faults` refuses single statements, `commitFault` the commit (or, for
`createAccount`, the one insert). -/
inductive Call : Type
  | createAccount (id : Uuid) (now : Time) (dto : CreateAccountDto) (fault : Option Exception)
  | move (m : Movement) (d : Draws) (faults : List (Option Exception))
      (commitFault : Option Exception)

/-- What a request answers. -/
inductive Response : Type
  | account (r : AccountResponse)
  | transaction (r : TransactionResponse)

/-- `dataSource.transaction(body)`, with faults: the writes of the body take
effect if it returns and the commit goes through. -/
def transactionWithFaults (ar : Arith) (d : Draws) (faults : List (Option Exception))
    (commitFault : Option Exception) (body : Query TransactionResponse) (db : Db) :
    Except Exception TransactionResponse × Db :=
  match body.eval (Prog.faulty ((statements ar).handler d)) (db, faults) with
  | (.ok r, (db', _)) =>
      match commitFault with
      | none => (.ok r, db')
      | some e => (.error e, db)
  | (.error e, _) => (.error e, db)

/-- One request. -/
def serve (ar : Arith) : Call → Db → Except Exception Response × Db
  | .createAccount id now dto fault, db =>
      match fault with
      | none =>
          match createAccount id now dto db with
          | (.ok r, db') => (.ok (.account r), db')
          | (.error e, db') => (.error e, db')
      | some e => (.error e, db)
  | .move m d faults commitFault, db =>
      match transactionWithFaults ar d faults commitFault (m.body ar) db with
      | (.ok r, db') => (.ok (.transaction r), db')
      | (.error e, db') => (.error e, db')

/-- Any finite sequence of requests, one after the other. -/
def run (ar : Arith) (db : Db) (calls : List Call) : Db :=
  calls.foldl (fun db call => (serve ar call db).2) db

end Ledger
end LedgerEngine
