/-
# What the services throw

`src/common/exceptions/domain.exceptions.ts`, and the other values a handler
can meet in a `catch`.  Each domain exception is an `HttpException` with a
status and a body `{ message, code, details? }`; `DomainException.getResponse`
is that body.
-/

import LedgerEngine.Common.Json

namespace LedgerEngine

/-- The exception classes of `domain.exceptions.ts` with their arguments. -/
inductive DomainException : Type
  | accountNotFound (accountId : JsString)
  | accountsNotFound (accountIds : List JsString)
  | transactionNotFound (transactionId : JsString)
  | accountInactive (accountId : JsString)
  | currencyMismatch (expectedCurrency actualCurrency : JsString)
  | insufficientFunds (balance amount : ℤ)
  | sameAccountTransfer (accountId : JsString)
  | idempotencyKeyRequired
  | idempotencyKeyProcessing
  | idempotencyPayloadMismatch
  | unbalancedLedgerEntries (debits credits : ℤ)
  deriving DecidableEq

/-- The body `{ message, code, details? }` of a domain exception. -/
def response (message code : JsString) (details : Option (List (JsString × Json))) : Json :=
  .obj ([(js "message", .str message), (js "code", .str code)] ++
    match details with
    | some fields => [(js "details", .obj fields)]
    | none => [])

namespace DomainException

/-- `getStatus()`: the status of the `HttpException` class each one extends. -/
def getStatus : DomainException → ℕ
  | accountNotFound _ | accountsNotFound _ | transactionNotFound _ => 404
  | accountInactive _ | currencyMismatch _ _ | insufficientFunds _ _ | sameAccountTransfer _ => 400
  | idempotencyKeyRequired | idempotencyKeyProcessing | idempotencyPayloadMismatch => 409
  | unbalancedLedgerEntries _ _ => 500

/-- `getResponse()`. -/
def getResponse : DomainException → Json
  | accountNotFound accountId =>
      response (js "Account " ++ accountId ++ js " not found") (js "ACCOUNT_NOT_FOUND")
        (some [(js "accountId", .str accountId)])
  | accountsNotFound accountIds =>
      response (js "Both accounts must exist") (js "ACCOUNTS_NOT_FOUND")
        (some [(js "accountIds", .arr (accountIds.map .str))])
  | transactionNotFound transactionId =>
      response (js "Transaction " ++ transactionId ++ js " not found")
        (js "TRANSACTION_NOT_FOUND") (some [(js "transactionId", .str transactionId)])
  | accountInactive accountId =>
      response (js "Account " ++ accountId ++ js " is not active") (js "ACCOUNT_INACTIVE")
        (some [(js "accountId", .str accountId)])
  | currencyMismatch expectedCurrency actualCurrency =>
      response (js "Currency mismatch") (js "CURRENCY_MISMATCH")
        (some [(js "expectedCurrency", .str expectedCurrency),
          (js "actualCurrency", .str actualCurrency)])
  | insufficientFunds balance amount =>
      response (js "Insufficient balance") (js "INSUFFICIENT_FUNDS")
        (some [(js "balance", .num balance), (js "amount", .num amount)])
  | sameAccountTransfer accountId =>
      response (js "Source and destination accounts must be different")
        (js "SAME_ACCOUNT_TRANSFER") (some [(js "accountId", .str accountId)])
  | idempotencyKeyRequired =>
      response (js "Idempotency-Key header is required") (js "IDEMPOTENCY_KEY_REQUIRED") none
  | idempotencyKeyProcessing =>
      response (js "A request with this idempotency key is already being processed")
        (js "IDEMPOTENCY_KEY_PROCESSING") none
  | idempotencyPayloadMismatch =>
      response (js "Idempotency key has already been used with a different payload")
        (js "IDEMPOTENCY_PAYLOAD_MISMATCH") none
  | unbalancedLedgerEntries debits credits =>
      response (js "Ledger entries are not balanced") (js "LEDGER_ENTRIES_UNBALANCED")
        (some [(js "debits", .num debits), (js "credits", .num credits)])

end DomainException

/-- A thrown value, by what an `instanceof` test can tell of it. -/
inductive Exception : Type
  /-- One of `domain.exceptions.ts`. -/
  | domain (e : DomainException)
  /-- Any other `HttpException`: its status and the string or body it was given. -/
  | http (status : ℕ) (response : JsString ⊕ Json)
  /-- TypeORM's error for a statement the database refused. -/
  | queryFailed (message : JsString)
  /-- Any other `Error`. -/
  | error (message : JsString)
  /-- A thrown value that is no `Error`. -/
  | notAnError

/-- The message an `HttpException` takes from the body it was given. -/
def messageOf (body : Json) : JsString :=
  match body with
  | .obj fields =>
      match fields.reverse.find? fun f => f.1 = js "message" with
      | some (_, .str message) => message
      | _ => js "Http Exception"
  | _ => js "Http Exception"

/-- `error instanceof Error ? error.message : otherwise`. -/
def Exception.messageOr (otherwise : JsString) : Exception → JsString
  | .domain e => messageOf e.getResponse
  | .http _ (.inl response) => response
  | .http _ (.inr body) => messageOf body
  | .queryFailed message | .error message => message
  | .notAnError => otherwise

end LedgerEngine
