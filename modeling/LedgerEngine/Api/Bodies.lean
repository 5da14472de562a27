/-
# What an answer tells

A body is replayed from a `jsonb` column, which keeps the document and not its text: the
members may come back in another order.  What a client reads in it by the names of the
members is the whole response (`readTransactionBody_of_same` and its siblings), whether the
body comes from the handler or from the column (`bodies_survive`), so different responses
never have the same document.
-/

import LedgerEngine.Api.Responses

namespace LedgerEngine

namespace Json

/-! ### Members -/

/-- The string that is a member of a body. -/
def textAt (body : Json) (name : String) : Option JsString :=
  match body.at? [.field (js name)] with
  | some (.str s) => some s
  | _ => none

/-- The number that is a member of a body. -/
def numberAt (body : Json) (name : String) : Option ℤ :=
  match body.at? [.field (js name)] with
  | some (.num n) => some n
  | _ => none

/-- A member that is read, or `null`. -/
def nullableAt {α : Type} (read : Json → String → Option α) (body : Json) (name : String) :
    Option (Option α) :=
  match body.at? [.field (js name)] with
  | some .null => some none
  | _ => (read body name).map some

def uuidAt (body : Json) (name : String) : Option Uuid := (body.textAt name).map Uuid.ofText

def dateAt (body : Json) (name : String) : Option Time :=
  (body.textAt name).bind IsoDate.readISOString

/-- A member that is the text of one of these values. -/
def memberAt {α : Type} (values : List α) (text : α → JsString) (body : Json) (name : String) :
    Option α :=
  (body.textAt name).bind fun s => values.find? fun a => text a == s

end Json

namespace Api

open Json (dateAt memberAt nullableAt numberAt textAt uuidAt)
open Ledger (AccountResponse TransactionResponse)
open Webhooks (RegisteredWebhook WebhookSubscriptionStatus)

/-! ### Bodies -/

def readTransactionBody (body : Json) : Option TransactionResponse := do
  let id ← body.uuidAt "id"
  let type ← memberAt [.deposit, .withdrawal, .transfer] TransactionType.text body "type"
  let status ← memberAt [.pending, .completed, .failed] TransactionStatus.text body "status"
  let amount ← body.numberAt "amount"
  let currency ← body.textAt "currency"
  let fromAccountId ← nullableAt uuidAt body "fromAccountId"
  let toAccountId ← nullableAt uuidAt body "toAccountId"
  let description ← nullableAt textAt body "description"
  let completedAt ← nullableAt dateAt body "completedAt"
  let createdAt ← body.dateAt "createdAt"
  return { id, type, status, amount, currency, fromAccountId, toAccountId, description,
           completedAt, createdAt }

def readAccountBody (body : Json) : Option AccountResponse := do
  let id ← body.uuidAt "id"
  let currency ← body.textAt "currency"
  let balance ← body.numberAt "balance"
  let status ← memberAt [.active, .blocked] AccountStatus.text body "status"
  let createdAt ← body.dateAt "createdAt"
  return { id, currency, balance, status, createdAt }

def readWebhookBody (body : Json) : Option RegisteredWebhook := do
  let id ← body.uuidAt "id"
  let targetUrl ← body.textAt "targetUrl"
  let eventType ← body.textAt "eventType"
  let status ← memberAt [.active, .inactive] WebhookSubscriptionStatus.text body "status"
  let createdAt ← body.dateAt "createdAt"
  return { id, targetUrl, eventType, status, createdAt }

section Read

variable {body : Json}

theorem textAt_eq {name : String} {s : JsString}
    (h : body.at? [.field (js name)] = some (Json.str s).node) : body.textAt name = some s := by
  unfold Json.textAt
  rw [h]
  rfl

theorem uuidAt_eq {name : String} {id : Uuid}
    (h : body.at? [.field (js name)] = some (Json.uuid id).node) : body.uuidAt name = some id := by
  unfold Json.uuidAt
  rw [textAt_eq h]
  exact congrArg some (Uuid.ofText_text id)

theorem numberAt_eq {name : String} {n : ℤ}
    (h : body.at? [.field (js name)] = some (Json.num n).node) : body.numberAt name = some n := by
  unfold Json.numberAt
  rw [h]
  rfl

theorem node_date {t : Time} (ht : IsoDate.IsValid t) :
    (Json.date t).node = .str (IsoDate.toISOString t) := by
  unfold Json.date
  rw [if_pos ht]
  rfl

/-- A valid date is read where it was written. -/
theorem dateAt_eq {name : String} {t : Time} (ht : IsoDate.IsValid t)
    (h : body.at? [.field (js name)] = some (Json.date t).node) : body.dateAt name = some t := by
  rw [node_date ht] at h
  unfold Json.dateAt Json.textAt
  rw [h]
  exact IsoDate.readISOString_toISOString ht

/-- A value that may be `null` is read where its value, which is not written as `null`, would
be. -/
theorem nullableAt_eq {α : Type} {write : α → Json} {read : Json → String → Option α}
    {name : String} {a : Option α} (hnode : ∀ b, a = some b → (write b).node ≠ .null)
    (hread : ∀ b, a = some b → body.at? [.field (js name)] = some (write b).node →
      read body name = some b)
    (h : body.at? [.field (js name)] = some (Json.nullable write a).node) :
    nullableAt read body name = some a := by
  unfold Json.nullableAt
  cases a with
  | none =>
      rw [h]
      rfl
  | some b =>
      have hvalue : body.at? [.field (js name)] = some (write b).node := h
      rw [hread b rfl hvalue]
      split
      · rename_i hnull
        exact absurd (Option.some.inj (hvalue.symm.trans hnull)) (hnode b rfl)
      · rfl

theorem memberAt_eq {α : Type} {values : List α} {text : α → JsString} {name : String} {a : α}
    (hfind : values.find? (fun b => text b == text a) = some a)
    (h : body.at? [.field (js name)] = some (Json.str (text a)).node) :
    memberAt values text body name = some a := by
  unfold Json.memberAt
  rw [textAt_eq h]
  exact hfind

end Read

/-! ### Responses -/

/-- The dates of a transaction's response are valid. -/
structure Dated (r : TransactionResponse) : Prop where
  completedAt : ∀ t, r.completedAt = some t → IsoDate.IsValid t
  createdAt : IsoDate.IsValid r.createdAt

/-- **A transaction is read in the document of its answer.** -/
theorem readTransactionBody_of_same {body : Json} {r : TransactionResponse} (hr : Dated r)
    (h : body.Same (transactionJson r)) : readTransactionBody body = some r := by
  have hid : body.uuidAt "id" = some r.id := uuidAt_eq (h [.field _])
  have htype : memberAt [.deposit, .withdrawal, .transfer] TransactionType.text body "type" =
      some r.type := memberAt_eq (by cases r.type <;> rfl) (h [.field _])
  have hstatus : memberAt [.pending, .completed, .failed] TransactionStatus.text body "status" =
      some r.status := memberAt_eq (by cases r.status <;> rfl) (h [.field _])
  have hamount : body.numberAt "amount" = some r.amount := numberAt_eq (h [.field _])
  have hcurrency : body.textAt "currency" = some r.currency := textAt_eq (h [.field _])
  have hfrom : nullableAt uuidAt body "fromAccountId" = some r.fromAccountId :=
    nullableAt_eq (by nofun) (fun id _ => uuidAt_eq) (h [.field _])
  have hto : nullableAt uuidAt body "toAccountId" = some r.toAccountId :=
    nullableAt_eq (by nofun) (fun id _ => uuidAt_eq) (h [.field _])
  have hdescription : nullableAt textAt body "description" = some r.description :=
    nullableAt_eq (by nofun) (fun s _ => textAt_eq) (h [.field _])
  have hcompleted : nullableAt dateAt body "completedAt" = some r.completedAt :=
    nullableAt_eq (fun t ht => by rw [node_date (hr.completedAt t ht)]; nofun)
      (fun t ht => dateAt_eq (hr.completedAt t ht)) (h [.field _])
  have hcreated : body.dateAt "createdAt" = some r.createdAt :=
    dateAt_eq hr.createdAt (h [.field _])
  unfold readTransactionBody
  rw [hid, htype, hstatus, hamount, hcurrency, hfrom, hto, hdescription, hcompleted, hcreated]
  rfl

/-- **An account is read in the document of its answer.** -/
theorem readAccountBody_of_same {body : Json} {r : AccountResponse}
    (hr : IsoDate.IsValid r.createdAt) (h : body.Same (accountJson r)) :
    readAccountBody body = some r := by
  have hid : body.uuidAt "id" = some r.id := uuidAt_eq (h [.field _])
  have hcurrency : body.textAt "currency" = some r.currency := textAt_eq (h [.field _])
  have hbalance : body.numberAt "balance" = some r.balance := numberAt_eq (h [.field _])
  have hstatus : memberAt [.active, .blocked] AccountStatus.text body "status" = some r.status :=
    memberAt_eq (by cases r.status <;> rfl) (h [.field _])
  have hcreated : body.dateAt "createdAt" = some r.createdAt := dateAt_eq hr (h [.field _])
  unfold readAccountBody
  rw [hid, hcurrency, hbalance, hstatus, hcreated]
  rfl

/-- **A webhook is read in the document of its answer.** -/
theorem readWebhookBody_of_same {body : Json} {r : RegisteredWebhook}
    (hr : IsoDate.IsValid r.createdAt) (h : body.Same (webhookJson r)) :
    readWebhookBody body = some r := by
  have hid : body.uuidAt "id" = some r.id := uuidAt_eq (h [.field _])
  have hurl : body.textAt "targetUrl" = some r.targetUrl := textAt_eq (h [.field _])
  have hevent : body.textAt "eventType" = some r.eventType := textAt_eq (h [.field _])
  have hstatus : memberAt [.active, .inactive] WebhookSubscriptionStatus.text body "status" =
      some r.status := memberAt_eq (by cases r.status <;> rfl) (h [.field _])
  have hcreated : body.dateAt "createdAt" = some r.createdAt := dateAt_eq hr (h [.field _])
  unfold readWebhookBody
  rw [hid, hurl, hevent, hstatus, hcreated]
  rfl

/-- **A response survives the column its body is replayed from.** -/
theorem bodies_survive (column : Jsonb) :
    (∀ r, Dated r → readTransactionBody (column.store (transactionJson r)) = some r) ∧
      (∀ r : AccountResponse, IsoDate.IsValid r.createdAt →
        readAccountBody (column.store (accountJson r)) = some r) ∧
      (∀ r : RegisteredWebhook, IsoDate.IsValid r.createdAt →
        readWebhookBody (column.store (webhookJson r)) = some r) := by
  refine ⟨?_, ?_, ?_⟩
  · intro r hr
    exact readTransactionBody_of_same hr (column.same _)
  · intro r hr
    exact readAccountBody_of_same hr (column.same _)
  · intro r hr
    exact readWebhookBody_of_same hr (column.same _)

/-- A deposit's response, its date a leap day. -/
def leapDayResponse : TransactionResponse where
  id := .ofText (js "7D8F0A52-0000-4000-8000-000000000001")
  type := .deposit
  status := .completed
  amount := 2500
  currency := js "USD"
  fromAccountId := none
  toAccountId := some (.ofText (js "7d8f0a52-0000-4000-8000-000000000002"))
  description := none
  completedAt := some 1709210096789
  createdAt := 1709210096789

theorem bodies_survive_leapDay : readTransactionBody
    (Jsonb.verbatim.store (transactionJson leapDayResponse)) = some leapDayResponse :=
  (bodies_survive .verbatim).1 leapDayResponse
    ⟨fun _ ht => Option.some.inj ht ▸ (by decide), by decide⟩

end Api
end LedgerEngine
