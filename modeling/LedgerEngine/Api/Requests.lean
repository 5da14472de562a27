/-
# From a body to a service call

What `ValidationPipe` makes of the body of a write request (`src/main.ts`, the
`dto` folders of `src/modules`).  The instance that passes is what the controller hands
on, and the services read its properties; `readRequest` is that reading.

The pipe is a parser.  What a body says, by its members alone, is a relation (`Says`): the
decorators pass exactly the bodies that say a request, and the request is the one that
the services read (`accept_parses`).  Two bodies with one hash are one request
(`accept_eq_of_requestHash_eq`).
-/

import LedgerEngine.Idempotency.PayloadHash
import LedgerEngine.Ledger.Posting
import LedgerEngine.Webhooks.Dispatch

namespace LedgerEngine

/-- The value of the enumeration in the API and in the database. -/
def AccountStatus.text : AccountStatus → JsString
  | .active => js "active"
  | .blocked => js "blocked"

/-- The value of the enumeration in the API and in the database. -/
def Webhooks.WebhookSubscriptionStatus.text : Webhooks.WebhookSubscriptionStatus → JsString
  | .active => js "active"
  | .inactive => js "inactive"

namespace Api

open Idempotency (Body Decorator Instance Property Validates Validators WriteEndpoint isNil
  plainToInstance requestHash)
open Ledger (CreateAccountDto DepositDto Movement TransferDto)
open Webhooks (RegisterWebhookDto WebhookSubscriptionStatus)

/-- What a controller hands to a service. -/
inductive WriteRequest : Type
  | createAccount (dto : CreateAccountDto)
  | move (m : Movement)
  | registerWebhook (dto : RegisterWebhookDto)

/-! ### Reading an instance -/

def asText : Option Json → Option JsString
  | some (.str s) => some s
  | _ => none

def asInteger : Option Json → Option ℤ
  | some (.num n) => some n
  | _ => none

/-- An optional string: undefined, `null` or there. -/
def asOptionalText : Option Json → Option (Option (Option JsString))
  | none => some none
  | some .null => some (some none)
  | some (.str s) => some (some (some s))
  | _ => none

/-- The value of an enumeration with this text. -/
def ofText {α : Type} (values : List α) (text : α → JsString) (s : JsString) : Option α :=
  values.find? fun a => text a == s

/-- An optional member of an enumeration. -/
def asOptionalMember {α : Type} (values : List α) (text : α → JsString) :
    Option Json → Option (Option (Option α))
  | none => some none
  | some .null => some (some none)
  | some (.str s) => (ofText values text s).map fun a => some (some a)
  | _ => none

/-- Reads the properties of a DTO, given by name. -/
abbrev Reader (α : Type) := (JsString → Option Json) → Option α

def readCreateAccount : Reader CreateAccountDto := fun get => do
  let currency ← asText (get (js "currency"))
  let status ← asOptionalMember [.active, .blocked] AccountStatus.text (get (js "status"))
  if h : isCurrency currency = true then some ⟨currency, status, h⟩ else none

def readDeposit : Reader DepositDto := fun get => do
  let accountId ← asText (get (js "accountId"))
  let amount ← asInteger (get (js "amount"))
  let currency ← asText (get (js "currency"))
  let description ← asOptionalText (get (js "description"))
  if h : isUuid accountId = true ∧ 1 ≤ amount ∧ isCurrency currency = true then
    some ⟨accountId, amount, currency, description, h.1, h.2.1, h.2.2⟩
  else none

def readTransfer : Reader TransferDto := fun get => do
  let fromAccountId ← asText (get (js "fromAccountId"))
  let toAccountId ← asText (get (js "toAccountId"))
  let amount ← asInteger (get (js "amount"))
  let currency ← asText (get (js "currency"))
  let description ← asOptionalText (get (js "description"))
  if h : isUuid fromAccountId = true ∧ isUuid toAccountId = true ∧ 1 ≤ amount ∧
      isCurrency currency = true then
    some ⟨fromAccountId, toAccountId, amount, currency, description, h.1, h.2.1, h.2.2.1, h.2.2.2⟩
  else none

/-- `dto.status ?? ACTIVE` does not tell `null` from undefined. -/
def readRegisterWebhook : Reader RegisterWebhookDto := fun get => do
  let targetUrl ← asText (get (js "targetUrl"))
  let eventType ← asText (get (js "eventType"))
  let secret ← asText (get (js "secret"))
  let status ← asOptionalMember [.active, .inactive] WebhookSubscriptionStatus.text
    (get (js "status"))
  return { targetUrl, eventType, secret, status := status.join }

/-- The request that the properties make. -/
def readRequest : WriteEndpoint → Reader WriteRequest
  | .createAccount, get => (readCreateAccount get).map .createAccount
  | .deposit, get => (readDeposit get).map fun dto => .move (.deposit dto)
  | .withdraw, get => (readDeposit get).map fun dto => .move (.withdraw dto)
  | .transfer, get => (readTransfer get).map fun dto => .move (.transfer dto)
  | .registerWebhook, get => (readRegisterWebhook get).map .registerWebhook

/-! ### The pipe -/

/-- The checks of the pipe. -/
def validates (v : Validators) (dto : List Property) (i : Instance) : Bool :=
  (i.all fun p => (dto.map Property.name).contains p.1) &&
    dto.all fun p => p.accepts v (i.get p.name)

theorem validates_iff {v : Validators} {dto : List Property} {i : Instance} :
    validates v dto i = true ↔ Validates v dto i := by
  simp only [validates, Validates, Bool.and_eq_true, List.all_eq_true, List.contains_iff_mem]

/-- What the pipe hands to the controller, if it lets the body through. -/
def accept (v : Validators) (endpoint : WriteEndpoint) (body : Body) : Option WriteRequest :=
  if validates v endpoint.dto (plainToInstance v endpoint.dto body) then
    readRequest endpoint (plainToInstance v endpoint.dto body).get
  else none

/-! ### What a body says -/

/-- The member of an optional string: absent, `null` or there. -/
def optionalMember : Option (Option JsString) → Option Json
  | none => none
  | some none => some .null
  | some (some s) => some (.str s)

/-- The members are those of a `DepositDto`, and its currency has the length asked for. -/
structure SaysDeposit (v : Validators) (get : JsString → Option Json) (dto : DepositDto) :
    Prop where
  accountId : get (js "accountId") = some (.str dto.accountId)
  amount : get (js "amount") = some (.num dto.amount)
  currency : get (js "currency") = some (.str dto.currency)
  length : v.lengthOf dto.currency = 3
  description : get (js "description") = optionalMember dto.description

/-- **What the members of a body ask for**: they are those of the request, whose type holds
what can be told of each alone, and pass the checks left to `validator`. -/
inductive Says (v : Validators) (get : JsString → Option Json) : WriteEndpoint → WriteRequest → Prop
  | createAccount {dto : CreateAccountDto}
      (currency : get (js "currency") = some (.str dto.currency))
      (length : v.lengthOf dto.currency = 3)
      (status : get (js "status") =
        optionalMember (dto.status.map (Option.map AccountStatus.text))) :
      Says v get .createAccount (.createAccount dto)
  | deposit {dto : DepositDto} (h : SaysDeposit v get dto) :
      Says v get .deposit (.move (.deposit dto))
  | withdraw {dto : DepositDto} (h : SaysDeposit v get dto) :
      Says v get .withdraw (.move (.withdraw dto))
  | transfer {dto : TransferDto}
      (fromAccountId : get (js "fromAccountId") = some (.str dto.fromAccountId))
      (toAccountId : get (js "toAccountId") = some (.str dto.toAccountId))
      (amount : get (js "amount") = some (.num dto.amount))
      (currency : get (js "currency") = some (.str dto.currency))
      (length : v.lengthOf dto.currency = 3)
      (description : get (js "description") = optionalMember dto.description) :
      Says v get .transfer (.move (.transfer dto))
  | registerWebhook {dto : RegisterWebhookDto} {status : Option (Option WebhookSubscriptionStatus)}
      (targetUrl : get (js "targetUrl") = some (.str dto.targetUrl))
      (url : v.isURL dto.targetUrl = true)
      (eventType : get (js "eventType") = some (.str dto.eventType))
      (secret : get (js "secret") = some (.str dto.secret))
      (length : 8 ≤ v.lengthOf dto.secret)
      (member : get (js "status") =
        optionalMember (status.map (Option.map WebhookSubscriptionStatus.text)))
      (join : status.join = dto.status) : Says v get .registerWebhook (.registerWebhook dto)

/-- Every member of the body is declared, or is one that is not assigned. -/
def Declared (v : Validators) (endpoint : WriteEndpoint) (body : Body) : Prop :=
  ∀ m ∈ body.members, v.leavesOut m.1 = true ∨ m.1 ∈ endpoint.dto.map Property.name

theorem declared_iff {v : Validators} {endpoint : WriteEndpoint} {body : Body} :
    Declared v endpoint body ↔ ∀ m ∈ body.members.filter fun m => !v.leavesOut m.1,
      m.1 ∈ endpoint.dto.map Property.name := by
  unfold Declared
  simp only [List.mem_filter, Bool.not_eq_true', and_imp]
  refine forall_congr' fun m => imp_congr_right fun _ => ?_
  cases v.leavesOut m.1 <;> simp

theorem asOptionalText_optionalMember (d : Option (Option JsString)) :
    asOptionalText (optionalMember d) = some d := by
  rcases d with - | - | s <;> rfl

/-- An enumeration is read from the texts of its members. -/
theorem asOptionalMember_optionalMember {α : Type} {values : List α} {text : α → JsString}
    (h : ∀ a, ofText values text (text a) = some a) (d : Option (Option α)) :
    asOptionalMember values text (optionalMember (d.map (Option.map text))) = some d := by
  rcases d with - | - | a
  · rfl
  · rfl
  · exact congrArg (Option.map fun a => some (some a)) (h a)

/-- **What a body says is read.** -/
theorem Says.read {v : Validators} {get : JsString → Option Json} {endpoint : WriteEndpoint}
    {request : WriteRequest} (h : Says v get endpoint request) :
    readRequest endpoint get = some request := by
  have hdeposit : ∀ {dto : DepositDto}, SaysDeposit v get dto → readDeposit get = some dto := by
    intro dto h
    simp only [readDeposit, h.accountId, h.amount, h.currency, h.description, asText, asInteger,
      asOptionalText_optionalMember, Option.bind_eq_bind, Option.bind_some,
      dif_pos (And.intro dto.accountId_isUuid (And.intro dto.amount_min dto.currency_matches))]
  cases h with
  | @createAccount dto hcurrency _ hstatus =>
      have htext : ∀ a, ofText [.active, .blocked] AccountStatus.text a.text = some a := by
        intro a
        cases a <;> decide
      simp only [readRequest, readCreateAccount, hcurrency, hstatus, asText,
        asOptionalMember_optionalMember htext, Option.bind_eq_bind, Option.bind_some,
        dif_pos dto.currency_matches, Option.map_some]
  | deposit h => rw [readRequest, hdeposit h, Option.map_some]
  | withdraw h => rw [readRequest, hdeposit h, Option.map_some]
  | @transfer dto hsource htarget hamount hcurrency _ hdescription =>
      simp only [readRequest, readTransfer, hsource, htarget, hamount, hcurrency, hdescription,
        asText, asInteger, asOptionalText_optionalMember, Option.bind_eq_bind, Option.bind_some,
        dif_pos (And.intro dto.fromAccountId_isUuid (And.intro dto.toAccountId_isUuid
          (And.intro dto.amount_min dto.currency_matches))), Option.map_some]
  | @registerWebhook dto status htargetUrl _ heventType hsecret _ hmember hjoin =>
      have htext : ∀ a, ofText [.active, .inactive] WebhookSubscriptionStatus.text a.text =
          some a := by
        intro a
        cases a <;> decide
      simp only [readRequest, readRegisterWebhook, htargetUrl, heventType, hsecret, hmember,
        asText, asOptionalMember_optionalMember htext, Option.bind_eq_bind, Option.bind_some,
        hjoin]
      rfl

/-! ### What the decorators ask -/

section Accepts

variable {v : Validators} {value : Option Json} {name : JsString}

/-- A property that is not optional has passed each of its decorators. -/
theorem accepts_required {ds : List Decorator} :
    Property.accepts v ⟨name, false, ds⟩ value = true ↔ ∀ d ∈ ds, d.accepts v value = true := by
  simp [Property.accepts]

/-- An optional property is undefined, `null` or has passed each of its decorators. -/
theorem accepts_optional {ds : List Decorator} :
    Property.accepts v ⟨name, true, ds⟩ value = true ↔
      value = none ∨ value = some .null ∨ ∀ d ∈ ds, d.accepts v value = true := by
  have hnil : isNil value = true ↔ value = none ∨ value = some .null := by
    rcases value with - | j
    · simp [isNil]
    · cases j <;> simp [isNil]
  simp only [Property.accepts, Bool.true_and, Bool.or_eq_true, List.all_eq_true, hnil, or_assoc]

/-- A decorator of a string passes strings only. -/
theorem asText_of_accepts {d : Decorator} (h : d.accepts v value = true)
    (hd : d ≠ .isInt ∧ ∀ n, d ≠ .min n) : ∃ s, value = some (.str s) := by
  cases value with
  | none => cases d <;> exact absurd h Bool.false_ne_true
  | some j =>
      cases j with
      | str s => exact ⟨s, rfl⟩
      | num n =>
          cases d with
          | isInt => exact absurd rfl hd.1
          | min m => exact absurd rfl (hd.2 m)
          | _ => exact absurd h Bool.false_ne_true
      | _ => cases d <;> exact absurd h Bool.false_ne_true

/-- A required property whose first decorator is one of a string. -/
theorem accepts_text {d : Decorator} {ds : List Decorator} (hd : d ≠ .isInt ∧ ∀ n, d ≠ .min n) :
    Property.accepts v ⟨name, false, d :: ds⟩ value = true ↔
      ∃ s, value = some (.str s) ∧ ∀ d' ∈ d :: ds, d'.accepts v (some (.str s)) = true := by
  rw [accepts_required]
  constructor
  · intro h
    obtain ⟨s, rfl⟩ := asText_of_accepts (h d (List.mem_cons_self ..)) hd
    exact ⟨s, rfl, h⟩
  · rintro ⟨s, rfl, h⟩
    exact h

theorem accepts_uuid : Property.accepts v ⟨name, false, [.isUUID]⟩ value = true ↔
    ∃ s, value = some (.str s) ∧ isUuid s = true := by
  rw [accepts_text ⟨by simp, by simp⟩]
  simp only [List.forall_mem_singleton]
  rfl

theorem accepts_string : Property.accepts v ⟨name, false, [.isString]⟩ value = true ↔
    ∃ s, value = some (.str s) := by
  rw [accepts_text ⟨by simp, by simp⟩]
  simp [Decorator.accepts]

theorem accepts_url : Property.accepts v ⟨name, false, [.isUrl]⟩ value = true ↔
    ∃ s, value = some (.str s) ∧ v.isURL s = true := by
  rw [accepts_text ⟨by simp, by simp⟩]
  simp only [List.forall_mem_singleton]
  rfl

theorem accepts_secret {n : ℕ} :
    Property.accepts v ⟨name, false, [.isString, .minLength n]⟩ value = true ↔
      ∃ s, value = some (.str s) ∧ n ≤ v.lengthOf s := by
  rw [accepts_text ⟨by simp, by simp⟩]
  simp [Decorator.accepts]

theorem accepts_amount : Idempotency.amountProperty.accepts v value = true ↔
    ∃ n, value = some (.num n) ∧ 1 ≤ n := by
  rw [Idempotency.amountProperty, accepts_required]
  constructor
  · intro h
    have hmin := h (.min 1) (by simp)
    cases value with
    | none => exact absurd hmin Bool.false_ne_true
    | some j =>
        cases j with
        | num n => exact ⟨n, rfl, of_decide_eq_true hmin⟩
        | _ => exact absurd hmin Bool.false_ne_true
  · rintro ⟨n, rfl, hn⟩
    simp [Decorator.accepts, hn]

theorem accepts_currency : Idempotency.currencyProperty.accepts v value = true ↔
    ∃ s, value = some (.str s) ∧ isCurrency s = true ∧ v.lengthOf s = 3 := by
  rw [Idempotency.currencyProperty, accepts_text ⟨by simp, by simp⟩]
  refine exists_congr fun s => and_congr_right fun _ => ?_
  simp only [Decorator.accepts, List.forall_mem_cons, List.not_mem_nil, IsEmpty.forall_iff,
    implies_true, Bool.and_eq_true, decide_eq_true_eq, true_and, and_true]
  rw [and_comm]
  exact and_congr_right fun _ => ⟨fun h => le_antisymm h.2 h.1, fun h => ⟨h.ge, h.le⟩⟩

/-- An optional string. -/
theorem accepts_description : Idempotency.descriptionProperty.accepts v value = true ↔
    ∃ d, value = optionalMember d := by
  rw [Idempotency.descriptionProperty, accepts_optional]
  constructor
  · rintro (rfl | rfl | h)
    · exact ⟨none, rfl⟩
    · exact ⟨some none, rfl⟩
    · obtain ⟨s, rfl⟩ := asText_of_accepts (h _ (List.mem_cons_self ..)) ⟨by simp, by simp⟩
      exact ⟨some (some s), rfl⟩
  · rintro ⟨- | - | s, rfl⟩
    · exact Or.inl rfl
    · exact Or.inr (Or.inl rfl)
    · exact Or.inr (Or.inr (by simp [Decorator.accepts, optionalMember]))

/-- An optional member of an enumeration. -/
theorem accepts_member {α : Type} {values : List α} {text : α → JsString}
    (hvalues : ∀ a, a ∈ values) :
    Property.accepts v ⟨name, true, [.isEnum (values.map text)]⟩ value = true ↔
      ∃ d, value = optionalMember (Option.map (Option.map text) d) := by
  rw [accepts_optional]
  constructor
  · rintro (rfl | rfl | h)
    · exact ⟨none, rfl⟩
    · exact ⟨some none, rfl⟩
    · have henum := h _ (List.mem_cons_self ..)
      obtain ⟨s, rfl⟩ := asText_of_accepts henum ⟨by simp, by simp⟩
      obtain ⟨a, -, rfl⟩ := List.mem_map.1 (of_decide_eq_true henum)
      exact ⟨some (some a), rfl⟩
  · rintro ⟨- | - | a, rfl⟩
    · exact Or.inl rfl
    · exact Or.inr (Or.inl rfl)
    · refine Or.inr (Or.inr (List.forall_mem_singleton.2 ?_))
      exact decide_eq_true (List.mem_map_of_mem (hvalues a))

end Accepts

/-! ### The pipe is a parser -/

section Says

variable {v : Validators} {get : JsString → Option Json}

theorem accepts_createAccount_iff :
    (∀ p ∈ Idempotency.createAccountDto, p.accepts v (get p.name) = true) ↔
      ∃ request, Says v get .createAccount request := by
  have hstatus : Property.accepts v ⟨js "status", true,
      [.isEnum ([.active, .blocked].map AccountStatus.text)]⟩ (get (js "status")) = true ↔ _ :=
    accepts_member (by rintro (_ | _) <;> simp)
  simp only [Idempotency.createAccountDto, List.forall_mem_cons, List.not_mem_nil,
    IsEmpty.forall_iff, implies_true, and_true]
  constructor
  · rintro ⟨hcurrency, hmember⟩
    obtain ⟨currency, hget, hmatches, hlength⟩ := accepts_currency.1 hcurrency
    obtain ⟨status, hmember⟩ := hstatus.1 hmember
    let dto : CreateAccountDto := ⟨currency, status, hmatches⟩
    exact ⟨.createAccount dto, .createAccount hget hlength hmember⟩
  · rintro ⟨_, h⟩
    cases h with
    | @createAccount dto hcurrency hlength hmember =>
        exact ⟨accepts_currency.2 ⟨_, hcurrency, dto.currency_matches, hlength⟩,
          hstatus.2 ⟨_, hmember⟩⟩

theorem accepts_deposit_iff :
    (∀ p ∈ Idempotency.depositDto, p.accepts v (get p.name) = true) ↔
      ∃ dto, SaysDeposit v get dto := by
  simp only [Idempotency.depositDto, List.forall_mem_cons, List.not_mem_nil,
    IsEmpty.forall_iff, implies_true, and_true]
  constructor
  · rintro ⟨haccountId, hamount, hcurrency, hdescription⟩
    obtain ⟨accountId, haccountId, huuid⟩ := accepts_uuid.1 haccountId
    obtain ⟨amount, hamount, hmin⟩ := accepts_amount.1 hamount
    obtain ⟨currency, hcurrency, hmatches, hlength⟩ := accepts_currency.1 hcurrency
    obtain ⟨description, hdescription⟩ := accepts_description.1 hdescription
    exact ⟨⟨accountId, amount, currency, description, huuid, hmin, hmatches⟩,
      haccountId, hamount, hcurrency, hlength, hdescription⟩
  · rintro ⟨dto, h⟩
    exact ⟨accepts_uuid.2 ⟨_, h.accountId, dto.accountId_isUuid⟩,
      accepts_amount.2 ⟨_, h.amount, dto.amount_min⟩,
      accepts_currency.2 ⟨_, h.currency, dto.currency_matches, h.length⟩,
      accepts_description.2 ⟨_, h.description⟩⟩

theorem accepts_transfer_iff :
    (∀ p ∈ Idempotency.transferDto, p.accepts v (get p.name) = true) ↔
      ∃ request, Says v get .transfer request := by
  simp only [Idempotency.transferDto, List.forall_mem_cons, List.not_mem_nil,
    IsEmpty.forall_iff, implies_true, and_true]
  constructor
  · rintro ⟨hsource, htarget, hamount, hcurrency, hdescription⟩
    obtain ⟨source, hsource, huuid⟩ := accepts_uuid.1 hsource
    obtain ⟨target, htarget, huuid'⟩ := accepts_uuid.1 htarget
    obtain ⟨amount, hamount, hmin⟩ := accepts_amount.1 hamount
    obtain ⟨currency, hcurrency, hmatches, hlength⟩ := accepts_currency.1 hcurrency
    obtain ⟨description, hdescription⟩ := accepts_description.1 hdescription
    let dto : TransferDto :=
      ⟨source, target, amount, currency, description, huuid, huuid', hmin, hmatches⟩
    exact ⟨.move (.transfer dto), .transfer hsource htarget hamount hcurrency hlength hdescription⟩
  · rintro ⟨_, h⟩
    cases h with
    | @transfer dto hsource htarget hamount hcurrency hlength hdescription =>
        exact ⟨accepts_uuid.2 ⟨_, hsource, dto.fromAccountId_isUuid⟩,
          accepts_uuid.2 ⟨_, htarget, dto.toAccountId_isUuid⟩,
          accepts_amount.2 ⟨_, hamount, dto.amount_min⟩,
          accepts_currency.2 ⟨_, hcurrency, dto.currency_matches, hlength⟩,
          accepts_description.2 ⟨_, hdescription⟩⟩

theorem accepts_registerWebhook_iff :
    (∀ p ∈ Idempotency.registerWebhookDto, p.accepts v (get p.name) = true) ↔
      ∃ request, Says v get .registerWebhook request := by
  have hstatus : Property.accepts v ⟨js "status", true,
      [.isEnum ([.active, .inactive].map WebhookSubscriptionStatus.text)]⟩
        (get (js "status")) = true ↔ _ :=
    accepts_member (by rintro (_ | _) <;> simp)
  simp only [Idempotency.registerWebhookDto, List.forall_mem_cons, List.not_mem_nil,
    IsEmpty.forall_iff, implies_true, and_true]
  constructor
  · rintro ⟨htargetUrl, heventType, hsecret, hmember⟩
    obtain ⟨targetUrl, htargetUrl, hurl⟩ := accepts_url.1 htargetUrl
    obtain ⟨eventType, heventType⟩ := accepts_string.1 heventType
    obtain ⟨secret, hsecret, hlength⟩ := accepts_secret.1 hsecret
    obtain ⟨status, hmember⟩ := hstatus.1 hmember
    let dto : RegisterWebhookDto := ⟨targetUrl, eventType, secret, status.join⟩
    exact ⟨.registerWebhook dto,
      .registerWebhook htargetUrl hurl heventType hsecret hlength hmember rfl⟩
  · rintro ⟨_, h⟩
    cases h with
    | registerWebhook htargetUrl hurl heventType hsecret hlength hmember _ =>
        exact ⟨accepts_url.2 ⟨_, htargetUrl, hurl⟩, accepts_string.2 ⟨_, heventType⟩,
          accepts_secret.2 ⟨_, hsecret, hlength⟩, hstatus.2 ⟨_, hmember⟩⟩

/-- **The decorators pass exactly what says a request.** -/
theorem accepts_iff_exists (endpoint : WriteEndpoint) :
    (∀ p ∈ endpoint.dto, p.accepts v (get p.name) = true) ↔
      ∃ request, Says v get endpoint request := by
  cases endpoint with
  | createAccount => exact accepts_createAccount_iff
  | deposit =>
      refine accepts_deposit_iff.trans ⟨fun ⟨dto, h⟩ => ⟨_, .deposit h⟩, ?_⟩
      rintro ⟨_, h⟩
      cases h with
      | deposit h => exact ⟨_, h⟩
  | withdraw =>
      refine accepts_deposit_iff.trans ⟨fun ⟨dto, h⟩ => ⟨_, .withdraw h⟩, ?_⟩
      rintro ⟨_, h⟩
      cases h with
      | withdraw h => exact ⟨_, h⟩
  | transfer => exact accepts_transfer_iff
  | registerWebhook => exact accepts_registerWebhook_iff

end Says

/-- The properties of an instance without others are the members of the body. -/
theorem get_plainToInstance {v : Validators} {endpoint : WriteEndpoint} {body : Body}
    (h : Declared v endpoint body) : ∀ p ∈ endpoint.dto,
      (plainToInstance v endpoint.dto body).get p.name = body.get? p.name := by
  intro p hp
  rw [Idempotency.plainToInstance_eq_of_declared (declared_iff.1 h),
    Idempotency.get_map hp body.get?]

/-- **The pipe lets a body through if and only if** it has no other members and says a
request. -/
theorem validates_iff_exists {v : Validators} {endpoint : WriteEndpoint} {body : Body} :
    Validates v endpoint.dto (plainToInstance v endpoint.dto body) ↔
      Declared v endpoint body ∧ ∃ request, Says v body.get? endpoint request := by
  rw [← accepts_iff_exists]
  constructor
  · intro hv
    have hdeclared : Declared v endpoint body := declared_iff.2 (Idempotency.declared_of_mem hv.1)
    exact ⟨hdeclared, fun p hp => get_plainToInstance hdeclared p hp ▸ hv.2 p hp⟩
  · rintro ⟨hdeclared, haccepts⟩
    refine ⟨fun p hp => ?_, fun p hp => ?_⟩
    · rw [Idempotency.plainToInstance_eq_of_declared (declared_iff.1 hdeclared)] at hp
      obtain ⟨q, hq, rfl⟩ := List.mem_map.1 hp
      exact List.mem_map_of_mem hq
    · rw [get_plainToInstance hdeclared p hp]
      exact haccepts p hp

/-- Only the declared properties are read. -/
theorem readRequest_congr {endpoint : WriteEndpoint} {get get' : JsString → Option Json}
    (h : ∀ name ∈ endpoint.dto.map Property.name, get name = get' name) :
    readRequest endpoint get = readRequest endpoint get' := by
  have hdeposit : (∀ name ∈ Idempotency.depositDto.map Property.name, get name = get' name) →
      readDeposit get = readDeposit get' := fun h => by
    simp only [readDeposit, h (js "accountId") (by decide), h (js "amount") (by decide),
      h (js "currency") (by decide), h (js "description") (by decide)]
  cases endpoint with
  | createAccount =>
      simp only [readRequest, readCreateAccount, h (js "currency") (by decide),
        h (js "status") (by decide)]
  | deposit => rw [readRequest, readRequest, hdeposit h]
  | withdraw => rw [readRequest, readRequest, hdeposit h]
  | transfer =>
      simp only [readRequest, readTransfer, h (js "fromAccountId") (by decide),
        h (js "toAccountId") (by decide), h (js "amount") (by decide),
        h (js "currency") (by decide), h (js "description") (by decide)]
  | registerWebhook =>
      simp only [readRequest, readRegisterWebhook, h (js "targetUrl") (by decide),
        h (js "eventType") (by decide), h (js "secret") (by decide), h (js "status") (by decide)]

theorem validates_of_accept {v : Validators} {endpoint : WriteEndpoint} {body : Body}
    {request : WriteRequest} (h : accept v endpoint body = some request) :
    Validates v endpoint.dto (plainToInstance v endpoint.dto body) := by
  unfold accept at h
  split_ifs at h with hv
  exact validates_iff.1 hv

/-- **What the pipe hands on is what the body says.** -/
theorem accept_eq_some_iff {v : Validators} {endpoint : WriteEndpoint} {body : Body}
    {request : WriteRequest} : accept v endpoint body = some request ↔
      Declared v endpoint body ∧ Says v body.get? endpoint request := by
  have hread : Declared v endpoint body →
      readRequest endpoint (plainToInstance v endpoint.dto body).get =
        readRequest endpoint body.get? := fun hdeclared =>
    readRequest_congr fun name hname => by
      obtain ⟨p, hp, rfl⟩ := List.mem_map.1 hname
      exact get_plainToInstance hdeclared p hp
  constructor
  · intro h
    have hv := validates_of_accept h
    obtain ⟨hdeclared, request', hsaid⟩ := validates_iff_exists.1 hv
    rw [accept, if_pos (validates_iff.2 hv), hread hdeclared, hsaid.read] at h
    obtain rfl := Option.some.inj h
    exact ⟨hdeclared, hsaid⟩
  · rintro ⟨hdeclared, hsaid⟩
    have hv := validates_iff_exists.2 ⟨hdeclared, request, hsaid⟩
    rw [accept, if_pos (validates_iff.2 hv), hread hdeclared, hsaid.read]

/-- **The pipe is a parser.**  It lets a body through if and only if the body says a
request, and what it hands on is the request that the body says. -/
theorem accept_parses {v : Validators} {endpoint : WriteEndpoint} {body : Body} :
    (Validates v endpoint.dto (plainToInstance v endpoint.dto body) ↔
      Declared v endpoint body ∧ ∃ request, Says v body.get? endpoint request) ∧
    ∀ request, accept v endpoint body = some request ↔
      Declared v endpoint body ∧ Says v body.get? endpoint request :=
  ⟨validates_iff_exists, fun _ => accept_eq_some_iff⟩

/-- What is hashed of a body: the text of its instance. -/
def payloadBytes (v : Validators) (endpoint : WriteEndpoint) (body : Body) : ByteArray :=
  Utf8.utf8 (Stringify.stringify (plainToInstance v endpoint.dto body).toJson)

/-- **Two bodies with one hash are one request**, as long as SHA-256 tells their texts
apart. -/
theorem accept_eq_of_requestHash_eq {sha256 : ByteArray → List UInt8} {v : Validators}
    {endpoint : WriteEndpoint} {body body' : Body} {request request' : WriteRequest}
    (hsha256 : sha256 (payloadBytes v endpoint body) = sha256 (payloadBytes v endpoint body') →
      payloadBytes v endpoint body = payloadBytes v endpoint body')
    (h : accept v endpoint body = some request) (h' : accept v endpoint body' = some request')
    (he : requestHash v sha256 endpoint body = requestHash v sha256 endpoint body') :
    request = request' := by
  have hv := validates_of_accept h
  have hv' := validates_of_accept h'
  have hscalar := Idempotency.scalar_of_mem_present hv
  have hscalar' := Idempotency.scalar_of_mem_present hv'
  have hbytes := hsha256 (Idempotency.hex_injective he)
  rw [payloadBytes, payloadBytes, Idempotency.toJson_plainToInstance hv,
    Idempotency.toJson_plainToInstance hv'] at hbytes
  have hpresent := Stringify.stringify_injective hscalar hscalar'
    (Utf8.utf8_injective (Stringify.wellFormed_stringify hscalar)
      (Stringify.wellFormed_stringify hscalar') hbytes)
  have hinstance :
      plainToInstance v endpoint.dto body = plainToInstance v endpoint.dto body' := by
    rw [Idempotency.plainToInstance_eq hv, Idempotency.plainToInstance_eq hv']
    refine List.map_congr_left fun p hp => ?_
    rw [(Idempotency.present_eq_iff endpoint.nodup).1 hpresent p hp]
  unfold accept at h h'
  rw [hinstance, h'] at h
  exact (Option.some.inj h).symm

/-! ### Amounts -/

/-- The amount of a movement is a member of the body. -/
theorem Says.amount {v : Validators} {get : JsString → Option Json} {endpoint : WriteEndpoint}
    {m : Movement} (h : Says v get endpoint (.move m)) :
    get (js "amount") = some (.num m.amount) := by
  cases h with
  | deposit h => exact h.amount
  | withdraw h => exact h.amount
  | transfer _ _ hamount => exact hamount

/-- **The amount of an accepted movement is a JavaScript number.** -/
theorem fitsInt_amount {v : Validators} {endpoint : WriteEndpoint} {body : Body} {m : Movement}
    (h : accept v endpoint body = some (.move m)) : Rounding.FitsInt 53 m.amount := by
  have hamount := (accept_eq_some_iff.1 h).2.amount
  obtain ⟨sent, hsent, hnum⟩ := Option.map_eq_some_iff.1 hamount
  exact body.numbers sent (List.mem_of_find?_eq_some hsent) _ hnum

end Api
end LedgerEngine
