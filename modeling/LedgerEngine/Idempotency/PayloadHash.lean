/-
# The hash of a request

`createPayloadHash` (`src/common/utils/hash.util.ts`) is the SHA-256 of the JSON text
of a request's DTO.  The DTO of each write endpoint is a list of properties with the
decorators of its class.  A fresh instance has all of them, still undefined and in
the order of their declaration (class fields of ES2023); the members of the body are
assigned to it one after the other, but for some that it inherits
(`plainToInstance`), and the validation pipe lets it through with declared properties
only (`Validates`).

So the order of the members of the body is not that of the text, and the text is
that of the members the body has: the hashes of two bodies that are let through are
equal **if and only if** the bodies agree on every property of the DTO
(`createPayloadHash_eq_iff`), an absent one being other than `null`.
-/

import LedgerEngine.Common.Stringify

namespace LedgerEngine
namespace Idempotency

open Rounding (FitsInt)
open Stringify (Scalar hexUnit hexValue stringify)

/-! ### Decorators -/

/-- What a decorator of `class-validator` asks of a property. -/
inductive Decorator : Type
  | isUUID
  | isInt
  | min (n : ℤ)
  | isString
  | length (least most : ℕ)
  | matches (pattern : JsString → Bool)
  | isEnum (values : List JsString)
  | isUrl
  | minLength (n : ℕ)

/-- A declared property. -/
structure Property where
  name : JsString
  isOptional : Bool
  decorators : List Decorator

/-! ### The DTOs -/

def currencyProperty : Property :=
  ⟨js "currency", false, [.isString, .length 3 3, .matches isCurrency]⟩

def amountProperty : Property := ⟨js "amount", false, [.isInt, .min 1]⟩

def descriptionProperty : Property := ⟨js "description", true, [.isString]⟩

def createAccountDto : List Property :=
  [currencyProperty, ⟨js "status", true, [.isEnum [js "active", js "blocked"]]⟩]

def depositDto : List Property :=
  [⟨js "accountId", false, [.isUUID]⟩, amountProperty, currencyProperty, descriptionProperty]

/-- `WithdrawDto extends DepositDto`. -/
def withdrawDto : List Property := depositDto

def transferDto : List Property :=
  [⟨js "fromAccountId", false, [.isUUID]⟩, ⟨js "toAccountId", false, [.isUUID]⟩, amountProperty,
    currencyProperty, descriptionProperty]

def registerWebhookDto : List Property :=
  [⟨js "targetUrl", false, [.isUrl]⟩, ⟨js "eventType", false, [.isString]⟩,
    ⟨js "secret", false, [.isString, .minLength 8]⟩,
    ⟨js "status", true, [.isEnum [js "active", js "inactive"]]⟩]

/-- The endpoints that take an idempotency key. -/
inductive WriteEndpoint : Type
  | createAccount
  | deposit
  | withdraw
  | transfer
  | registerWebhook
  deriving DecidableEq

def WriteEndpoint.dto : WriteEndpoint → List Property
  | .createAccount => createAccountDto
  | .deposit => depositDto
  | .withdraw => withdrawDto
  | .transfer => transferDto
  | .registerWebhook => registerWebhookDto

/-! ### The checks -/

/-- What is left to `validator` and `class-transformer`. -/
structure Validators where
  isURL : JsString → Bool
  /-- The length `@Length` and `@MinLength` compare. -/
  lengthOf : JsString → ℕ
  /-- The members that are not assigned, whatever they hold: their names are those of what
  an instance inherits from `Object.prototype`. -/
  leavesOut : JsString → Bool
  /-- No DTO declares such a name. -/
  declared : ∀ endpoint : WriteEndpoint, ∀ p ∈ endpoint.dto, leavesOut p.name = false

/-- The check of a property's value, `none` if it is undefined.  Every number of the
model is an integer. -/
def Decorator.accepts (v : Validators) : Decorator → Option Json → Bool
  | .isUUID, some (.str s) => isUuid s
  | .isInt, some (.num _) => true
  | .min n, some (.num m) => n ≤ m
  | .isString, some (.str _) => true
  | .length least most, some (.str s) => least ≤ v.lengthOf s && v.lengthOf s ≤ most
  | .matches pattern, some (.str s) => pattern s
  | .isEnum values, some (.str s) => s ∈ values
  | .isUrl, some (.str s) => v.isURL s
  | .minLength n, some (.str s) => n ≤ v.lengthOf s
  | _, _ => false

/-- `undefined` or `null`. -/
def isNil : Option Json → Bool
  | none | some .null => true
  | _ => false

/-- `@IsOptional()` lets `undefined` and `null` pass the other decorators. -/
def Property.accepts (v : Validators) (p : Property) (value : Option Json) : Bool :=
  p.isOptional && isNil value || p.decorators.all fun d => d.accepts v value

/-! ### From a body to a hash -/

/-- A body that `JSON.parse` gives: members with distinct names, in the order they
were sent, their numbers JavaScript numbers. -/
structure Body where
  members : List (JsString × Json)
  distinct : (members.map Prod.fst).Nodup
  numbers : ∀ m ∈ members, ∀ n, m.2 = .num n → FitsInt 53 n

/-- The value of a member, `none` if it is absent. -/
def Body.get? (body : Body) (name : JsString) : Option Json :=
  (body.members.find? fun m => m.1 = name).map Prod.snd

/-- An instance of a class: its own properties in order, each with its value or
undefined. -/
abbrev Instance := List (JsString × Option Json)

/-- The value of a property. -/
def Instance.get (i : Instance) (name : JsString) : Option Json :=
  (i.find? fun p => p.1 = name).bind Prod.snd

/-- `new Dto()`. -/
def fresh (dto : List Property) : Instance := dto.map fun p => (p.name, none)

/-- An assignment: the property keeps its place, a new one comes last. -/
def assign (i : Instance) (m : JsString × Json) : Instance :=
  if m.1 ∈ i.map Prod.fst then i.map fun p => if p.1 = m.1 then (p.1, some m.2) else p
  else i ++ [(m.1, some m.2)]

/-- The body's members assigned to a fresh instance. -/
def plainToInstance (v : Validators) (dto : List Property) (body : Body) : Instance :=
  (body.members.filter fun m => !v.leavesOut m.1).foldl assign (fresh dto)

/-- `ValidationPipe` with `whitelist` and `forbidNonWhitelisted`: no property is
undeclared, and each declared one is accepted. -/
def Validates (v : Validators) (dto : List Property) (i : Instance) : Prop :=
  (∀ p ∈ i, p.1 ∈ dto.map Property.name) ∧ ∀ p ∈ dto, p.accepts v (i.get p.name) = true

/-- The properties `JSON.stringify` finds: undefined ones are skipped. -/
def Instance.toJson (i : Instance) : Json :=
  .obj (i.filterMap fun p => p.2.map fun value => (p.1, value))

/-- `digest('hex')`. -/
def hex (bytes : List UInt8) : JsString :=
  bytes.flatMap fun b => [hexUnit (b.toNat / 16), hexUnit (b.toNat % 16)]

def createPayloadHash (sha256 : ByteArray → List UInt8) (payload : Json) : JsString :=
  hex (sha256 (Utf8.utf8 (stringify payload)))

/-- The hash of a request's body. -/
def requestHash (v : Validators) (sha256 : ByteArray → List UInt8) (endpoint : WriteEndpoint)
    (body : Body) : JsString :=
  createPayloadHash sha256 (plainToInstance v endpoint.dto body).toJson

/-! ### The instance -/

theorem mem_keys_assign {i : Instance} {m : JsString × Json} {name : JsString} :
    name ∈ (assign i m).map Prod.fst ↔ name ∈ i.map Prod.fst ∨ name = m.1 := by
  unfold assign
  split_ifs with h
  · have hkeys : (i.map fun p => if p.1 = m.1 then (p.1, some m.2) else p).map Prod.fst =
        i.map Prod.fst := by
      rw [List.map_map]
      refine List.map_congr_left fun p _ => ?_
      rw [Function.comp_apply]
      split_ifs <;> rfl
    rw [hkeys]
    exact ⟨Or.inl, fun h' => h'.elim id fun he => he ▸ h⟩
  · simp

theorem mem_keys_foldl {ms : List (JsString × Json)} {i : Instance} {name : JsString} :
    name ∈ (ms.foldl assign i).map Prod.fst ↔ name ∈ i.map Prod.fst ∨ name ∈ ms.map Prod.fst := by
  induction ms generalizing i with
  | nil => simp
  | cons m ms ih =>
      rw [List.foldl_cons, ih, mem_keys_assign, List.map_cons, List.mem_cons, or_assoc]

/-- Members of declared names, assigned one after the other. -/
theorem foldl_assign {dto : List Property} (g : JsString → Option Json)
    {ms : List (JsString × Json)} (hn : (ms.map Prod.fst).Nodup)
    (h : ∀ m ∈ ms, m.1 ∈ dto.map Property.name) :
    ms.foldl assign (dto.map fun p => (p.name, g p.name)) =
      dto.map fun p =>
        (p.name, ((ms.find? fun m => m.1 = p.name).map Prod.snd).or (g p.name)) := by
  induction ms generalizing g with
  | nil => rfl
  | cons m ms ih =>
      rw [List.map_cons, List.nodup_cons] at hn
      have hassign : assign (dto.map fun p => (p.name, g p.name)) m =
          dto.map fun p => (p.name, if p.name = m.1 then some m.2 else g p.name) := by
        have hmem : m.1 ∈ (dto.map fun p => (p.name, g p.name)).map Prod.fst := by
          rw [List.map_map]
          exact h m (List.mem_cons_self ..)
        rw [assign, if_pos hmem, List.map_map]
        refine List.map_congr_left fun p _ => ?_
        rw [Function.comp_apply]
        split_ifs <;> rfl
      rw [List.foldl_cons, hassign, ih (fun name => if name = m.1 then some m.2 else g name) hn.2
        fun m' hm' => h m' (List.mem_cons_of_mem _ hm')]
      refine List.map_congr_left fun p _ => ?_
      rw [List.find?_cons]
      by_cases hp : m.1 = p.name
      · -- no later member has the name
        have hnone : ms.find? (fun m' => m'.1 = p.name) = none := by
          rw [List.find?_eq_none]
          intro m' hm' he
          exact hn.1 (hp ▸ of_decide_eq_true he ▸ List.mem_map_of_mem hm')
        simp [hp, hnone]
      · simp [hp, Ne.symm hp]

/-- A declared member is looked up among those that are assigned. -/
theorem find?_assigned (v : Validators) (endpoint : WriteEndpoint) (body : Body) {p : Property}
    (hp : p ∈ endpoint.dto) :
    ((body.members.filter fun m => !v.leavesOut m.1).find? fun m => m.1 = p.name).map Prod.snd =
      body.get? p.name := by
  rw [List.find?_filter, Body.get?]
  congr 2
  funext m
  by_cases hname : m.1 = p.name
  · simp [hname, v.declared endpoint p hp]
  · simp [hname]

/-- The members that are assigned are declared, if the instance has no other property. -/
theorem declared_of_mem {v : Validators} {dto : List Property} {body : Body}
    (h : ∀ p ∈ plainToInstance v dto body, p.1 ∈ dto.map Property.name) :
    ∀ m ∈ body.members.filter fun m => !v.leavesOut m.1, m.1 ∈ dto.map Property.name := by
  intro m hm
  have hkey : m.1 ∈ (plainToInstance v dto body).map Prod.fst :=
    mem_keys_foldl.2 (Or.inr (List.mem_map_of_mem hm))
  obtain ⟨p, hp, hname⟩ := List.mem_map.1 hkey
  exact hname ▸ h p hp

/-- **The order of the body's members is not that of the instance**, which has the
declared properties in their order. -/
theorem plainToInstance_eq_of_declared {v : Validators} {endpoint : WriteEndpoint} {body : Body}
    (h : ∀ m ∈ body.members.filter fun m => !v.leavesOut m.1,
      m.1 ∈ endpoint.dto.map Property.name) :
    plainToInstance v endpoint.dto body =
      endpoint.dto.map fun p => (p.name, body.get? p.name) := by
  have hdistinct : ((body.members.filter fun m => !v.leavesOut m.1).map Prod.fst).Nodup :=
    body.distinct.sublist (List.filter_sublist.map _)
  rw [plainToInstance, fresh, foldl_assign (fun _ => none) hdistinct h]
  refine List.map_congr_left fun p hp => ?_
  rw [Option.or_none, find?_assigned v endpoint body hp]

theorem plainToInstance_eq {v : Validators} {endpoint : WriteEndpoint} {body : Body}
    (h : Validates v endpoint.dto (plainToInstance v endpoint.dto body)) :
    plainToInstance v endpoint.dto body =
      endpoint.dto.map fun p => (p.name, body.get? p.name) :=
  plainToInstance_eq_of_declared (declared_of_mem h.1)

theorem get_map {dto : List Property} {p : Property} (hp : p ∈ dto)
    (g : JsString → Option Json) :
    Instance.get (dto.map fun p => (p.name, g p.name)) p.name = g p.name := by
  unfold Instance.get
  induction dto with
  | nil => exact absurd hp List.not_mem_nil
  | cons q dto ih =>
      rw [List.map_cons, List.find?_cons]
      by_cases hq : q.name = p.name
      · simp [hq]
      · have hmem : p ∈ dto := (List.mem_cons.1 hp).resolve_left fun he => hq (he ▸ rfl)
        simp only [hq, decide_false]
        exact ih hmem

/-- A property the pipe has let through. -/
theorem accepts_get? {v : Validators} {endpoint : WriteEndpoint} {body : Body}
    (h : Validates v endpoint.dto (plainToInstance v endpoint.dto body)) {p : Property}
    (hp : p ∈ endpoint.dto) :
    p.accepts v (body.get? p.name) = true := by
  have haccepts := h.2 p hp
  rwa [plainToInstance_eq h, get_map hp body.get?] at haccepts

/-- The decorators that only a string or a positive number passes. -/
def Decorator.asksScalar : Decorator → Bool
  | .isInt => false
  | .min n => 0 < n
  | _ => true

theorem Decorator.scalar {v : Validators} {d : Decorator} (hd : d.asksScalar = true) {j : Json}
    (h : d.accepts v (some j) = true) (hj : ∀ n, j = .num n → FitsInt 53 n) : Scalar j := by
  cases j with
  | null | str => trivial
  | num n =>
      cases d with
      | min m =>
          have hm : 0 < m := of_decide_eq_true hd
          have hle : m ≤ n := of_decide_eq_true h
          exact ⟨lt_of_lt_of_le hm hle, hj n rfl⟩
      | isInt => exact absurd hd Bool.false_ne_true
      | _ => exact absurd h Bool.false_ne_true
  | bool | arr | obj => cases d <;> exact absurd h Bool.false_ne_true

theorem WriteEndpoint.asksScalar (endpoint : WriteEndpoint) :
    ∀ p ∈ endpoint.dto, ∃ d ∈ p.decorators, d.asksScalar = true := by
  cases endpoint <;> decide

theorem WriteEndpoint.nodup (endpoint : WriteEndpoint) :
    (endpoint.dto.map Property.name).Nodup := by
  cases endpoint <;> decide

/-- **What the pipe lets through for a declared property is a scalar.** -/
theorem scalar_of_accepts {v : Validators} {endpoint : WriteEndpoint} {p : Property}
    (hp : p ∈ endpoint.dto) {j : Json} (h : p.accepts v (some j) = true)
    (hj : ∀ n, j = .num n → FitsInt 53 n) : Scalar j := by
  obtain ⟨d, hd, hscalar⟩ := endpoint.asksScalar p hp
  unfold Property.accepts at h
  rcases Bool.or_eq_true_iff.1 h with hnil | hall
  · cases j with
    | null => trivial
    | _ => exact absurd (Bool.and_eq_true_iff.1 hnil).2 Bool.false_ne_true
  · exact d.scalar hscalar (List.all_eq_true.1 hall d hd) hj

/-! ### The text and the hash -/

/-- The members of the text. -/
def present (dto : List Property) (body : Body) : List (JsString × Json) :=
  dto.filterMap fun p => (body.get? p.name).map fun value => (p.name, value)

theorem toJson_plainToInstance {v : Validators} {endpoint : WriteEndpoint} {body : Body}
    (h : Validates v endpoint.dto (plainToInstance v endpoint.dto body)) :
    (plainToInstance v endpoint.dto body).toJson = .obj (present endpoint.dto body) := by
  rw [plainToInstance_eq h, Instance.toJson, List.filterMap_map]
  rfl

theorem scalar_of_mem_present {v : Validators} {endpoint : WriteEndpoint} {body : Body}
    (h : Validates v endpoint.dto (plainToInstance v endpoint.dto body)) :
    ∀ m ∈ present endpoint.dto body, Scalar m.2 := by
  intro m hm
  obtain ⟨p, hp, hm⟩ := List.mem_filterMap.1 hm
  obtain ⟨value, hvalue, rfl⟩ := Option.map_eq_some_iff.1 hm
  have haccepts := accepts_get? h hp
  rw [hvalue] at haccepts
  refine scalar_of_accepts hp haccepts fun n hn => ?_
  obtain ⟨sent, hsent, rfl⟩ := Option.map_eq_some_iff.1 hvalue
  exact body.numbers sent (List.mem_of_find?_eq_some hsent) n hn

/-- **The members of the text say which properties the body has**, and with which
values. -/
theorem present_eq_iff {dto : List Property} (hn : (dto.map Property.name).Nodup)
    {body body' : Body} : present dto body = present dto body' ↔
      ∀ p ∈ dto, body.get? p.name = body'.get? p.name := by
  unfold present
  induction dto with
  | nil => simp
  | cons p dto ih =>
      rw [List.map_cons, List.nodup_cons] at hn
      -- the name of `p` is not among the members that come after it
      have hlater : ∀ (body : Body) (value : Json), (p.name, value) ∉
          dto.filterMap fun p => (body.get? p.name).map fun value => (p.name, value) := by
        intro body value hmem
        obtain ⟨q, hq, hmem⟩ := List.mem_filterMap.1 hmem
        obtain ⟨_, -, he⟩ := Option.map_eq_some_iff.1 hmem
        exact hn.1 ((Prod.mk.inj he).1 ▸ List.mem_map_of_mem hq)
      rw [List.forall_mem_cons, ← ih hn.2, List.filterMap_cons, List.filterMap_cons]
      cases hp : body.get? p.name with
      | none =>
          cases hp' : body'.get? p.name with
          | none => simp
          | some value' =>
              simp only [Option.map_none, Option.map_some, reduceCtorEq, false_and, iff_false]
              exact fun he => hlater body value' (he ▸ List.mem_cons_self ..)
      | some value =>
          cases hp' : body'.get? p.name with
          | none =>
              simp only [Option.map_none, Option.map_some, reduceCtorEq, false_and, iff_false]
              exact fun he => hlater body' value (he ▸ List.mem_cons_self ..)
          | some value' => simp

/-- The digest can be read off its hexadecimal text. -/
theorem hex_injective : Function.Injective hex := by
  intro bytes bytes' h
  induction bytes generalizing bytes' with
  | nil =>
      cases bytes' with
      | nil => rfl
      | cons b' bytes' => exact absurd h (List.cons_ne_nil _ _).symm
  | cons b bytes ih =>
      cases bytes' with
      | nil => exact absurd h (List.cons_ne_nil _ _)
      | cons b' bytes' =>
          have hlt := b.toNat_lt
          have hlt' := b'.toNat_lt
          obtain ⟨hhigh, hrest⟩ := List.cons.inj h
          obtain ⟨hlow, hrest⟩ := List.cons.inj hrest
          have hhigh := congrArg hexValue hhigh
          have hlow := congrArg hexValue hlow
          rw [Stringify.hexValue_hexUnit (by omega), Stringify.hexValue_hexUnit (by omega)]
            at hhigh hlow
          have hb : b = b' := UInt8.toNat_inj.1 (by omega)
          rw [hb, ih hrest]

/-- **The hashes of two bodies that are let through are equal if and only if the
bodies agree on every property of the DTO.** -/
theorem createPayloadHash_eq_iff {sha256 : ByteArray → List UInt8}
    (hsha256 : Function.Injective sha256) {v : Validators} {endpoint : WriteEndpoint}
    {body body' : Body} (h : Validates v endpoint.dto (plainToInstance v endpoint.dto body))
    (h' : Validates v endpoint.dto (plainToInstance v endpoint.dto body')) :
    requestHash v sha256 endpoint body = requestHash v sha256 endpoint body' ↔
      ∀ p ∈ endpoint.dto, body.get? p.name = body'.get? p.name := by
  have hscalar := scalar_of_mem_present h
  have hscalar' := scalar_of_mem_present h'
  rw [← present_eq_iff endpoint.nodup, requestHash, requestHash, toJson_plainToInstance h,
    toJson_plainToInstance h']
  constructor
  · intro he
    exact Stringify.stringify_injective hscalar hscalar'
      (Utf8.utf8_injective (Stringify.wellFormed_stringify hscalar)
        (Stringify.wellFormed_stringify hscalar') (hsha256 (hex_injective he)))
  · intro he
    rw [he]

/-- The text of a deposit of 5000. -/
def sampleText : JsString :=
  js "\x7b\"accountId\":\"0f8fad5b-d9cb-469f-a165-70867728950e\"," ++
    js "\"amount\":5000,\"currency\":\"INR\"\x7d"

/-- An injective function with the SHA-256 digest of that text. -/
def sampleSha256 (bytes : ByteArray) : List UInt8 :=
  if bytes.data.toList = sampleText.map UInt16.toUInt8 then
    [25, 110, 24, 179, 207, 46, 13, 191, 216, 27, 58, 97, 239, 16, 87, 7, 158, 128, 183, 236,
      157, 242, 68, 48, 69, 214, 35, 186, 206, 45, 1, 39]
  else List.replicate 33 0 ++ bytes.data.toList

theorem sampleSha256_injective : Function.Injective sampleSha256 := by
  intro bytes bytes' h
  have hlist : bytes.data.toList = bytes'.data.toList := by
    unfold sampleSha256 at h
    split_ifs at h with hb hb' hb'
    · exact hb.trans hb'.symm
    · exact absurd (congrArg List.length h) (by simp)
    · exact absurd (congrArg List.length h) (by simp)
    · exact List.append_cancel_left h
  exact ByteArray.ext (Array.toList_inj.1 hlist)

/-- The members of `Object.prototype`. -/
def objectMembers : List JsString :=
  [js "constructor", js "__proto__", js "hasOwnProperty", js "isPrototypeOf",
    js "propertyIsEnumerable", js "toLocaleString", js "toString", js "valueOf",
    js "__defineGetter__", js "__defineSetter__", js "__lookupGetter__", js "__lookupSetter__"]

theorem objectMembers_undeclared (endpoint : WriteEndpoint) :
    ∀ p ∈ endpoint.dto, decide (p.name ∈ objectMembers) = false := by
  cases endpoint <;> decide

/-- Checks that read the witness's inputs as `validator` does. -/
def sampleValidators : Validators where
  isURL _ := true
  lengthOf := List.length
  leavesOut name := name ∈ objectMembers
  declared := objectMembers_undeclared

/-- A deposit as a client sends it, and as it sends it again. -/
def depositMembers : List (JsString × Json) :=
  [(js "accountId", .str (js "0f8fad5b-d9cb-469f-a165-70867728950e")), (js "amount", .num 5000),
    (js "currency", .str (js "INR"))]

def depositBody (members : List (JsString × Json)) (h : members.Perm depositMembers) : Body where
  members := members
  distinct := (h.map Prod.fst).nodup_iff.2 (by decide)
  numbers m hm n hn := by
    rcases List.mem_cons.1 (h.mem_iff.1 hm) with rfl | hm
    · cases hn
    rcases List.mem_cons.1 hm with rfl | hm
    · obtain rfl := Json.num.inj hn
      exact Rounding.fitsInt_of_le (by decide) (by decide)
    · obtain rfl := List.mem_singleton.1 hm
      cases hn

theorem createPayloadHash_eq_iff_reordered :
    requestHash sampleValidators sampleSha256 .deposit (depositBody depositMembers (List.Perm.refl _)) =
        requestHash sampleValidators sampleSha256 .deposit
          (depositBody depositMembers.reverse (List.reverse_perm _)) ↔
      ∀ p ∈ WriteEndpoint.deposit.dto,
        (depositBody depositMembers (List.Perm.refl _)).get? p.name =
          (depositBody depositMembers.reverse (List.reverse_perm _)).get? p.name :=
  createPayloadHash_eq_iff sampleSha256_injective (v := sampleValidators)
    ⟨by decide, by decide⟩ ⟨by decide, by decide⟩

end Idempotency
end LedgerEngine
