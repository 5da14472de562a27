/-
# The settings of the application

`ConfigModule` (`src/config/config.module.ts`) reads the environment twice.  `validate`
(`src/config/env.validator.ts`) converts the numeric variables with `Number` and checks
them; if it throws, the application does not start.  The settings the services use are
then read from the same environment with `parseInt` (`app.config.ts`,
`database.config.ts`, `redis.config.ts`, `queue.config.ts`).

| variable | at least | where unset |
| --- | ---: | ---: |
| `PORT` | 1 | 3000 |
| `REDIS_PORT` | 1 | rejected |
| `WEBHOOK_BACKOFF_MS` | 100 | 5000 |
| `WEBHOOK_MAX_ATTEMPTS` | 1 | 5 |
| `OUTBOX_POLL_INTERVAL_MS` | 100 | 5000 |
| `OUTBOX_BATCH_SIZE` | 1 | 20 |
| `OUTBOX_BACKOFF_MS` | 100 | 5000 |
| `OUTBOX_MAX_ATTEMPTS` | 1 | 5 |
| `OUTBOX_STALE_AFTER_MS` | 100 | 30000 |
| `RECONCILIATION_INTERVAL_MS` | 1000 | 60000 |

The two readings agree on a text exactly when it is plain (`number_load_eq_iff`).
-/

import LedgerEngine.Common.ReadNumber
import LedgerEngine.Webhooks.Service

namespace LedgerEngine
namespace Settings

open JsNumber (toNumber parseInt Plain)

/-! ### The environment -/

/-- The numeric variables of the queues. -/
inductive QueueVariable : Type
  | webhookBackoffMs
  | webhookMaxAttempts
  | outboxPollIntervalMs
  | outboxBatchSize
  | outboxBackoffMs
  | outboxMaxAttempts
  | outboxStaleAfterMs
  | reconciliationIntervalMs
  deriving DecidableEq

inductive NumberVariable : Type
  | port
  | redisPort
  | queue (v : QueueVariable)
  deriving DecidableEq

inductive Variable : Type
  | nodeEnv
  | databaseUrl
  | redisHost
  | redisPassword
  | queuePrefix
  | number (v : NumberVariable)
  deriving DecidableEq

/-- `process.env`. -/
abbrev Env : Type := Variable → Option JsString

/-- The fields of `EnvVars` in its order. -/
def Variable.all : List Variable :=
  [.nodeEnv, .number .port, .databaseUrl, .redisHost, .number .redisPort, .redisPassword,
    .queuePrefix, .number (.queue .webhookBackoffMs), .number (.queue .webhookMaxAttempts),
    .number (.queue .outboxPollIntervalMs), .number (.queue .outboxBatchSize),
    .number (.queue .outboxBackoffMs), .number (.queue .outboxMaxAttempts),
    .number (.queue .outboxStaleAfterMs), .number (.queue .reconciliationIntervalMs)]

theorem Variable.mem_all (v : Variable) : v ∈ all := by
  rcases v with _ | _ | _ | _ | _ | (_ | _ | q)
  case number.queue => cases q <;> decide
  all_goals decide

/-! ### `env.validator.ts` -/

/-- The value of a field of `EnvVars`. -/
inductive Value : Type
  | undefined
  | string (s : JsString)
  | number (x : JsNumber)
  deriving DecidableEq

abbrev EnvVars : Type := Variable → Value

/-- The decorators that check a field. -/
inductive Constraint : Type
  | isEnum
  | isString
  | isInt
  | min (least : ℕ)
  deriving DecidableEq

/-- The values of the enumeration `NodeEnv`. -/
def nodeEnvs : List JsString := [js "development", js "test", js "production"]

def Constraint.holds : Constraint → Value → Bool
  | .isEnum, .string s => nodeEnvs.contains s
  | .isString, .string _ => true
  | .isInt, .number (.finite x) => x.isInt
  | .min least, .number (.finite x) => (least : ℚ) ≤ x
  | .min _, .number (.infinity negative) => !negative
  | _, _ => false

/-- The argument of `@Min`. -/
def NumberVariable.minimum : NumberVariable → ℕ
  | .port => 1
  | .redisPort => 1
  | .queue .webhookBackoffMs => 100
  | .queue .webhookMaxAttempts => 1
  | .queue .outboxPollIntervalMs => 100
  | .queue .outboxBatchSize => 1
  | .queue .outboxBackoffMs => 100
  | .queue .outboxMaxAttempts => 1
  | .queue .outboxStaleAfterMs => 100
  | .queue .reconciliationIntervalMs => 1000

/-- The initializer of a numeric field. -/
def NumberVariable.initial : NumberVariable → Option ℕ
  | .port => some 3000
  | .redisPort => none
  | .queue .webhookBackoffMs => some 5000
  | .queue .webhookMaxAttempts => some 5
  | .queue .outboxPollIntervalMs => some 5000
  | .queue .outboxBatchSize => some 20
  | .queue .outboxBackoffMs => some 5000
  | .queue .outboxMaxAttempts => some 5
  | .queue .outboxStaleAfterMs => some 30000
  | .queue .reconciliationIntervalMs => some 60000

/-- The checks of a field.  The decorators of a field take effect from the last to the
first. -/
def Variable.constraints : Variable → List Constraint
  | .nodeEnv => [.isEnum]
  | .databaseUrl | .redisHost | .redisPassword | .queuePrefix => [.isString]
  | .number v => [.min v.minimum, .isInt]

/-- `@IsOptional()`. -/
def Variable.isOptional : Variable → Bool
  | .redisPassword | .queuePrefix => true
  | _ => false

/-- What `new EnvVars()` holds. -/
def Variable.initial : Variable → Value
  | .nodeEnv => .string (js "development")
  | .number v => v.initial.elim .undefined fun n => .number (.finite n)
  | _ => .undefined

/-- `@Type(() => Number)`; the other fields are strings. -/
def Variable.convert : Variable → JsString → Value
  | .number _, s => .number (toNumber s)
  | _, s => .string s

/-- `plainToInstance(EnvVars, config)`. -/
def plainToInstance (config : Env) : EnvVars := fun v => (config v).elim v.initial v.convert

/-- The checks that the value of a field fails. -/
def failed (v : Variable) (x : Value) : List Constraint :=
  if v.isOptional ∧ x = .undefined then [] else v.constraints.filter fun c => !c.holds x

structure ValidationError where
  property : Variable
  constraints : List Constraint
  deriving DecidableEq

def validateSync (vars : EnvVars) : List ValidationError :=
  Variable.all.filterMap fun v =>
    if failed v (vars v) = [] then none else some ⟨v, failed v (vars v)⟩

/-- What `validate` returns has passed the checks. -/
def Validated : Type := { vars : EnvVars // validateSync vars = [] }

/-- The errors are those the message of the `Error` lists. -/
def validate (config : Env) : Except (List ValidationError) Validated :=
  if h : validateSync (plainToInstance config) = [] then .ok ⟨plainToInstance config, h⟩
  else .error (validateSync (plainToInstance config))

/-! ### The settings -/

structure AppConfig where
  port : JsNumber
  nodeEnv : JsString

/-- `app.config.ts`. -/
def appConfig (env : Env) : AppConfig where
  port := parseInt ((env (.number .port)).getD (js "3000"))
  nodeEnv := (env .nodeEnv).getD (js "development")

structure DatabaseConfig where
  url : Option JsString

/-- `database.config.ts`. -/
def databaseConfig (env : Env) : DatabaseConfig where
  url := env .databaseUrl

structure RedisConfig where
  host : Option JsString
  port : JsNumber
  password : Option JsString

/-- `redis.config.ts`. -/
def redisConfig (env : Env) : RedisConfig where
  host := env .redisHost
  port := parseInt ((env (.number .redisPort)).getD (js "6379"))
  -- `||` takes an empty password for none
  password := (env .redisPassword).filter (· ≠ [])

structure QueueConfig where
  queuePrefix : JsString
  webhookMaxAttempts : JsNumber
  webhookBackoffMs : JsNumber
  outboxPollIntervalMs : JsNumber
  outboxBatchSize : JsNumber
  outboxBackoffMs : JsNumber
  outboxMaxAttempts : JsNumber
  outboxStaleAfterMs : JsNumber
  reconciliationIntervalMs : JsNumber

/-- `queue.config.ts`. -/
def queueConfig (env : Env) : QueueConfig where
  queuePrefix := (env .queuePrefix).getD (js "ledger-engine")
  webhookMaxAttempts := parseInt ((env (.number (.queue .webhookMaxAttempts))).getD (js "5"))
  webhookBackoffMs := parseInt ((env (.number (.queue .webhookBackoffMs))).getD (js "5000"))
  outboxPollIntervalMs :=
    parseInt ((env (.number (.queue .outboxPollIntervalMs))).getD (js "5000"))
  outboxBatchSize := parseInt ((env (.number (.queue .outboxBatchSize))).getD (js "20"))
  outboxBackoffMs := parseInt ((env (.number (.queue .outboxBackoffMs))).getD (js "5000"))
  outboxMaxAttempts := parseInt ((env (.number (.queue .outboxMaxAttempts))).getD (js "5"))
  outboxStaleAfterMs := parseInt ((env (.number (.queue .outboxStaleAfterMs))).getD (js "30000"))
  reconciliationIntervalMs :=
    parseInt ((env (.number (.queue .reconciliationIntervalMs))).getD (js "60000"))

def QueueConfig.number (c : QueueConfig) : QueueVariable → JsNumber
  | .webhookBackoffMs => c.webhookBackoffMs
  | .webhookMaxAttempts => c.webhookMaxAttempts
  | .outboxPollIntervalMs => c.outboxPollIntervalMs
  | .outboxBatchSize => c.outboxBatchSize
  | .outboxBackoffMs => c.outboxBackoffMs
  | .outboxMaxAttempts => c.outboxMaxAttempts
  | .outboxStaleAfterMs => c.outboxStaleAfterMs
  | .reconciliationIntervalMs => c.reconciliationIntervalMs

structure Configuration where
  app : AppConfig
  database : DatabaseConfig
  redis : RedisConfig
  queue : QueueConfig

/-- The factories of `load`. -/
def load (env : Env) : Configuration where
  app := appConfig env
  database := databaseConfig env
  redis := redisConfig env
  queue := queueConfig env

def Configuration.number (c : Configuration) : NumberVariable → JsNumber
  | .port => c.app.port
  | .redisPort => c.redis.port
  | .queue v => c.queue.number v

/-- `config.module.ts`: a start of the application. -/
def forRoot (env : Env) : Except (List ValidationError) Configuration :=
  (validate env).map fun _ => load env

/-! ### What is checked -/

section Validation

variable {env : Env} {vars : Validated}

theorem validateSync_eq_nil_iff {vars : EnvVars} :
    validateSync vars = [] ↔ ∀ v, failed v (vars v) = [] := by
  unfold validateSync
  rw [List.filterMap_eq_nil_iff]
  constructor
  · intro h v
    by_contra hne
    have hnone := h v v.mem_all
    rw [if_neg hne] at hnone
    cases hnone
  · intro h v _
    rw [if_pos (h v)]

/-- **Every error names a field and the checks it fails.** -/
theorem of_mem_validateSync {vars : EnvVars} {error : ValidationError}
    (h : error ∈ validateSync vars) :
    error.constraints ≠ [] ∧
      ∀ c ∈ error.constraints, c ∈ error.property.constraints ∧
        c.holds (vars error.property) = false := by
  unfold validateSync at h
  obtain ⟨v, -, hv⟩ := List.mem_filterMap.1 h
  split_ifs at hv with hne
  obtain rfl := Option.some.inj hv
  refine ⟨hne, fun c hc => ?_⟩
  dsimp only at hc ⊢
  unfold failed at hc
  split_ifs at hc
  · cases hc
  · simpa using List.mem_filter.1 hc

theorem validate_eq_ok_iff : validate env = .ok vars ↔ vars.1 = plainToInstance env := by
  unfold validate
  split_ifs with h
  · constructor
    · rintro ⟨⟩
      rfl
    · intro heq
      exact congrArg Except.ok (Subtype.ext heq.symm)
  · refine iff_of_false nofun fun heq => h ?_
    rw [← heq]
    exact vars.2

/-- **A checked number is an integer that is large enough.** -/
theorem Validated.exists_number (vars : Validated) (v : NumberVariable) :
    ∃ n : ℤ, vars.1 (.number v) = .number (.finite n) ∧ (v.minimum : ℤ) ≤ n := by
  have hpass := validateSync_eq_nil_iff.1 vars.2 (.number v)
  rw [failed, if_neg (fun h => Bool.false_ne_true h.1), List.filter_eq_nil_iff] at hpass
  have hmin := hpass (.min v.minimum) List.mem_cons_self
  have hint := hpass .isInt (List.mem_cons_of_mem _ List.mem_cons_self)
  rw [Bool.not_eq_true, Bool.not_eq_false'] at hmin hint
  generalize vars.1 (.number v) = x at hmin hint
  cases x with
  | undefined => cases hint
  | string s => cases hint
  | number x =>
      cases x with
      | nan => cases hint
      | infinity negative => cases hint
      | finite q =>
          obtain ⟨n, rfl⟩ : ∃ n : ℤ, (n : ℚ) = q := ⟨q.num, (Rat.eq_num_of_isInt hint).symm⟩
          have hle : (v.minimum : ℚ) ≤ n := of_decide_eq_true hmin
          exact ⟨n, rfl, by exact_mod_cast hle⟩

/-- A variable that is set is converted and checked. -/
theorem exists_toNumber {v : NumberVariable} {s : JsString} (h : validate env = .ok vars)
    (hs : env (.number v) = some s) :
    ∃ n : ℤ, vars.1 (.number v) = .number (.finite n) ∧ toNumber s = .finite n ∧
      (v.minimum : ℤ) ≤ n := by
  obtain ⟨n, hn, hmin⟩ := vars.exists_number v
  refine ⟨n, hn, ?_, hmin⟩
  have hconvert : vars.1 (.number v) = .number (toNumber s) := by
    rw [validate_eq_ok_iff.1 h, plainToInstance, hs]
    rfl
  exact Value.number.inj (hconvert.symm.trans hn)

/-- **Every initializer passes its own checks**; the fields without one are required. -/
theorem failed_initial_iff (v : Variable) :
    failed v v.initial = [] ↔ v ≠ .databaseUrl ∧ v ≠ .redisHost ∧ v ≠ .number .redisPort := by
  rcases v with _ | _ | _ | _ | _ | (_ | _ | q)
  case number.queue => cases q <;> decide +kernel
  all_goals decide +kernel

end Validation

/-! ### What is used -/

section Used

variable {env : Env} {vars : Validated} {v : NumberVariable} {s : JsString}

/-- The text that is parsed where the variable is unset. -/
def NumberVariable.fallback : NumberVariable → JsString
  | .port => js "3000"
  | .redisPort => js "6379"
  | .queue .webhookBackoffMs => js "5000"
  | .queue .webhookMaxAttempts => js "5"
  | .queue .outboxPollIntervalMs => js "5000"
  | .queue .outboxBatchSize => js "20"
  | .queue .outboxBackoffMs => js "5000"
  | .queue .outboxMaxAttempts => js "5"
  | .queue .outboxStaleAfterMs => js "30000"
  | .queue .reconciliationIntervalMs => js "60000"

theorem number_load (env : Env) (v : NumberVariable) :
    (load env).number v = parseInt ((env (.number v)).getD v.fallback) := by
  cases v with
  | port => rfl
  | redisPort => rfl
  | queue v => cases v <;> rfl

theorem one_le_minimum (v : NumberVariable) : 1 ≤ v.minimum := by
  cases v with
  | port => decide
  | redisPort => decide
  | queue v => cases v <;> decide

/-- The two tables of defaults agree. -/
theorem parseInt_fallback {n : ℕ} (h : v.initial = some n) : parseInt v.fallback = .finite n := by
  cases v with
  | port => cases h; decide +kernel
  | redisPort => cases h
  | queue v => cases v <;> cases h <;> decide +kernel

/-- **Where a variable is unset** the value that is checked is the value that is used. -/
theorem number_load_of_unset (h : validate env = .ok vars) (hv : env (.number v) = none) :
    vars.1 (.number v) = .number ((load env).number v) := by
  obtain ⟨n, hn, -⟩ := vars.exists_number v
  have hinitial : vars.1 (.number v) = Variable.initial (.number v) := by
    rw [validate_eq_ok_iff.1 h, plainToInstance, hv]
    rfl
  rw [number_load, hv, hinitial]
  rw [hinitial] at hn
  cases hsome : v.initial with
  | none =>
      rw [Variable.initial, hsome] at hn
      cases hn
  | some m =>
      rw [Variable.initial, hsome, Option.getD_none, parseInt_fallback hsome]
      rfl

/-- **The value that is checked is the value that is used** exactly where the text of the
variable is plain. -/
theorem number_load_eq_iff (h : validate env = .ok vars) (hs : env (.number v) = some s) :
    vars.1 (.number v) = .number ((load env).number v) ↔ Plain s := by
  obtain ⟨n, hn, hread, hmin⟩ := exists_toNumber h hs
  have hone : 1 ≤ n := by
    have := one_le_minimum v
    omega
  rw [← JsNumber.parseInt_eq_iff hread hone, hn, number_load, hs, Option.getD_some]
  constructor
  · intro heq
    exact (Value.number.inj heq).symm
  · intro heq
    rw [heq]

/-- Decimal digits are. -/
theorem number_load_of_digits (h : validate env = .ok vars) (hs : env (.number v) = some s)
    (hdigits : ∀ u ∈ s, JsNumber.isDigit u = true) :
    vars.1 (.number v) = .number ((load env).number v) := by
  refine (number_load_eq_iff h hs).2 (JsNumber.plain_of_digits ?_ hdigits)
  rintro rfl
  -- `Number('')` is zero, and no minimum is
  obtain ⟨n, -, hread, hmin⟩ := exists_toNumber h hs
  have hzero : (0 : ℚ) = n := JsNumber.finite.inj hread
  have hone := one_le_minimum v
  have : n = 0 := by exact_mod_cast hzero.symm
  omega

end Used

/-! ### The settings of the queues -/

section Queue

variable {env : Env} {vars : Validated}

/-- **A validated setting is the setting used**, and so has its minimum, exactly where the
text of the variable is plain. -/
theorem used_as_validated_iff (h : validate env = .ok vars) (v : QueueVariable) {s : JsString}
    (hs : env (.number (.queue v)) = some s) :
    (∃ n : ℤ, vars.1 (.number (.queue v)) = .number (.finite n) ∧
      (queueConfig env).number v = .finite n ∧
      ((NumberVariable.queue v).minimum : ℤ) ≤ n) ↔ Plain s := by
  rw [← number_load_eq_iff h hs]
  obtain ⟨n, hn, hmin⟩ := vars.exists_number (.queue v)
  constructor
  · rintro ⟨m, hm, hused, -⟩
    rw [hm]
    exact congrArg Value.number hused.symm
  · intro heq
    rw [hn] at heq
    exact ⟨n, hn, (Value.number.inj heq).symm, hmin⟩

/-- The required variables and one of the queues. -/
def envWith (v : QueueVariable) (text : JsString) : Env
  | .databaseUrl => some (js "postgresql://localhost:5432/ledger_engine")
  | .redisHost => some (js "127.0.0.1")
  | .number .redisPort => some (js "6379")
  | .number (.queue w) => if w = v then some text else none
  | _ => none

theorem used_as_validated_250 :
    ∃ n : ℤ,
      plainToInstance (envWith .webhookBackoffMs (js " +250.0 "))
        (.number (.queue .webhookBackoffMs)) = .number (.finite n) ∧
      (queueConfig (envWith .webhookBackoffMs (js " +250.0 "))).number .webhookBackoffMs =
        .finite n ∧
      ((NumberVariable.queue .webhookBackoffMs).minimum : ℤ) ≤ n := by
  have hpass : validateSync (plainToInstance (envWith .webhookBackoffMs (js " +250.0 "))) = [] := by
    decide +kernel
  have h : validate (envWith .webhookBackoffMs (js " +250.0 ")) = .ok ⟨_, hpass⟩ :=
    validate_eq_ok_iff.2 rfl
  exact (used_as_validated_iff h .webhookBackoffMs rfl).2 (by decide +kernel)

/-- `parseInt` stops at an exponent: a second becomes a millisecond. -/
theorem used_of_exponent :
    ∃ vars, validate (envWith .webhookBackoffMs (js "1e3")) = .ok vars ∧
      vars.1 (.number (.queue .webhookBackoffMs)) = .number (.finite 1000) ∧
      (queueConfig (envWith .webhookBackoffMs (js "1e3"))).number .webhookBackoffMs = .finite 1 ∧
      ¬∃ n : ℤ, vars.1 (.number (.queue .webhookBackoffMs)) = .number (.finite n) ∧
        (queueConfig (envWith .webhookBackoffMs (js "1e3"))).number .webhookBackoffMs =
          .finite n ∧
        ((NumberVariable.queue .webhookBackoffMs).minimum : ℤ) ≤ n := by
  have hpass : validateSync (plainToInstance (envWith .webhookBackoffMs (js "1e3"))) = [] := by
    decide +kernel
  have hchecked : plainToInstance (envWith .webhookBackoffMs (js "1e3"))
      (.number (.queue .webhookBackoffMs)) = .number (.finite 1000) := by
    decide +kernel
  have hused : (queueConfig (envWith .webhookBackoffMs (js "1e3"))).number .webhookBackoffMs =
      .finite 1 := by
    decide +kernel
  refine ⟨⟨_, hpass⟩, validate_eq_ok_iff.2 rfl, hchecked, hused, ?_⟩
  rintro ⟨n, -, hn, hmin⟩
  obtain rfl : n = 1 := by exact_mod_cast JsNumber.finite.inj (hn.symm.trans hused)
  exact absurd hmin (by decide)

end Queue

/-! ### The settings of the services -/

/-- The settings `WebhooksService` and `JobsService` get. -/
structure QueueConfig.Supplies (c : QueueConfig) (cfg : Webhooks.Config) : Prop where
  webhookMaxAttempts : c.webhookMaxAttempts = .finite cfg.webhookMaxAttempts
  webhookBackoffMs : c.webhookBackoffMs = .finite cfg.webhookBackoffMs
  outboxBatchSize : c.outboxBatchSize = .finite cfg.outboxBatchSize
  outboxStaleAfterMs : c.outboxStaleAfterMs = .finite cfg.outboxStaleAfterMs
  outboxMaxAttempts : c.outboxMaxAttempts = .finite cfg.outboxMaxAttempts
  outboxBackoffMs : c.outboxBackoffMs = .finite cfg.outboxBackoffMs

section Services

variable {env : Env} {c : Configuration}
variable {signWebhookPayload : TransactionCompletedPayload → JsString → JsString}

theorem exists_validated (h : forRoot env = .ok c) :
    c = load env ∧ ∃ vars, validate env = .ok vars := by
  unfold forRoot at h
  cases hvalid : validate env with
  | error errors =>
      rw [hvalid] at h
      cases h
  | ok vars =>
      rw [hvalid] at h
      cases h
      exact ⟨rfl, vars, rfl⟩

/-- In an application that starts, a number whose text is plain, or that is not set, is
large enough. -/
theorem exists_natural (h : forRoot env = .ok c) (v : NumberVariable)
    (hplain : ∀ s, env (.number v) = some s → Plain s) :
    ∃ n : ℕ, c.number v = .finite n ∧ v.minimum ≤ n := by
  obtain ⟨rfl, vars, hvalid⟩ := exists_validated h
  have hsame : vars.1 (.number v) = .number ((load env).number v) := by
    cases hs : env (.number v) with
    | none => exact number_load_of_unset hvalid hs
    | some s => exact (number_load_eq_iff hvalid hs).2 (hplain s hs)
  obtain ⟨n, hn, hmin⟩ := vars.exists_number v
  lift n to ℕ using by omega
  exact ⟨n, Value.number.inj (hsame.symm.trans hn), by exact_mod_cast hmin⟩

/-- **Plain settings are the settings of the model**: the services of an application that
starts with them make an attempt at least. -/
theorem exists_supplies (h : forRoot env = .ok c)
    (hplain : ∀ v s, env (.number (.queue v)) = some s → Plain s) :
    ∃ cfg : Webhooks.Config, cfg.signWebhookPayload = signWebhookPayload ∧ c.queue.Supplies cfg ∧
      1 ≤ cfg.webhookMaxAttempts ∧ 100 ≤ cfg.webhookBackoffMs ∧ 1 ≤ cfg.outboxBatchSize ∧
      100 ≤ cfg.outboxStaleAfterMs ∧ 1 ≤ cfg.outboxMaxAttempts ∧ 100 ≤ cfg.outboxBackoffMs := by
  have hnumber := fun v => exists_natural h (.queue v) (hplain v)
  choose n hn hmin using hnumber
  refine ⟨⟨n .webhookMaxAttempts, n .webhookBackoffMs, n .outboxBatchSize, n .outboxStaleAfterMs,
    n .outboxMaxAttempts, n .outboxBackoffMs, signWebhookPayload⟩, rfl, ?_,
    hmin .webhookMaxAttempts, hmin .webhookBackoffMs, hmin .outboxBatchSize,
    hmin .outboxStaleAfterMs, hmin .outboxMaxAttempts, hmin .outboxBackoffMs⟩
  exact ⟨hn .webhookMaxAttempts, hn .webhookBackoffMs, hn .outboxBatchSize,
    hn .outboxStaleAfterMs, hn .outboxMaxAttempts, hn .outboxBackoffMs⟩

/-- Where none is set they are the defaults. -/
theorem supplies_defaults (h : forRoot env = .ok c)
    (hunset : ∀ v, env (.number (.queue v)) = none) :
    c.queue.Supplies (Webhooks.Config.defaults signWebhookPayload) := by
  obtain ⟨rfl, -⟩ := exists_validated h
  have hdefault : ∀ (v : QueueVariable) {n : ℕ}, (NumberVariable.queue v).initial = some n →
      (load env).queue.number v = .finite n := by
    intro v n hn
    have hused := number_load env (.queue v)
    rw [hunset v, Option.getD_none, parseInt_fallback hn] at hused
    exact hused
  exact ⟨hdefault .webhookMaxAttempts rfl, hdefault .webhookBackoffMs rfl,
    hdefault .outboxBatchSize rfl, hdefault .outboxStaleAfterMs rfl,
    hdefault .outboxMaxAttempts rfl, hdefault .outboxBackoffMs rfl⟩

end Services

end Settings
end LedgerEngine
