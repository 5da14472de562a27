/-
# The listings of the operators

`OpsService` (`src/modules/ops/ops.service.ts`) with the DTOs of its queries: the
outbox events, the webhook deliveries, the reconciliation runs and the issues of
a run, filtered, newest first and a page at a time.  `matching` are the rows a
listing's `where` lets through; `PageSize` is what the DTO takes for a limit.
The logging calls are left out.

A client that walks through the pages of a listing has each matching row once,
whatever order the database takes for rows of one `created_at`, **if and only if**
such rows are on one page (`listings_paged_iff`), and nothing in the query itself
is refused: a U+0000 in the event type, a run id that is no uuid.  The issues of a
run are saved together and share their `created_at`, so a run is listed in full
only where its issues fit on one page (`issues_of_run_paged_iff`).
-/

import LedgerEngine.Reconciliation.Service
import LedgerEngine.Store.Paging
import LedgerEngine.Webhooks.Storage

namespace LedgerEngine
namespace Ops

open Paging (OrderBy Collected Together)
open Reconciliation (ReconciliationIssueEntity ReconciliationIssueType ReconciliationRunEntity
  ReconciliationRunStatus)
open Webhooks (WebhookDeliveryEntity WebhookDeliveryStatus)

/-! ### The DTOs -/

/-- `@Min(1) @Max(100)`. -/
abbrev PageSize : Type := { limit : ℕ // 1 ≤ limit ∧ limit ≤ 100 }

/-- The limit and the offset, with the defaults of the class. -/
structure OpsPaginationDto where
  limit : Option PageSize := some ⟨20, by decide⟩
  offset : Option ℕ := some 0

structure ListOutboxEventsDto extends OpsPaginationDto where
  status : Option OutboxStatus := none
  eventType : Option JsString := none

structure ListWebhookDeliveriesDto extends OpsPaginationDto where
  status : Option WebhookDeliveryStatus := none
  outboxEventId : Option JsString := none
  webhookSubscriptionId : Option JsString := none

structure ListReconciliationRunsDto extends OpsPaginationDto where
  status : Option ReconciliationRunStatus := none

structure ListReconciliationIssuesDto extends OpsPaginationDto where
  issueType : Option ReconciliationIssueType := none

/-- The same query for page `k` of `l` rows. -/
def OpsPaginationDto.at (l : PageSize) (k : ℕ) : OpsPaginationDto := ⟨some l, some (k * l)⟩

/-! ### Conditions -/

/-- `if (text)`: the text is given and not empty. -/
def truthy (text : Option JsString) : Option JsString := text.filter fun s => s ≠ []

/-- A property of `where`: it is not set, or the column has its value. -/
def Admits {α : Type} (wanted : Option α) (column : α) : Prop := ∀ x ∈ wanted, x = column

instance {α : Type} [DecidableEq α] (wanted : Option α) (column : α) :
    Decidable (Admits wanted column) :=
  inferInstanceAs (Decidable (∀ x ∈ wanted, x = column))

/-- `find` with the order and the page every listing asks for. -/
def find {ρ : Type} {key : ρ → ℤ} (sort : OrderBy key) (matching : List ρ)
    (query : OpsPaginationDto) : List ρ :=
  Paging.page (sort matching).list (query.offset.getD 0) (query.limit.elim 20 Subtype.val)

/-! ### Outbox events -/

structure OutboxEventView where
  id : Uuid
  aggregateType : JsString
  aggregateId : Uuid
  eventType : JsString
  status : OutboxStatus
  retryCount : ℕ
  nextRetryAt : Option Time
  publishedAt : Option Time
  transactionId : Uuid
  createdAt : Time
  updatedAt : Time

def OutboxEventView.of (row : OutboxEventEntity) : OutboxEventView where
  id := row.id
  aggregateType := row.aggregateType
  aggregateId := row.aggregateId
  eventType := row.eventType
  status := row.status
  retryCount := row.retryCount
  nextRetryAt := row.nextRetryAt
  publishedAt := row.publishedAt
  transactionId := row.transactionId
  createdAt := row.createdAt
  updatedAt := row.updatedAt

def ListOutboxEventsDto.matching (query : ListOutboxEventsDto) (table : Table OutboxEventEntity) :
    List OutboxEventEntity :=
  table.rows.filter fun row =>
    Admits query.status row.status ∧ Admits (truthy query.eventType) row.eventType

/-- The error of a statement with a U+0000 in a `text` parameter. -/
def invalidByte : Exception := .queryFailed (js "invalid byte sequence for encoding \"UTF8\": 0x00")

def listOutboxEvents (sort : OrderBy OutboxEventEntity.createdAt)
    (table : Table OutboxEventEntity) (query : ListOutboxEventsDto) :
    Except Exception (List OutboxEventView) := do
  if ∃ text ∈ query.eventType, 0 ∈ text then throw invalidByte
  let rows := find sort (query.matching table) query.toOpsPaginationDto
  return rows.map OutboxEventView.of

/-! ### Webhook deliveries -/

structure WebhookDeliveryView where
  id : Uuid
  webhookSubscriptionId : Uuid
  outboxEventId : Uuid
  status : WebhookDeliveryStatus
  attemptCount : ℕ
  lastAttemptAt : Option Time
  nextRetryAt : Option Time
  responseStatus : Option ℕ
  responseBody : Option JsString
  createdAt : Time
  updatedAt : Time

def WebhookDeliveryView.of (row : WebhookDeliveryEntity) : WebhookDeliveryView where
  id := row.id
  webhookSubscriptionId := row.webhookSubscriptionId
  outboxEventId := row.outboxEventId
  status := row.status
  attemptCount := row.attemptCount
  lastAttemptAt := row.lastAttemptAt
  nextRetryAt := row.nextRetryAt
  responseStatus := row.responseStatus
  responseBody := row.responseBody
  createdAt := row.createdAt
  updatedAt := row.updatedAt

/-- The two ids have passed `@IsUUID()`, so the database reads them as uuids. -/
def ListWebhookDeliveriesDto.matching (query : ListWebhookDeliveriesDto)
    (table : IndexedTable WebhookDeliveryEntity) : List WebhookDeliveryEntity :=
  table.rows.filter fun row =>
    Admits query.status row.status ∧
    Admits ((truthy query.outboxEventId).map Uuid.ofText) row.outboxEventId ∧
    Admits ((truthy query.webhookSubscriptionId).map Uuid.ofText) row.webhookSubscriptionId

def listWebhookDeliveries (sort : OrderBy WebhookDeliveryEntity.createdAt)
    (table : IndexedTable WebhookDeliveryEntity) (query : ListWebhookDeliveriesDto) :
    Except Exception (List WebhookDeliveryView) := do
  let rows := find sort (query.matching table) query.toOpsPaginationDto
  return rows.map WebhookDeliveryView.of

/-! ### Reconciliation runs -/

/-- Every column of the row. -/
structure ReconciliationRunView where
  id : Uuid
  status : ReconciliationRunStatus
  totalIssues : ℕ
  errorMessage : Option JsString
  startedAt : Time
  completedAt : Option Time
  createdAt : Time

def ReconciliationRunView.of (row : ReconciliationRunEntity) : ReconciliationRunView where
  id := row.id
  status := row.status
  totalIssues := row.totalIssues
  errorMessage := row.errorMessage
  startedAt := row.startedAt
  completedAt := row.completedAt
  createdAt := row.createdAt

def ListReconciliationRunsDto.matching (query : ListReconciliationRunsDto)
    (table : Table ReconciliationRunEntity) : List ReconciliationRunEntity :=
  table.rows.filter fun row => Admits query.status row.status

def listReconciliationRuns (sort : OrderBy ReconciliationRunEntity.createdAt)
    (table : Table ReconciliationRunEntity) (query : ListReconciliationRunsDto) :
    Except Exception (List ReconciliationRunView) := do
  let rows := find sort (query.matching table) query.toOpsPaginationDto
  return rows.map ReconciliationRunView.of

/-! ### Reconciliation issues -/

/-- Every column of the row. -/
structure ReconciliationIssueView where
  id : Uuid
  runId : Uuid
  issueType : ReconciliationIssueType
  referenceId : Option JsString
  details : Json
  createdAt : Time

def ReconciliationIssueView.of (row : ReconciliationIssueEntity) : ReconciliationIssueView where
  id := row.id
  runId := row.runId
  issueType := row.issueType
  referenceId := row.referenceId
  details := row.details
  createdAt := row.createdAt

/-- `n` pairs of hexadecimal digits and what follows them; a hyphen may stand after
every second pair but the last, counted from the start of sixteen. -/
def readPairs : ℕ → JsString → Option (JsString × JsString)
  | 0, s => some ([], s)
  | n + 1, a :: b :: s =>
      if isHexDigit a && isHexDigit b then
        let s := if n % 2 = 0 ∧ n ≠ 0 ∧ s.head? = some 45 then s.tail else s
        (readPairs n s).map fun (digits, rest) => (a :: b :: digits, rest)
      else none
  | _ + 1, _ => none

/-- The uuid that PostgreSQL reads in a text: 32 digits in either case, hyphens
after groups of four, the whole perhaps in braces. -/
def readUuid (s : JsString) : Option Uuid :=
  let braces : Bool := s.head? = some 123
  match readPairs 16 (if braces then s.tail else s) with
  | some (digits, rest) =>
      if rest = (if braces then [125] else []) then
        some (.ofText (digits.take 8 ++ 45 :: (digits.drop 8).take 4 ++ 45 ::
          (digits.drop 12).take 4 ++ 45 :: (digits.drop 16).take 4 ++ 45 :: digits.drop 20))
      else none
  | none => none

/-- The path's run id is compared as it comes, with nothing checked. -/
def ListReconciliationIssuesDto.matching (query : ListReconciliationIssuesDto) (runId : JsString)
    (table : Table ReconciliationIssueEntity) : List ReconciliationIssueEntity :=
  table.rows.filter fun row =>
    readUuid runId = some row.runId ∧ Admits query.issueType row.issueType

/-- The error of a statement with a `uuid` parameter that is none. -/
def invalidUuid (text : JsString) : Exception :=
  .queryFailed (js "invalid input syntax for type uuid: \"" ++ text ++ js "\"")

def listReconciliationIssues (sort : OrderBy ReconciliationIssueEntity.createdAt)
    (table : Table ReconciliationIssueEntity) (runId : JsString)
    (query : ListReconciliationIssuesDto) : Except Exception (List ReconciliationIssueView) := do
  if readUuid runId = none then throw (invalidUuid runId)
  let rows := find sort (query.matching runId table) query.toOpsPaginationDto
  return rows.map ReconciliationIssueView.of

example : readUuid (js "\x7b0F8FAD5B-d9cb469f-a165-70867728950e\x7d") =
    some (.ofText (js "0f8fad5b-d9cb-469f-a165-70867728950e")) := by decide

/-! ### Walking through the pages -/

section Paged

variable {ρ α : Type} {key : ρ → ℤ}

/-- **Asking for the pages of `l` rows until one is empty gives each of `views`
once**, whatever order each query takes. -/
def Paged (list : OrderBy key → OpsPaginationDto → Except Exception (List α)) (views : List α)
    (l : PageSize) : Prop :=
  ∀ sorts : ℕ → OrderBy key,
    ∃ all, Collected (fun k => list (sorts k) (.at l k)) 0 all ∧ all.Perm views

/-- A listing that is refused or gives a page of the rows it matches. -/
theorem paged_iff {list : OrderBy key → OpsPaginationDto → Except Exception (List α)}
    {matching : List ρ} {view : ρ → α} {l : PageSize} (refused : Prop)
    (hrefused : refused → ∃ e, ∀ sort page, list sort page = .error e)
    (hlist : ¬ refused → ∀ sort page, list sort page = .ok ((find sort matching page).map view))
    (hn : (matching.map view).Nodup) :
    Paged list (matching.map view) l ↔ ¬ refused ∧ Together key matching l := by
  by_cases hr : refused
  · constructor
    · intro h
      obtain ⟨all, hall, -⟩ := h fun _ => OrderBy.stable key
      obtain ⟨e, he⟩ := hrefused hr
      cases hall with
      | done h => rw [he] at h; cases h
      | more h => rw [he] at h; cases h
    · intro h
      exact absurd hr h.1
  · have hpages : ∀ (sorts : ℕ → OrderBy key) k, list (sorts k) (.at l k) =
        .ok ((Paging.page (sorts k matching).list (k * l) l).map view) :=
      fun sorts k => hlist hr (sorts k) (.at l k)
    unfold Paged
    simp only [hpages]
    rw [Paging.complete_iff hn l.2.1]
    exact (and_iff_right hr).symm

/-- Views that carry the primary key are distinct. -/
theorem nodup_views {κ : Type} [Keyed ρ κ] (t : Table ρ) (p : ρ → Bool) {view : ρ → α}
    (id : α → κ) (h : ∀ r, id (view r) = Keyed.key r) : ((t.rows.filter p).map view).Nodup := by
  refine List.Nodup.of_map id ?_
  rw [List.map_map]
  have hid : id ∘ view = Keyed.key := funext h
  rw [hid]
  exact t.nodup.sublist (List.filter_sublist.map _)

end Paged

theorem listOutboxEvents_paged_iff (table : Table OutboxEventEntity) (query : ListOutboxEventsDto)
    (l : PageSize) :
    Paged (fun sort page => listOutboxEvents sort table { query with toOpsPaginationDto := page })
        ((query.matching table).map OutboxEventView.of) l ↔
      (¬ ∃ text ∈ query.eventType, 0 ∈ text) ∧
        Together OutboxEventEntity.createdAt (query.matching table) l := by
  have hn : ((query.matching table).map OutboxEventView.of).Nodup :=
    nodup_views table _ OutboxEventView.id fun _ => rfl
  refine paged_iff _ (fun h => ⟨invalidByte, fun sort page => ?_⟩) (fun h sort page => ?_) hn
  · unfold listOutboxEvents
    rw [if_pos h]
    rfl
  · unfold listOutboxEvents
    rw [if_neg h]
    rfl

theorem listWebhookDeliveries_paged_iff (table : IndexedTable WebhookDeliveryEntity)
    (query : ListWebhookDeliveriesDto) (l : PageSize) :
    Paged
        (fun sort page => listWebhookDeliveries sort table { query with toOpsPaginationDto := page })
        ((query.matching table).map WebhookDeliveryView.of) l ↔
      Together WebhookDeliveryEntity.createdAt (query.matching table) l := by
  have hn : ((query.matching table).map WebhookDeliveryView.of).Nodup :=
    nodup_views table.toTable _ WebhookDeliveryView.id fun _ => rfl
  exact (paged_iff False False.elim (fun _ sort page => rfl) hn).trans (and_iff_right not_false)

theorem listReconciliationRuns_paged_iff (table : Table ReconciliationRunEntity)
    (query : ListReconciliationRunsDto) (l : PageSize) :
    Paged
        (fun sort page => listReconciliationRuns sort table { query with toOpsPaginationDto := page })
        ((query.matching table).map ReconciliationRunView.of) l ↔
      Together ReconciliationRunEntity.createdAt (query.matching table) l := by
  have hn : ((query.matching table).map ReconciliationRunView.of).Nodup :=
    nodup_views table _ ReconciliationRunView.id fun _ => rfl
  exact (paged_iff False False.elim (fun _ sort page => rfl) hn).trans (and_iff_right not_false)

theorem listReconciliationIssues_paged_iff (table : Table ReconciliationIssueEntity)
    (runId : JsString) (query : ListReconciliationIssuesDto) (l : PageSize) :
    Paged
        (fun sort page =>
          listReconciliationIssues sort table runId { query with toOpsPaginationDto := page })
        ((query.matching runId table).map ReconciliationIssueView.of) l ↔
      readUuid runId ≠ none ∧
        Together ReconciliationIssueEntity.createdAt (query.matching runId table) l := by
  have hn : ((query.matching runId table).map ReconciliationIssueView.of).Nodup :=
    nodup_views table _ ReconciliationIssueView.id fun _ => rfl
  refine paged_iff _ (fun h => ⟨invalidUuid runId, fun sort page => ?_⟩) (fun h sort page => ?_) hn
  · unfold listReconciliationIssues
    rw [if_pos h]
    rfl
  · unfold listReconciliationIssues
    rw [if_neg h]
    rfl

/-- **A walk through a listing gives each matching row once, whatever order the
database takes for rows of one `created_at`, if and only if** the query is not
refused and such rows are on one page. -/
theorem listings_paged_iff (l : PageSize) :
    (∀ (table : Table OutboxEventEntity) (query : ListOutboxEventsDto),
      Paged (fun sort page => listOutboxEvents sort table { query with toOpsPaginationDto := page })
          ((query.matching table).map OutboxEventView.of) l ↔
        (¬ ∃ text ∈ query.eventType, 0 ∈ text) ∧
          Together OutboxEventEntity.createdAt (query.matching table) l) ∧
    (∀ (table : IndexedTable WebhookDeliveryEntity) (query : ListWebhookDeliveriesDto),
      Paged (fun sort page =>
            listWebhookDeliveries sort table { query with toOpsPaginationDto := page })
          ((query.matching table).map WebhookDeliveryView.of) l ↔
        Together WebhookDeliveryEntity.createdAt (query.matching table) l) ∧
    (∀ (table : Table ReconciliationRunEntity) (query : ListReconciliationRunsDto),
      Paged (fun sort page =>
            listReconciliationRuns sort table { query with toOpsPaginationDto := page })
          ((query.matching table).map ReconciliationRunView.of) l ↔
        Together ReconciliationRunEntity.createdAt (query.matching table) l) ∧
    ∀ (table : Table ReconciliationIssueEntity) (runId : JsString)
        (query : ListReconciliationIssuesDto),
      Paged (fun sort page =>
            listReconciliationIssues sort table runId { query with toOpsPaginationDto := page })
          ((query.matching runId table).map ReconciliationIssueView.of) l ↔
        readUuid runId ≠ none ∧
          Together ReconciliationIssueEntity.createdAt (query.matching runId table) l :=
  ⟨fun table query => listOutboxEvents_paged_iff table query l,
    fun table query => listWebhookDeliveries_paged_iff table query l,
    fun table query => listReconciliationRuns_paged_iff table query l,
    fun table runId query => listReconciliationIssues_paged_iff table runId query l⟩

/-- The id of a run, as the listing of the runs gives it. -/
def oneRun : JsString := js "0f8fad5b-d9cb-469f-a165-70867728950e"

/-- Two accounts that do not match, found by one run. -/
def twoIssues : List Reconciliation.NewIssue :=
  [⟨.ofText oneRun, .accountBalanceMismatch, some (js "a"), .null⟩,
    ⟨.ofText oneRun, .accountBalanceMismatch, some (js "b"), .null⟩]

/-- The table once the run has saved them. -/
def afterRun : Table ReconciliationIssueEntity where
  rows := Reconciliation.issueRows 1000 (fun i => .ofText [i.toUInt16]) twoIssues
  nodup := by decide

/-- **The issues of a run, one at a time: the second query may begin with the issue
the first one gave.** -/
theorem afterRun_not_paged :
    ¬ Paged
        (fun sort page =>
          listReconciliationIssues sort afterRun oneRun { toOpsPaginationDto := page })
        ((({} : ListReconciliationIssuesDto).matching oneRun afterRun).map
          ReconciliationIssueView.of) ⟨1, by decide⟩ := by
  intro h
  exact absurd ((listReconciliationIssues_paged_iff afterRun oneRun {} _).1 h).2 (by decide)

/-- **The issues a run has saved are listed in full only on one page.** -/
theorem issues_of_run_paged_iff {table : Table ReconciliationIssueEntity} {runId : JsString}
    {now : Time} {id : ℕ → Uuid} {issues : List Reconciliation.NewIssue} (l : PageSize)
    (hread : readUuid runId ≠ none)
    (hsaved : ({} : ListReconciliationIssuesDto).matching runId table =
      Reconciliation.issueRows now id issues) :
    Paged (fun sort page => listReconciliationIssues sort table runId { toOpsPaginationDto := page })
        ((Reconciliation.issueRows now id issues).map ReconciliationIssueView.of) l ↔
      issues.length ≤ l := by
  have hpaged := listReconciliationIssues_paged_iff table runId {} l
  have hcreated : ∀ row ∈ Reconciliation.issueRows now id issues,
      ReconciliationIssueEntity.createdAt row = now := by
    intro row hrow
    obtain ⟨i, -, rfl⟩ := List.mem_map.1 hrow
    rfl
  have hlength : (Reconciliation.issueRows now id issues).length = issues.length := by
    simp [Reconciliation.issueRows]
  rw [hsaved, Paging.together_const l.2.1 hcreated, hlength] at hpaged
  exact hpaged.trans (and_iff_right hread)

end Ops
end LedgerEngine
