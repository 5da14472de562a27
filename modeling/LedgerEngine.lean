import LedgerEngine.Async.Program
import LedgerEngine.Async.TwoPhase
import LedgerEngine.Async.Pool
import LedgerEngine.Async.Triple
import LedgerEngine.Async.Deadlock
import LedgerEngine.Async.Arrivals
import LedgerEngine.Async.Composition
import LedgerEngine.Async.Latch
import LedgerEngine.Store.Table
import LedgerEngine.Store.Indexed
import LedgerEngine.Store.Keeps
import LedgerEngine.Store.JobQueue
import LedgerEngine.Store.Query
import LedgerEngine.Store.Paging
import LedgerEngine.Common.Exceptions
import LedgerEngine.Common.Rounding
import LedgerEngine.Common.Nearest
import LedgerEngine.Common.ReadNumber
import LedgerEngine.Common.Retry
import LedgerEngine.Common.NumberText
import LedgerEngine.Common.Utf8
import LedgerEngine.Common.Stringify
import LedgerEngine.Common.IsoDate
import LedgerEngine.Ledger.Posting
import LedgerEngine.Ledger.Balance
import LedgerEngine.Ledger.DoubleEntry
import LedgerEngine.Ledger.Guard
import LedgerEngine.Ledger.Serializable
import LedgerEngine.Ledger.Acceptance
import LedgerEngine.Ledger.Transfer
import LedgerEngine.Ledger.Deadlock
import LedgerEngine.Ledger.Precision
import LedgerEngine.Ledger.Openings
import LedgerEngine.Ledger.Statement
import LedgerEngine.Ledger.Safe
import LedgerEngine.Idempotency.Service
import LedgerEngine.Idempotency.Replay
import LedgerEngine.Idempotency.Stages
import LedgerEngine.Idempotency.AtMostOnce
import LedgerEngine.Idempotency.Failures
import LedgerEngine.Idempotency.Race
import LedgerEngine.Idempotency.Stuck
import LedgerEngine.Idempotency.PayloadHash
import LedgerEngine.Reconciliation.Service
import LedgerEngine.Reconciliation.Audit
import LedgerEngine.Reconciliation.Honest
import LedgerEngine.Reconciliation.Records
import LedgerEngine.Reconciliation.Latch
import LedgerEngine.Webhooks.Storage
import LedgerEngine.Webhooks.Service
import LedgerEngine.Webhooks.Batch
import LedgerEngine.Webhooks.Dispatch
import LedgerEngine.Webhooks.Stages
import LedgerEngine.Webhooks.Finality
import LedgerEngine.Webhooks.Agreement
import LedgerEngine.Webhooks.Accounts
import LedgerEngine.Webhooks.Stranded
import LedgerEngine.Webhooks.Lost
import LedgerEngine.Webhooks.Absorbing
import LedgerEngine.Webhooks.Backoff
import LedgerEngine.Webhooks.Attempts
import LedgerEngine.Webhooks.Responses
import LedgerEngine.Webhooks.Retries
import LedgerEngine.Webhooks.Polls
import LedgerEngine.Webhooks.Schedule
import LedgerEngine.Ops.Service
import LedgerEngine.Config.Settings
import LedgerEngine.Api.Requests
import LedgerEngine.Api.Responses
import LedgerEngine.Api.Bodies
import LedgerEngine.Engine.System
import LedgerEngine.Engine.Answers
import LedgerEngine.Engine.Posts
import LedgerEngine.Engine.Threads
import LedgerEngine.Engine.Calls
import LedgerEngine.Engine.Results
import LedgerEngine.Engine.Commits
import LedgerEngine.Engine.Uniqueness
import LedgerEngine.Engine.Tables
import LedgerEngine.Engine.Interleaved
import LedgerEngine.Engine.History
import LedgerEngine.Engine.Posted
import LedgerEngine.Engine.Attempted
import LedgerEngine.Engine.Audited
import LedgerEngine.Engine.Reads
import LedgerEngine.Engine.Replayed
import LedgerEngine.Engine.Polled
