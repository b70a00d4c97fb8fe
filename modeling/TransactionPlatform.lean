import TransactionPlatform.Foundation.Program
import TransactionPlatform.Foundation.Pool
import TransactionPlatform.Foundation.Noninterference
import TransactionPlatform.Foundation.KeyedTable
import TransactionPlatform.Foundation.LivePaging
import TransactionPlatform.Foundation.SlidingWindow
import TransactionPlatform.Foundation.Paging
import TransactionPlatform.Foundation.Numeral
import TransactionPlatform.Foundation.Machine
import TransactionPlatform.Foundation.ConsumerGroup
import TransactionPlatform.Foundation.Custody
import TransactionPlatform.Foundation.Delimited
import TransactionPlatform.Models
import TransactionPlatform.Amount
import TransactionPlatform.Validation
import TransactionPlatform.Validation.Outcome
import TransactionPlatform.Queue
import TransactionPlatform.Database
import TransactionPlatform.Upload.ImportService
import TransactionPlatform.Upload.Stages
import TransactionPlatform.Upload.Rows
import TransactionPlatform.Upload.Enqueue
import TransactionPlatform.Upload.Idempotency
import TransactionPlatform.Upload.Isolation
import TransactionPlatform.Upload.Orphans
import TransactionPlatform.Worker.ImportWorker
import TransactionPlatform.Validation.Columns
import TransactionPlatform.Worker.Atomicity
import TransactionPlatform.Worker.Buffer
import TransactionPlatform.Worker.Phases
import TransactionPlatform.Worker.Walk
import TransactionPlatform.Worker.Footprint
import TransactionPlatform.Worker.Ledger
import TransactionPlatform.Worker.Exclusive
import TransactionPlatform.Worker.Counters
import TransactionPlatform.Worker.Resume
import TransactionPlatform.Worker.ErrorReport
import TransactionPlatform.Worker.Rowwise
import TransactionPlatform.Worker.Terminal
import TransactionPlatform.Worker.Retries
import TransactionPlatform.Worker.Delivery
import TransactionPlatform.Worker.Overlap
import TransactionPlatform.Worker.WorkerLoop
import TransactionPlatform.Worker.Fleet
import TransactionPlatform.Worker.Handover
import TransactionPlatform.Worker.Recovery
import TransactionPlatform.Worker.Shutdown
import TransactionPlatform.Worker.CsvFile
import TransactionPlatform.Worker.EndToEnd
import TransactionPlatform.RateLimit.RateLimiter
import TransactionPlatform.RateLimit.WindowLog
import TransactionPlatform.RateLimit.Limits
import TransactionPlatform.RateLimit.RetryAfter
import TransactionPlatform.RateLimit.Headers
import TransactionPlatform.RateLimit.Access
import TransactionPlatform.Accounts.AccountSummary
import TransactionPlatform.Validation.AmountText
import TransactionPlatform.Accounts.SummaryCache
import TransactionPlatform.Accounts.Freshness
import TransactionPlatform.Accounts.Staleness
import TransactionPlatform.Accounts.Simulation
import TransactionPlatform.Accounts.Balance
import TransactionPlatform.Accounts.Reconciliation
import TransactionPlatform.Listing.TransactionService
import TransactionPlatform.Listing.ImportErrors
import TransactionPlatform.Listing.LiveListing
import TransactionPlatform.Listing.ImportStatus
import TransactionPlatform.Upload.Polling
import TransactionPlatform.Platform.Platform
import TransactionPlatform.Platform.Calls
import TransactionPlatform.Platform.Views
import TransactionPlatform.Platform.Guarantees
