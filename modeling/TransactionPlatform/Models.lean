import Mathlib.Data.Int.Notation
import Mathlib.Data.Nat.Notation
import Mathlib.Tactic.Common

/-!
# The tables of the platform

The rows of `app/models`: `import_jobs`, `import_errors` and `transactions`.  Surrogate keys and the
`created_at` columns, which the database fills in and nothing reads, are left out; so are the
`clients` table, of which the modelled code only uses the id, and the columns of `Client`.

Counters and row numbers are natural numbers, times are readings of one clock.
-/

namespace TransactionPlatform

/-- A UUID, in its canonical text form of 36 characters (`str(uuid)`). -/
structure Uuid where
  text : String
  length_eq : text.length = 36
  deriving DecidableEq

/-- `ImportStatus`. -/
inductive ImportStatus where
  | QUEUED
  | PROCESSING
  | COMPLETED
  | FAILED
  deriving DecidableEq, Repr

/-- The statuses after which a job is not processed any more. -/
def ImportStatus.terminal : ImportStatus → Bool
  | QUEUED => false
  | PROCESSING => false
  | COMPLETED => true
  | FAILED => true

theorem ImportStatus.terminal_iff {s : ImportStatus} :
    s.terminal = true ↔ s = .COMPLETED ∨ s = .FAILED := by
  cases s <;> simp [terminal]

/-- `ImportJob`, one row of `import_jobs`. -/
structure ImportJob where
  id : Uuid
  clientId : Uuid
  originalFilename : String
  storagePath : String
  status : ImportStatus
  totalRows : Option ℕ
  processedRows : ℕ
  successfulRows : ℕ
  failedRows : ℕ
  idempotencyKey : String
  lastCommittedRow : ℕ
  errorMessage : Option String
  retryCount : ℕ
  startedAt : Option ℕ
  completedAt : Option ℕ
  deriving DecidableEq

/-- The row that `ImportJob(id=..., client_id=..., ...)` inserts: the columns not given take the
defaults of the model. -/
def ImportJob.queued (id clientId : Uuid) (originalFilename storagePath idempotencyKey : String) :
    ImportJob where
  id := id
  clientId := clientId
  originalFilename := originalFilename
  storagePath := storagePath
  status := .QUEUED
  totalRows := none
  processedRows := 0
  successfulRows := 0
  failedRows := 0
  idempotencyKey := idempotencyKey
  lastCommittedRow := 0
  errorMessage := none
  retryCount := 0
  startedAt := none
  completedAt := none

/-- What a column `String(n)` can hold: at most `n` characters, and no NUL. -/
def fitsColumn (n : ℕ) (text : String) : Bool :=
  decide (text.length ≤ n) && !text.toList.contains (Char.ofNat 0)

/-- The texts of a new row fit their columns `String(512)`, `String(1024)` and `String(128)`. -/
def ImportJob.storable (job : ImportJob) : Bool :=
  fitsColumn 512 job.originalFilename && fitsColumn 1024 job.storagePath &&
    fitsColumn 128 job.idempotencyKey

/-- `ImportError`, one row of `import_errors`. -/
structure ImportError where
  importJobId : Uuid
  rowNumber : ℕ
  transactionId : Option String
  error : String
  deriving DecidableEq

/-- `TransactionType`. -/
inductive TransactionType where
  | CREDIT
  | DEBIT
  deriving DecidableEq, Repr

/-- A `decimal.Decimal`: sign, coefficient and exponent, or one of the special values. -/
inductive Decimal where
  | finite (negative : Bool) (coefficient : ℕ) (exponent : ℤ)
  | infinity (negative : Bool)
  | nan (signaling : Bool)
  deriving DecidableEq

/-- A `datetime.datetime`; `utcoffset` is in microseconds and `none` for a naive value. -/
structure Datetime where
  year : ℕ
  month : ℕ
  day : ℕ
  hour : ℕ
  minute : ℕ
  second : ℕ
  microsecond : ℕ
  utcoffset : Option ℤ
  deriving DecidableEq

/-- `Transaction`, one row of `transactions`. -/
structure Transaction where
  transactionId : String
  accountId : String
  type : TransactionType
  amount : Decimal
  currency : String
  timestamp : Datetime
  importJobId : Option Uuid
  deriving DecidableEq

end TransactionPlatform
