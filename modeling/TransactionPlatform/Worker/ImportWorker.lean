import TransactionPlatform.Database
import TransactionPlatform.Foundation.Pool
import TransactionPlatform.Queue
import TransactionPlatform.Validation

/-!
# The import worker

`app/workers/import_worker.py`: `process_entry`, `_run_import` and `_commit_batch` as programs over
the operations of Postgres, Redis and the upload directory, and the system of any number of workers
that call `process_entry`.

Every operation is a point where the environment may let it fail or where the worker may crash, and
a statement also fails if a column does not take one of its values.  The committed state changes
only at a commit and at `XACK`.  An upload is never written again once its job exists, so what
`open` and `csv.DictReader` give for a path is a fixed function `files`.
-/

namespace TransactionPlatform

open Interleaved

/-- The exceptions that reach `process_entry`. -/
inductive Exn where
  /-- An error of Postgres or of the connection to it, or of a session that needs a rollback. -/
  | DBAPIError
  /-- An error raised by the client library before a statement is sent. -/
  | ClientError
  | RedisError
  /-- The file cannot be opened, or its header cannot be read. -/
  | OSError
  /-- An error of `csv` or of the decoder while the file is read. -/
  | ReadError
  /-- An exception of `validate_row`. -/
  | ValidationError (name : String)
  deriving DecidableEq

/-- What workers share: the committed tables, the stream, the summary cache and the clock. -/
structure World where
  db : Db
  stream : Stream
  cache : List (String × String)
  clock : ℕ

/-- The operations of a worker. -/
inductive WorkerOp where
  /-- The `SELECT` of `_load_job`. -/
  | selectJob (id : Uuid)
  /-- `datetime.now`. -/
  | now
  /-- `db.execute` of one statement of the open transaction. -/
  | execute (stmt : Stmt)
  /-- `db.commit()` of a session. -/
  | commit (s : Session)
  /-- `open` and the header of the file. -/
  | openCsv (path : String)
  /-- The next row of the reader. -/
  | readRow
  | xack (entry : ℕ)
  /-- `DEL` of the cached summary of an account. -/
  | delSummary (accountId : String)
  deriving DecidableEq

/-- What the operations answer; `delSummary` swallows its exceptions. -/
def WorkerOp.Ans : WorkerOp → Type
  | selectJob _ => Except Exn (Option ImportJob)
  | now => ℕ
  | execute _ => Except Exn Unit
  | commit _ => Except Exn ImportJob
  | openCsv _ => Except Exn Csv
  | readRow => Except Exn Unit
  | xack _ => Except Exn Unit
  | delSummary _ => Unit

/-- `_key` of the summary cache. -/
def summaryKey (accountId : String) : String := "account:summary:" ++ accountId

/-- What the execution of a statement answers: the driver refuses values it cannot convert, without
an effect on the open transaction, and Postgres refuses values that do not fit their columns. -/
def Stmt.outcome (stmt : Stmt) (f : Fault) : Except Exn Unit :=
  if f = .rejected ∨ stmt.sendable = false then .error .ClientError
  else if f = .ok ∧ stmt.storable = true then .ok ()
  else .error .DBAPIError

/-- A statement succeeds, or raises in the client or in Postgres. -/
theorem Stmt.outcome_cases (stmt : Stmt) (f : Fault) :
    (stmt.outcome f = .ok () ∧ f = .ok ∧ stmt.taken = true) ∨
      stmt.outcome f = .error .ClientError ∨ stmt.outcome f = .error .DBAPIError := by
  unfold outcome taken
  split
  · exact .inr (.inl rfl)
  · next hclient =>
    split
    · next hok =>
      have hsend : stmt.sendable = true := by simpa using mt .inr hclient
      exact .inl ⟨rfl, hok.1, by rw [hsend, hok.2, Bool.true_and]⟩
    · exact .inr (.inr rfl)

/-- A statement succeeds if nothing goes wrong and its values are taken. -/
theorem Stmt.outcome_eq_ok_iff {stmt : Stmt} {f : Fault} :
    stmt.outcome f = .ok () ↔ f = .ok ∧ stmt.taken = true := by
  constructor
  · intro h
    rcases stmt.outcome_cases f with ⟨-, h⟩ | h' | h'
    · exact h
    · cases h.symm.trans h'
    · cases h.symm.trans h'
  · rintro ⟨rfl, h⟩
    obtain ⟨hsend, hstore⟩ := Bool.and_eq_true_iff.mp h
    simp [outcome, hsend, hstore]

/-- What the operations do. -/
def WorkerOp.exec (files : String → Option Csv) : (o : WorkerOp) → Fault → World → World × o.Ans
  | selectJob id, f, w =>
    (w, match f with
      | .ok => .ok (w.db.job id)
      | _ => .error .DBAPIError)
  | now, _, w => ({ w with clock := w.clock + 1 }, w.clock)
  | execute stmt, f, w => (w, stmt.outcome f)
  | commit s, f, w =>
    match f with
    | .ok => ({ w with db := s.commitDb w.db }, .ok (s.commitJob w.db))
    | .lost => ({ w with db := s.commitDb w.db }, .error .DBAPIError)
    | _ => (w, .error .DBAPIError)
  | openCsv path, f, w =>
    (w, match f, files path with
      | .ok, some csv => .ok csv
      | _, _ => .error .OSError)
  | readRow, f, w =>
    (w, match f with
      | .ok => .ok ()
      | _ => .error .ReadError)
  | xack entry, f, w =>
    match f with
    | .ok => ({ w with stream := w.stream.xack entry }, .ok ())
    | .lost => ({ w with stream := w.stream.xack entry }, .error .RedisError)
    | _ => (w, .error .RedisError)
  | delSummary a, f, w =>
    match f with
    | .ok | .lost => ({ w with cache := w.cache.filter fun p => p.1 ≠ summaryKey a }, ())
    | _ => (w, ())

/-! ### `process_entry` -/

/-- `MAX_RETRIES`. -/
def maxRetries : ℕ := 3

/-- The session after a statement.  After an error of the server the transaction is aborted; after
an error of the client it is as before. -/
def Session.executed (s : Session) (stmt : Stmt) : Except Exn Unit → Session
  | .ok () => { s with work := s.work ++ [stmt] }
  | .error .ClientError => s
  | .error _ => { s with broken := true }

@[simp] theorem Session.executed_current (s : Session) (stmt : Stmt) (r : Except Exn Unit) :
    (s.executed stmt r).current = s.current := by
  rcases r with (e | u)
  · cases e <;> rfl
  · rfl

/-- The body of `process_entry` once the session is open. -/
abbrev WorkerM := Routine Session Exn WorkerOp WorkerOp.Ans

namespace WorkerM

/-- `datetime.now(timezone.utc)`. -/
def currentTime : WorkerM ℕ := Routine.ask WorkerOp.now

/-- `open(path, ...)` and `csv.DictReader`. -/
def openCsv (path : String) : WorkerM Csv := fun s => .call (.openCsv path) fun r => .done (r, s)

/-- The reader delivers its next row, or the end of the file. -/
def readRow : WorkerM Unit := fun s => .call .readRow fun r => .done (r, s)

/-- Assignments to the attributes of the job. -/
def assign (g : ImportJob → ImportJob) : WorkerM Unit :=
  Routine.modify fun s => { s with current := g s.current }

/-- `await db.execute(stmt)`. -/
def execute (stmt : Stmt) : WorkerM Unit := fun s =>
  .call (.execute stmt) fun r => .done (r, s.executed stmt r)

/-- `await db.commit()`.  A session that needs a rollback raises, and what it sends before is
refused as well; a commit that raises leaves the session in that state. -/
def commit : WorkerM Unit := fun s =>
  bif s.broken then .done (.error .DBAPIError, s)
  else .call (.commit s) fun
    | .ok job => .done (.ok (), Session.opened job)
    | .error e => .done (.error e, { s with broken := true })

/-- `await ack_job(entry_id)`. -/
def ackJob (entry : ℕ) : WorkerM Unit := fun s => .call (.xack entry) fun r => .done (r, s)

end WorkerM

open WorkerM

/-- The loop variables of `_run_import`. -/
structure Batch where
  rowNumber : ℕ
  valid : List Transaction
  errors : List ImportError
  seenInFile : List String
  deriving DecidableEq

/-- The loop variables before the first row. -/
def Batch.empty : Batch := ⟨0, [], [], []⟩

/-- The dictionary of an accepted row with the job id added. -/
def ValidRow.transaction (v : ValidRow) (jobId : Uuid) : Transaction :=
  ⟨v.transactionId, v.accountId, v.type, v.amount, v.currency, v.timestamp, some jobId⟩

/-! The assignments to the job object, between two commits. -/

namespace ImportJob

/-- `_run_import` has rejected the file for its header. -/
def rejected (job : ImportJob) (py : Python) (csv : Csv) (t : ℕ) : ImportJob :=
  { job with
    status := .FAILED
    errorMessage := some ("CSV missing required columns: " ++ py.showSet csv.missingColumns)
    completedAt := some t }

/-- `_run_import` has read the whole file. -/
def completed (job : ImportJob) (rows t : ℕ) : ImportJob :=
  { job with totalRows := some rows, status := .COMPLETED, completedAt := some t }

/-- `process_entry` gives the job up. -/
def givenUp (job : ImportJob) (t : ℕ) : ImportJob :=
  { job with
    status := .FAILED
    errorMessage := some ("Exceeded max retries (" ++ toString maxRetries ++ ")")
    completedAt := some t }

/-- The `except` block of `process_entry` counts the attempt. -/
def requeued (job : ImportJob) : ImportJob :=
  { job with retryCount := job.retryCount + 1, status := .QUEUED }

end ImportJob

section Program

variable (py : Python)

/-- `(row.get("transaction_id") or "").strip() or None`. -/
def rejectedId (row : Row) : Option String :=
  let id := py.field row "transaction_id"
  if id = "" then none else some id

/-- The body of the loop for a row that is not skipped, up to the test of the batch size: the row
goes to one of the two buffers, unless `validate_row` raises. -/
def classify (jobId : Uuid) (row : Row) (b : Batch) : Except Exn Batch :=
  let n := b.rowNumber + 1
  match py.validateRow row n with
  | .raised e => .error (.ValidationError e)
  | .rejected error =>
    .ok { b with rowNumber := n, errors := b.errors ++ [⟨jobId, n, rejectedId py row, error⟩] }
  | .accepted v =>
    if v.transactionId ∈ b.seenInFile then
      .ok { b with
        rowNumber := n
        errors := b.errors ++
          [⟨jobId, n, some v.transactionId, "duplicate transaction_id within this file"⟩] }
    else
      .ok { b with
        rowNumber := n
        valid := b.valid ++ [v.transaction jobId]
        seenInFile := v.transactionId :: b.seenInFile }

/-- `invalidate_account_summary_cache` for every account of the batch. -/
def invalidateSummaries : List String → WorkerM Unit
  | [] => pure ()
  | a :: as => do
    Routine.ask (WorkerOp.delSummary a)
    invalidateSummaries as

/-- `_commit_batch`. -/
def commitBatch (valid : List Transaction) (errors : List ImportError) (upTo : ℕ) :
    WorkerM Unit := do
  Routine.runIf (!valid.isEmpty) (execute (.insertTransactions valid))
  Routine.runIf (!errors.isEmpty) (execute (.insertErrors errors))
  Routine.modify fun s => { s with work := s.work ++ [.advance valid.length errors.length upTo] }
  execute .updateProgress
  commit
  invalidateSummaries (valid.map Transaction.accountId).dedup

/-- The loop over the rows of the reader, which ends with the file or with an exception of the
reader. -/
def importRows (batchSize : ℕ) (raises : Bool) : List Row → Batch → WorkerM Batch
  | [], b => do
    readRow
    Routine.runIf raises (Routine.raise .ReadError)
    return b
  | row :: rows, b => do
    readRow
    let s ← Routine.get
    if b.rowNumber + 1 ≤ s.current.lastCommittedRow then
      importRows batchSize raises rows { b with rowNumber := b.rowNumber + 1 }
    else
      match classify py s.current.id row b with
      | .error e => Routine.raise e
      | .ok b =>
        if batchSize ≤ b.valid.length + b.errors.length then do
          commitBatch b.valid b.errors b.rowNumber
          importRows batchSize raises rows { b with valid := [], errors := [] }
        else importRows batchSize raises rows b

/-- The part of `_run_import` behind the check of the header. -/
def importFile (batchSize : ℕ) (csv : Csv) : WorkerM Unit := do
  let b ← importRows py batchSize csv.raises csv.rows .empty
  Routine.runIf (!b.valid.isEmpty || !b.errors.isEmpty) (commitBatch b.valid b.errors b.rowNumber)
  let t ← currentTime
  assign fun job => job.completed b.rowNumber t
  commit

/-- The branch of `_run_import` for a file without the required columns. -/
def rejectFile (csv : Csv) : WorkerM Unit := do
  let t ← currentTime
  assign fun job => job.rejected py csv t
  commit

/-- `_run_import`. -/
def runImport (batchSize : ℕ) : WorkerM Unit := do
  let s ← Routine.get
  Routine.runIf s.current.startedAt.isNone (do
    let t ← currentTime
    assign fun job => { job with startedAt := some t })
  assign fun job => { job with status := .PROCESSING }
  commit
  let s ← Routine.get
  let csv ← openCsv s.current.storagePath
  if csv.missingColumns ≠ [] then rejectFile py csv else importFile py batchSize csv

/-- The `except` block of `process_entry`: the attempt is counted and the exception re-raised. -/
def handleFailure (e : Exn) : WorkerM Unit := do
  assign ImportJob.requeued
  commit
  Routine.raise e

/-- The branch of `process_entry` for a job without retries left. -/
def giveUp (entry : ℕ) : WorkerM Unit := do
  let t ← currentTime
  assign fun job => job.givenUp t
  commit
  ackJob entry

/-- `process_entry` behind `_load_job`, for a job that was found. -/
def processJob (batchSize entry : ℕ) : WorkerM Unit := do
  let s ← Routine.get
  if s.current.status = .COMPLETED then ackJob entry
  else if maxRetries ≤ s.current.retryCount then giveUp entry
  else
    Routine.tryExcept
      (do
        runImport py batchSize
        ackJob entry)
      handleFailure

/-- `process_entry`. -/
def processEntry (batchSize entry : ℕ) (id : Uuid) :
    Program WorkerOp WorkerOp.Ans (Except Exn Unit) :=
  .call (.selectJob id) fun
    | .error e => .done (.error e)
    | .ok none => .call (.xack entry) fun r => .done r
    | .ok (some job) => (processJob py batchSize entry (.opened job)).bind fun r => .done r.1

end Program

/-! ### Any number of workers -/

/-- One call of `process_entry`: the job, the stream entry and the batch size of the worker. -/
structure Attempt where
  importJobId : Uuid
  entry : ℕ
  batchSize : ℕ
  deriving DecidableEq

/-- What reaches the workers from outside. -/
inductive Arrival where
  /-- `create_import` commits a new job. -/
  | create (id clientId : Uuid) (originalFilename storagePath idempotencyKey : String)
  /-- `create_import` enqueues a job it has committed. -/
  | enqueue (id : Uuid)
  /-- `read_new_jobs` or `reclaim_stale_jobs` hands an entry to a worker, which calls
  `process_entry`. -/
  | deliver (entry batchSize : ℕ)

/-- A pool of workers. -/
abbrev WorkerPool := Pool World Attempt WorkerOp WorkerOp.Ans (Except Exn Unit)

/-- An event of the workers. -/
abbrev WorkerEvent := Interleaved.Event Fault Arrival

/-- The id is new: nothing in the tables has it (`uuid4`). -/
def World.unused (w : World) (id : Uuid) : Bool :=
  w.db.jobs.all (fun r => r.id ≠ id) && w.db.transactions.all (fun t => t.importJobId ≠ some id) &&
    w.db.errors.all fun e => e.importJobId ≠ id

theorem World.unused_iff {w : World} {id : Uuid} :
    w.unused id = true ↔ (∀ r ∈ w.db.jobs, r.id ≠ id) ∧
      (∀ t ∈ w.db.transactions, t.importJobId ≠ some id) ∧
      ∀ e ∈ w.db.errors, e.importJobId ≠ id := by
  simp only [unused, Bool.and_eq_true, List.all_eq_true, decide_eq_true_eq, and_assoc]

/-- The effect of an arrival. -/
def Arrival.apply (py : Python) (w : World) : Arrival →
    Option (World × Option (Attempt × Program WorkerOp WorkerOp.Ans (Except Exn Unit)))
  | create id clientId originalFilename storagePath idempotencyKey =>
    bif w.unused id then
      some ({ w with db := { w.db with
        jobs := w.db.jobs ++
          [ImportJob.queued id clientId originalFilename storagePath idempotencyKey] } }, none)
    else none
  | enqueue id =>
    if (w.db.job id).isSome ∧ ¬ w.stream.Enqueued id then
      some ({ w with stream := w.stream.xadd id }, none)
    else none
  | deliver entry batchSize =>
    (w.stream.claim entry).map fun p =>
      ({ w with stream := p.1 },
        some (⟨p.2, entry, batchSize⟩, processEntry py batchSize entry p.2))

/-- The workers as a system of interleaved programs. -/
def workers (py : Python) (files : String → Option Csv) :
    System World Attempt WorkerOp WorkerOp.Ans Fault Arrival (Except Exn Unit) where
  exec := WorkerOp.exec files
  arrive x w := x.apply py w

/-! ### A job with two rows, for runs that are evaluated -/

/-- A row that `validate_row` accepts. -/
def sampleRow : Row :=
  [("transaction_id", "T1"), ("account_id", "A1"), ("type", "CREDIT"), ("amount", "10.50"),
    ("currency", "USD"), ("timestamp", "2026-09-01T10:00:00Z")]

/-- A file with an accepted row and an empty one. -/
def sampleCsv : Csv := ⟨requiredColumns, [sampleRow, []], false⟩

def sampleId : Uuid := ⟨"00000000-0000-4000-8000-000000000001", by decide⟩

def sampleClient : Uuid := ⟨"00000000-0000-4000-8000-00000000000c", by decide⟩

def samplePath : String := "/data/uploads/00000000-0000-4000-8000-000000000001.csv"

def sampleFiles (csv : Csv) (path : String) : Option Csv :=
  if path = samplePath then some csv else none

def sampleJob : ImportJob := .queued sampleId sampleClient "a.csv" samplePath "k1"

/-- The job has been created and enqueued. -/
def sampleWorld : World := ⟨⟨[sampleJob], [], []⟩, [⟨sampleId, .fresh⟩], [], 0⟩

/-- The next `n` operations of the `i`-th program succeed. -/
def runs (i n : ℕ) : List WorkerEvent := List.replicate n (.run i .ok)

/-- A worker imports the sample file in batches of one row. -/
def sampleEvents : List WorkerEvent := .arrive (.deliver 0 1) :: runs 0 17

end TransactionPlatform
