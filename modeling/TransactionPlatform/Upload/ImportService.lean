import Mathlib.Logic.Function.Basic
import TransactionPlatform.Database
import TransactionPlatform.Foundation.Pool
import TransactionPlatform.Queue

/-!
# The import service

`create_import` of `app/services/import_service.py` with `ensure_group` and `enqueue_import_job` of
`app/redis_utils/queue.py`, as a program over the operations of the upload directory, Postgres and
Redis, and the system of any number of requests that the API processes at the same time.

`db.add` and `db.commit` are one operation: the `INSERT` waits for another transaction that holds
the same key, so that it fails exactly when the key is committed by then.  A row whose texts do not
fit their columns is refused before that.  The workers appear only through what they do to the
shared state.
-/

namespace TransactionPlatform

open Interleaved

/-- `CHUNK_SIZE`. -/
def chunkSize : ℕ := 1024 * 1024

/-- The settings and the library function the service uses: `UPLOAD_DIR`, `upload_max_bytes` and
`hashlib.sha256(...).hexdigest()`. -/
structure Service where
  uploadDir : String
  uploadMaxBytes : ℕ
  sha256 : List UInt8 → String

/-- One call of `create_import`. -/
structure Request where
  clientId : Uuid
  filename : Option String
  idempotencyKeyHeader : Option String
  /-- What `file.read(CHUNK_SIZE)` returns, up to the empty result at the end of the file. -/
  chunks : List (List UInt8)
  /-- What `uuid.uuid4()` returns. -/
  jobId : Uuid
  chunks_ne : ∀ chunk ∈ chunks, chunk ≠ [] ∧ chunk.length ≤ chunkSize
  deriving DecidableEq

/-- The exceptions `create_import` raises or catches. -/
inductive UploadExn where
  | HTTPException (status : ℕ) (detail : String)
  | OSError
  | IntegrityError
  /-- Any other error of Postgres or of the connection to it, `DataError` included. -/
  | DBAPIError
  /-- `refresh` did not find the row. -/
  | InvalidRequestError
  | NoResultFound
  | RedisError
  deriving DecidableEq

namespace Request

/-- The uploaded bytes. -/
def content (r : Request) : List UInt8 := r.chunks.flatten

/-- `file.filename and file.filename.lower().endswith(".csv")`.  No character outside ASCII has a
lower case form that ends in one of these letters. -/
def isCsv (r : Request) : Bool :=
  match r.filename with
  | none => false
  | some name => decide (".csv".toList <:+ name.toList.map Char.toLower)

end Request

namespace Service

variable (svc : Service)

/-- `UPLOAD_DIR / f"{job_id}.csv"`. -/
def storagePath (id : Uuid) : String := svc.uploadDir ++ "/" ++ id.text ++ ".csv"

/-- `f"content:{hasher.hexdigest()}:{client.id}"`. -/
def contentKey (r : Request) : String :=
  "content:" ++ svc.sha256 r.content ++ ":" ++ r.clientId.text

/-- `idempotency_key_header or f"content:..."`. -/
def idempotencyKey (r : Request) : String :=
  match r.idempotencyKeyHeader with
  | none => svc.contentKey r
  | some header => if header = "" then svc.contentKey r else header

/-- The request passes the checks of the filename and the size. -/
structure Passes (r : Request) : Prop where
  isCsv : r.isCsv = true
  nonempty : r.content ≠ []
  size : r.content.length ≤ svc.uploadMaxBytes

instance (r : Request) : Decidable (svc.Passes r) :=
  decidable_of_iff (r.isCsv = true ∧ r.content ≠ [] ∧ r.content.length ≤ svc.uploadMaxBytes)
    ⟨fun ⟨hcsv, hne, hsize⟩ => ⟨hcsv, hne, hsize⟩, fun h => ⟨h.isCsv, h.nonempty, h.size⟩⟩

/-- The row the request inserts. -/
def newJob (r : Request) : ImportJob :=
  .queued r.jobId r.clientId (r.filename.getD "") (svc.storagePath r.jobId) (svc.idempotencyKey r)

end Service

/-- What requests share: the committed tables, the stream and the upload directory.  `requests` is
the history of the calls; the code does not read it. -/
structure UploadWorld where
  db : Db
  stream : Stream
  files : String → Option (List UInt8)
  requests : List Request

namespace UploadWorld

/-- `SELECT ... FROM import_jobs WHERE idempotency_key = ...`. -/
def jobByKey (w : UploadWorld) (key : String) : Option ImportJob :=
  w.db.jobs.find? fun r => decide (r.idempotencyKey = key)

/-- An `INSERT` of the row violates the primary key or the unique constraint on
`idempotency_key`. -/
def conflicts (w : UploadWorld) (job : ImportJob) : Bool :=
  w.db.jobs.any fun r => decide (r.id = job.id ∨ r.idempotencyKey = job.idempotencyKey)

/-- An `INSERT` of the row succeeds. -/
def accepts (w : UploadWorld) (job : ImportJob) : Bool := job.storable && !w.conflicts job

/-- The row is inserted. -/
def insert (w : UploadWorld) (job : ImportJob) : UploadWorld :=
  { w with db := { w.db with jobs := w.db.jobs ++ [job] } }

/-- The file is replaced, or removed. -/
def setFile (w : UploadWorld) (path : String) (content : Option (List UInt8)) : UploadWorld :=
  { w with files := Function.update w.files path content }

end UploadWorld

/-- The operations of `create_import`. -/
inductive UploadOp where
  | mkdir
  /-- `open(storage_path, "wb")`. -/
  | openWrite (path : String)
  /-- `file.read(CHUNK_SIZE)`. -/
  | readChunk
  | write (path : String) (chunk : List UInt8)
  /-- `storage_path.unlink(missing_ok=True)`. -/
  | unlink (path : String)
  | selectByKey (key : String)
  /-- `db.add(import_job)` and `db.commit()`. -/
  | commitJob (job : ImportJob)
  | rollback
  | refresh (id : Uuid)
  /-- `XGROUP CREATE`; the reply `BUSYGROUP` is not an error. -/
  | ensureGroup
  | xadd (id : Uuid)

/-- What the operations return. -/
def UploadOp.Out : UploadOp → Type
  | selectByKey _ => Option ImportJob
  | refresh _ => ImportJob
  | _ => Unit

/-- What the operations answer: a result or an exception. -/
abbrev UploadOp.Ans (o : UploadOp) : Type := Except UploadExn o.Out

/-- An operation with an effect that raises `e` when it fails. -/
def Fault.apply (f : Fault) (e : UploadExn) (effect : UploadWorld → UploadWorld)
    (w : UploadWorld) : UploadWorld × Except UploadExn Unit :=
  match f with
  | .ok => (effect w, .ok ())
  | .lost => (effect w, .error e)
  | _ => (w, .error e)

/-- A query that raises `e` when it fails. -/
def Fault.query {β : Type} (f : Fault) (e : UploadExn) (answer : UploadWorld → Except UploadExn β)
    (w : UploadWorld) : UploadWorld × Except UploadExn β :=
  match f with
  | .ok => (w, answer w)
  | _ => (w, .error e)

/-- `db.commit()` with a new row. -/
def Fault.commitJob (f : Fault) (job : ImportJob) (w : UploadWorld) :
    UploadWorld × Except UploadExn Unit :=
  if w.accepts job = true then f.apply .DBAPIError (fun w => w.insert job) w
  else (w, .error (if f = .ok ∧ job.storable = true then .IntegrityError else .DBAPIError))

/-- What the operations do. -/
def UploadOp.exec : (o : UploadOp) → Fault → UploadWorld → UploadWorld × o.Ans
  | mkdir, f, w => f.apply .OSError id w
  | openWrite path, f, w => f.apply .OSError (fun w => w.setFile path (some [])) w
  | readChunk, f, w => f.apply .OSError id w
  | write path chunk, f, w =>
    f.apply .OSError (fun w => w.setFile path (some ((w.files path).getD [] ++ chunk))) w
  | unlink path, f, w => f.apply .OSError (fun w => w.setFile path none) w
  | selectByKey key, f, w => f.query .DBAPIError (fun w => .ok (w.jobByKey key)) w
  | commitJob job, f, w => f.commitJob job w
  | rollback, f, w => f.apply .DBAPIError id w
  | refresh id, f, w =>
    f.query .DBAPIError (fun w =>
      match w.db.job id with
      | some job => .ok job
      | none => .error .InvalidRequestError) w
  | ensureGroup, f, w => f.apply .RedisError id w
  | xadd id, f, w => f.apply .RedisError (fun w => { w with stream := w.stream.xadd id }) w

/-! ### `create_import` -/

/-- The body of `create_import`; the local variables are arguments. -/
abbrev UploadM := Routine Unit UploadExn UploadOp UploadOp.Ans

namespace UploadM

/-- An operation whose exception is passed on. -/
def perform (o : UploadOp) : UploadM o.Out := fun s => .call o fun r => .done (r, s)

/-- `await db.commit()` inside the `try`: whether the row was inserted, or `IntegrityError` was
caught. -/
def tryCommit (job : ImportJob) : UploadM Bool := fun s =>
  .call (.commitJob job) fun
    | .ok () => .done (.ok true, s)
    | .error .IntegrityError => .done (.ok false, s)
    | .error e => .done (.error e, s)

end UploadM

open UploadM

section Program

variable (svc : Service)

/-- The loop that streams the file to disk; `bytesWritten` counts what was read. -/
def writeChunks (path : String) : List (List UInt8) → ℕ → UploadM ℕ
  | [], bytesWritten => do
    perform .readChunk
    return bytesWritten
  | chunk :: rest, bytesWritten => do
    perform .readChunk
    if svc.uploadMaxBytes < bytesWritten + chunk.length then
      perform (.unlink path)
      Routine.raise (.HTTPException 413 "File exceeds maximum allowed size")
    else
      perform (.write path chunk)
      writeChunks path rest (bytesWritten + chunk.length)

/-- The branch behind `IntegrityError`: the race is lost and the winner's job is returned. -/
def returnWinner (r : Request) : UploadM (ImportJob × Bool) := do
  perform .rollback
  perform (.unlink (svc.storagePath r.jobId))
  match ← perform (.selectByKey (svc.idempotencyKey r)) with
  | some job => return (job, true)
  | none => Routine.raise .NoResultFound

/-- The end of `create_import` for a row that was inserted. -/
def announceJob (r : Request) : UploadM (ImportJob × Bool) := do
  let job ← perform (.refresh r.jobId)
  perform .ensureGroup
  perform (.xadd job.id)
  return (job, false)

/-- `create_import` behind the file: look the key up, and insert and enqueue a new job. -/
def registerJob (r : Request) : UploadM (ImportJob × Bool) := do
  match ← perform (.selectByKey (svc.idempotencyKey r)) with
  | some job =>
    perform (.unlink (svc.storagePath r.jobId))
    return (job, true)
  | none =>
    if ← tryCommit (svc.newJob r) then announceJob r else returnWinner svc r

/-- `create_import` behind the check of the filename. -/
def storeUpload (r : Request) : UploadM (ImportJob × Bool) := do
  perform .mkdir
  perform (.openWrite (svc.storagePath r.jobId))
  let bytesWritten ← writeChunks svc (svc.storagePath r.jobId) r.chunks 0
  if bytesWritten = 0 then
    perform (.unlink (svc.storagePath r.jobId))
    Routine.raise (.HTTPException 400 "Uploaded file is empty")
  else registerJob svc r

/-- `create_import`. -/
def createImport (r : Request) : UploadM (ImportJob × Bool) :=
  if r.isCsv = true then storeUpload svc r
  else Routine.raise (.HTTPException 400 "File must be a .csv file")

end Program

/-! ### Any number of requests -/

/-- The columns of a job that `create_import` writes and nothing else does. -/
def ImportJob.upload (job : ImportJob) : Uuid × Uuid × String × String × String :=
  (job.id, job.clientId, job.originalFilename, job.storagePath, job.idempotencyKey)

/-- The row with other values in the columns that workers write. -/
def ImportJob.overwrite (old new : ImportJob) : ImportJob :=
  { new with
    id := old.id
    clientId := old.clientId
    originalFilename := old.originalFilename
    storagePath := old.storagePath
    idempotencyKey := old.idempotencyKey }

/-- What reaches the shared state from outside. -/
inductive UploadArrival where
  /-- A request, for which `create_import` is called. -/
  | request (r : Request)
  /-- A worker reads or reclaims an entry of the stream. -/
  | claim (entry : ℕ)
  /-- A worker acknowledges an entry. -/
  | ack (entry : ℕ)
  /-- A worker that got the job from the stream commits values into its row. -/
  | work (row : ImportJob)

/-- The result of `uuid4` is new: no job, entry, file or other request has it. -/
def UploadWorld.unused (svc : Service) (w : UploadWorld) (id : Uuid) : Bool :=
  w.db.jobs.all (fun row => row.id ≠ id) && w.stream.all (fun x => x.importJobId ≠ id) &&
    (w.files (svc.storagePath id)).isNone && w.requests.all fun r => r.jobId ≠ id

/-- A pool of requests. -/
abbrev UploadPool :=
  Pool UploadWorld Request UploadOp UploadOp.Ans (Except UploadExn (ImportJob × Bool))

/-- A call of the pool. -/
abbrev UploadProc := Proc Request UploadOp UploadOp.Ans (Except UploadExn (ImportJob × Bool))

/-- An event of the requests. -/
abbrev UploadEvent := Interleaved.Event Fault UploadArrival

/-- The program of a request. -/
def Request.program (svc : Service) (r : Request) :
    Program UploadOp UploadOp.Ans (Except UploadExn (ImportJob × Bool)) :=
  (createImport svc r ()).bind fun x => .done x.1

/-- The effect of an arrival. -/
def UploadArrival.apply (svc : Service) (w : UploadWorld) : UploadArrival →
    Option (UploadWorld ×
      Option (Request × Program UploadOp UploadOp.Ans (Except UploadExn (ImportJob × Bool))))
  | request r =>
    bif w.unused svc r.jobId then
      some ({ w with requests := w.requests ++ [r] }, some (r, r.program svc))
    else none
  | claim entry => (w.stream.claim entry).map fun p => ({ w with stream := p.1 }, none)
  | ack entry => some ({ w with stream := w.stream.xack entry }, none)
  | work row =>
    if w.stream.Enqueued row.id then
      some ({ w with db := w.db.updateJob row.id fun old => old.overwrite row }, none)
    else none

/-- The requests as a system of interleaved programs. -/
def uploads (svc : Service) :
    System UploadWorld Request UploadOp UploadOp.Ans Fault UploadArrival
      (Except UploadExn (ImportJob × Bool)) where
  exec := UploadOp.exec
  arrive x w := x.apply svc w

/-! ### Small requests, for runs that are evaluated -/

/-- A service whose hash is right on the file of `sampleRequest`. -/
def sampleService : Service where
  uploadDir := "/data/uploads"
  uploadMaxBytes := 500 * 1024 * 1024
  sha256 _ := "ca978112ca1bbdcafac231b39a23dc4da786eff8147c4e72b9807785afee48bb"

/-- A client uploads the one-byte file `a` with the key `k1`. -/
def sampleRequest (clientId jobId : Uuid) : Request where
  clientId := clientId
  filename := some "a.csv"
  idempotencyKeyHeader := some "k1"
  chunks := [[97]]
  jobId := jobId
  chunks_ne := by decide

def firstClient : Uuid := ⟨"00000000-0000-4000-8000-0000000000c1", by decide⟩

def secondClient : Uuid := ⟨"00000000-0000-4000-8000-0000000000c2", by decide⟩

def firstJob : Uuid := ⟨"00000000-0000-4000-8000-0000000000a1", by decide⟩

def secondJob : Uuid := ⟨"00000000-0000-4000-8000-0000000000a2", by decide⟩

/-- A client uploads the file of `sampleRequest` with a key of 129 characters. -/
def longKeyRequest : Request :=
  { sampleRequest firstClient firstJob with
    idempotencyKeyHeader := some (String.ofList (List.replicate 129 'k')) }

/-- Nothing has been uploaded. -/
def emptyUploads : UploadWorld := ⟨⟨[], [], []⟩, [], fun _ => none, []⟩

/-- The next `n` operations of the `i`-th call succeed. -/
def uploadRuns (i n : ℕ) : List UploadEvent := List.replicate n (.run i .ok)

/-- The job that a call has returned, and whether it was there before. -/
def answerOf (p : UploadProc) : Option (ImportJob × Bool) := p.result.bind Except.toOption

theorem result_of_answerOf {p : UploadProc} {answer : ImportJob × Bool}
    (h : answerOf p = some answer) : p.result = some (.ok answer) := by
  obtain ⟨x, hx, hopt⟩ := Option.bind_eq_some_iff.mp h
  cases x with
  | error e => cases hopt
  | ok y => rw [hx, Option.some.inj hopt]

end TransactionPlatform
