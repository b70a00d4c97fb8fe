import TransactionPlatform.Columns
import TransactionPlatform.Foundation.KeyedTable

/-!
# Postgres and the SQLAlchemy session of a worker

The committed tables are `Db`.  A worker keeps one session per call of `process_entry`, with one ORM
object, the import job.  The session remembers the attribute values it loaded or flushed last
(`saved`), and a flush writes exactly the columns whose value has changed since
(`expire_on_commit=False` keeps the object as it is across commits).

The statements of an open transaction take effect when it commits, all at once, in the state found
there: until then nobody else sees them, and a writer of the same keys waits.  So a transaction is
the list of statements executed since the last commit, run when `COMMIT` arrives.
-/

namespace TransactionPlatform

open KeyedTable

/-- How the environment lets an operation on Postgres, Redis or a file end. -/
inductive Fault where
  /-- It succeeds. -/
  | ok
  /-- It raises before anything is sent; the open transaction is not affected. -/
  | rejected
  /-- It raises and has no effect: refused by the server, or the connection was lost before. -/
  | failed
  /-- It takes effect, but the reply is lost and it raises. -/
  | lost
  deriving DecidableEq, Repr

/-- The committed tables. -/
structure Db where
  jobs : List ImportJob
  transactions : List Transaction
  errors : List ImportError

namespace Db

/-- `SELECT ... FROM import_jobs WHERE id = ...`. -/
def job (db : Db) (id : Uuid) : Option ImportJob := db.jobs.find? fun r => decide (r.id = id)

/-- `UPDATE import_jobs SET ... WHERE id = ...`. -/
def updateJob (db : Db) (id : Uuid) (f : ImportJob → ImportJob) : Db :=
  { db with jobs := updateKey ImportJob.id id f db.jobs }

end Db

/-- The value a flush leaves in a column: the attribute if it changed since it was saved, otherwise
what the row has. -/
def flushed {β : Type} [DecidableEq β] (saved current row : β) : β :=
  if current = saved then row else current

/-- `UPDATE import_jobs` as the unit of work emits it: the changed attributes only. -/
def ImportJob.flush (saved current row : ImportJob) : ImportJob where
  id := row.id
  clientId := flushed saved.clientId current.clientId row.clientId
  originalFilename := flushed saved.originalFilename current.originalFilename row.originalFilename
  storagePath := flushed saved.storagePath current.storagePath row.storagePath
  status := flushed saved.status current.status row.status
  totalRows := flushed saved.totalRows current.totalRows row.totalRows
  processedRows := flushed saved.processedRows current.processedRows row.processedRows
  successfulRows := flushed saved.successfulRows current.successfulRows row.successfulRows
  failedRows := flushed saved.failedRows current.failedRows row.failedRows
  idempotencyKey := flushed saved.idempotencyKey current.idempotencyKey row.idempotencyKey
  lastCommittedRow := flushed saved.lastCommittedRow current.lastCommittedRow row.lastCommittedRow
  errorMessage := flushed saved.errorMessage current.errorMessage row.errorMessage
  retryCount := flushed saved.retryCount current.retryCount row.retryCount
  startedAt := flushed saved.startedAt current.startedAt row.startedAt
  completedAt := flushed saved.completedAt current.completedAt row.completedAt

/-- The explicit `update(ImportJob).values(...)` of `_commit_batch`. -/
def ImportJob.writeProgress (current row : ImportJob) : ImportJob :=
  { row with
    processedRows := current.processedRows
    successfulRows := current.successfulRows
    failedRows := current.failedRows
    lastCommittedRow := current.lastCommittedRow
    status := current.status
    startedAt := current.startedAt }

/-- The assignments to the counters in `_commit_batch`, with the row count of its insert. -/
def ImportJob.advanced (job : ImportJob) (valid errors upTo rowcount : ℕ) : ImportJob :=
  { job with
    processedRows := upTo
    successfulRows := job.successfulRows + rowcount
    failedRows := job.failedRows + (errors + (valid - rowcount))
    lastCommittedRow := upTo }

/-- What a worker does inside a transaction. -/
inductive Stmt where
  /-- `pg_insert(Transaction).values(rows).on_conflict_do_nothing(...)`. -/
  | insertTransactions (rows : List Transaction)
  /-- `insert(ImportErrorModel)` with a list of rows. -/
  | insertErrors (rows : List ImportError)
  /-- The assignments to the counters of the job in `_commit_batch`, which read the row count of the
  insert before them. -/
  | advance (valid errors upTo : ℕ)
  /-- The explicit `UPDATE` of `_commit_batch`; executing it flushes the session first. -/
  | updateProgress
  deriving DecidableEq

namespace Stmt

/-- The driver can convert the values of the statement. -/
def sendable : Stmt → Bool
  | insertTransactions rows => rows.all fun t => t.timestamp.representableInUtc
  | _ => true

/-- The values of the statement fit their columns. -/
def storable : Stmt → Bool
  | insertTransactions rows => rows.all Transaction.fitsColumns
  | insertErrors rows => rows.all ImportError.storable
  | _ => true

/-- Neither the driver nor a column refuses the statement. -/
def taken (stmt : Stmt) : Bool := stmt.sendable && stmt.storable

end Stmt

/-- The state of a transaction while its statements run: the tables as it sees them, the job object
and its saved values, and the row count of the last insert. -/
structure Tx where
  db : Db
  current : ImportJob
  saved : ImportJob
  rowcount : ℕ

namespace Tx

/-- Flush the job object. -/
def flush (t : Tx) : Tx :=
  { t with
    db := t.db.updateJob t.current.id (ImportJob.flush t.saved t.current)
    saved := t.current }

/-- One statement. -/
def run (t : Tx) : Stmt → Tx
  | .insertTransactions rows =>
    let inserted := insertAbsent Transaction.transactionId t.db.transactions rows
    { t with
      db := { t.db with transactions := inserted }
      rowcount := inserted.length - t.db.transactions.length }
  | .insertErrors rows => { t with db := { t.db with errors := t.db.errors ++ rows } }
  | .advance valid errors upTo =>
    { t with current := t.current.advanced valid errors upTo t.rowcount }
  | .updateProgress =>
    let t := t.flush
    { t with db := t.db.updateJob t.current.id (ImportJob.writeProgress t.current) }

end Tx

/-- The session of one call of `process_entry`, with the loaded job. -/
structure Session where
  /-- The job object, as the code sees and assigns it. -/
  current : ImportJob
  /-- Its attribute values when they were last loaded or flushed. -/
  saved : ImportJob
  /-- The statements executed in the open transaction. -/
  work : List Stmt
  /-- A statement or a commit has failed in Postgres: the session accepts only a rollback. -/
  broken : Bool
  deriving DecidableEq

namespace Session

/-- The session right after the job was loaded. -/
def opened (job : ImportJob) : Session := ⟨job, job, [], false⟩

/-- The transaction after its statements and the flush of the commit. -/
def transaction (s : Session) (db : Db) : Tx :=
  (s.work.foldl Tx.run ⟨db, s.current, s.saved, 0⟩).flush

/-- The tables after the commit. -/
def commitDb (s : Session) (db : Db) : Db := (s.transaction db).db

/-- The job object after the commit. -/
def commitJob (s : Session) (db : Db) : ImportJob := (s.transaction db).current

end Session

/-! ### What a commit does -/

/-- How many of the rows an `insertAbsent` really inserts. -/
def insertedCount (t rows : List Transaction) : ℕ :=
  (insertAbsent Transaction.transactionId t rows).length - t.length

/-- The inserts of a batch; an empty list of rows is not sent. -/
def inserts (valid : List Transaction) (errors : List ImportError) : List Stmt :=
  (bif !valid.isEmpty then [.insertTransactions valid] else []) ++
    (bif !errors.isEmpty then [.insertErrors errors] else [])

/-- Both inserts are taken, an empty one being none. -/
theorem inserts_taken_iff {valid : List Transaction} {errors : List ImportError} :
    (∀ stmt ∈ inserts valid errors, stmt.taken = true) ↔
      (∀ t ∈ valid, t.timestamp.representableInUtc = true ∧ t.fitsColumns = true) ∧
        ∀ e ∈ errors, e.storable = true := by
  have hv : (∀ t ∈ valid, t.timestamp.representableInUtc = true ∧ t.fitsColumns = true) ↔
      (Stmt.insertTransactions valid).taken = true := by
    simp [Stmt.taken, Stmt.sendable, Stmt.storable, forall_and]
  have he : (∀ e ∈ errors, e.storable = true) ↔ (Stmt.insertErrors errors).taken = true := by
    simp [Stmt.taken, Stmt.sendable, Stmt.storable]
  rw [hv, he]
  cases valid <;> cases errors <;> simp [inserts, Stmt.taken, Stmt.sendable, Stmt.storable]

/-- The tables with the rows of a batch. -/
def Db.inserted (db : Db) (valid : List Transaction) (errors : List ImportError) : Db :=
  { db with
    transactions := insertAbsent Transaction.transactionId db.transactions valid
    errors := db.errors ++ errors }

namespace Db

variable {db : Db} {id id' : Uuid} {g : ImportJob → ImportJob}

theorem id_of_job {row : ImportJob} (h : db.job id = some row) : row.id = id := by
  have := List.find?_some h
  exact of_decide_eq_true this

@[simp] theorem job_inserted (valid : List Transaction) (errors : List ImportError) :
    (db.inserted valid errors).job id = db.job id := rfl

theorem job_updateJob_self (hg : ∀ r, (g r).id = r.id) :
    (db.updateJob id g).job id = (db.job id).map g :=
  find?_updateKey_self hg db.jobs

theorem job_updateJob_of_ne (hg : ∀ r, (g r).id = r.id) (h : id' ≠ id) :
    (db.updateJob id g).job id' = db.job id' :=
  find?_updateKey_of_ne hg h db.jobs

theorem updateJob_updateJob {f : ImportJob → ImportJob} (hf : ∀ r, (f r).id = r.id) :
    (db.updateJob id f).updateJob id g = db.updateJob id fun r => g (f r) := by
  unfold updateJob
  rw [updateKey_updateKey hf]

/-- A row stays visible when another one is inserted. -/
theorem job_append_of_some {row new : ImportJob} (h : db.job id = some row) :
    (Db.job { db with jobs := db.jobs ++ [new] } id) = some row := by
  unfold job at h ⊢
  rw [List.find?_append, h]
  rfl

/-- A row that is visible after an insert was there or is the new one. -/
theorem job_append_cases {row new : ImportJob}
    (h : Db.job { db with jobs := db.jobs ++ [new] } id = some row) :
    db.job id = some row ∨ row = new := by
  unfold job at h ⊢
  rw [List.find?_append] at h
  cases hold : db.jobs.find? fun r => decide (r.id = id) with
  | some r => exact .inl (by rw [hold] at h; exact h)
  | none =>
    rw [hold, Option.none_or] at h
    exact .inr (List.mem_singleton.mp (List.mem_of_find?_eq_some h))

/-- An update that changes nothing. -/
theorem updateJob_self (h : ∀ r, g r = r) : db.updateJob id g = db := by
  have hg : (fun x => if ImportJob.id x = id then g x else x) = fun x => x := by
    funext x
    rw [h x, ite_self]
  unfold updateJob updateKey
  rw [hg, List.map_id']

end Db

@[simp] theorem flushed_self {β : Type} [DecidableEq β] (a r : β) : flushed a a r = r :=
  if_pos rfl

@[simp] theorem flushed_saved {β : Type} [DecidableEq β] (saved current : β) :
    flushed saved current saved = current := by
  unfold flushed
  split
  · next h => exact h.symm
  · rfl

namespace ImportJob

@[simp] theorem flush_id (saved current row : ImportJob) :
    (flush saved current row).id = row.id := rfl

@[simp] theorem flush_self (job row : ImportJob) : flush job job row = row := by
  simp only [flush, flushed_self]

/-- A flush into the row that was loaded gives the object. -/
theorem flush_saved {saved current : ImportJob} (h : saved.id = current.id) :
    flush saved current saved = current := by
  simp only [flush, flushed_saved, h]

@[simp] theorem writeProgress_id (current row : ImportJob) :
    (writeProgress current row).id = row.id := rfl

/-- The explicit update covers what the flush before it writes. -/
theorem writeProgress_flush (job row : ImportJob) (valid errors upTo rowcount : ℕ) :
    writeProgress (job.advanced valid errors upTo rowcount)
        (flush job (job.advanced valid errors upTo rowcount) row) =
      writeProgress (job.advanced valid errors upTo rowcount) row := by
  simp only [flush, writeProgress, advanced, flushed_self]

end ImportJob

/-- The effect of the inserts of a batch. -/
theorem Tx.foldl_inserts (t : Tx) (valid : List Transaction) (errors : List ImportError)
    (h : t.rowcount = 0) :
    (inserts valid errors).foldl Tx.run t =
      { t with
        db := t.db.inserted valid errors
        rowcount := insertedCount t.db.transactions valid } := by
  obtain ⟨db, current, saved, rowcount⟩ := t
  subst h
  cases valid with
  | nil =>
    cases errors with
    | nil => simp [inserts, Db.inserted, insertedCount]
    | cons e es => simp [inserts, Db.inserted, insertedCount, Tx.run]
  | cons v vs =>
    cases errors with
    | nil => simp [inserts, Db.inserted, insertedCount, Tx.run]
    | cons e es => simp [inserts, Db.inserted, insertedCount, Tx.run]

namespace Session

variable {db : Db}

/-- A commit of inserts and of assignments to the job. -/
theorem transaction_inserts (current saved : ImportJob) (valid : List Transaction)
    (errors : List ImportError) (broken : Bool) (db : Db) :
    (Session.mk current saved (inserts valid errors) broken).transaction db =
      ⟨(db.inserted valid errors).updateJob current.id (ImportJob.flush saved current), current,
        current, insertedCount db.transactions valid⟩ := by
  unfold transaction
  rw [Tx.foldl_inserts _ _ _ rfl]
  rfl

/-- A commit of a batch whose last statement was never executed. -/
theorem transaction_advance (current saved : ImportJob) (valid : List Transaction)
    (errors : List ImportError) (n m upTo : ℕ) (broken : Bool) (db : Db) :
    (Session.mk current saved (inserts valid errors ++ [.advance n m upTo]) broken).transaction db =
      let job := current.advanced n m upTo (insertedCount db.transactions valid)
      ⟨(db.inserted valid errors).updateJob current.id (ImportJob.flush saved job), job,
        job, insertedCount db.transactions valid⟩ := by
  unfold transaction
  rw [List.foldl_append, Tx.foldl_inserts _ _ _ rfl]
  rfl

/-- A commit of a whole batch. -/
theorem transaction_batch (job : ImportJob) (valid : List Transaction)
    (errors : List ImportError) (n m upTo : ℕ) (broken : Bool) (db : Db) :
    (Session.mk job job (inserts valid errors ++ [.advance n m upTo, .updateProgress])
        broken).transaction db =
      let job' := job.advanced n m upTo (insertedCount db.transactions valid)
      ⟨(db.inserted valid errors).updateJob job.id (ImportJob.writeProgress job'), job', job',
        insertedCount db.transactions valid⟩ := by
  unfold transaction
  rw [List.foldl_append, Tx.foldl_inserts _ _ _ rfl]
  simp only [List.foldl_cons, List.foldl_nil, Tx.run, Tx.flush]
  have hid : (job.advanced n m upTo (insertedCount db.transactions valid)).id = job.id := rfl
  rw [Db.updateJob_self (ImportJob.flush_self _), hid,
    Db.updateJob_updateJob (ImportJob.flush_id _ _)]
  simp only [ImportJob.writeProgress_flush]

/-! What a commit does to the rows of `import_jobs`, whatever its statements are. -/

end Session

namespace Tx

/-- The transaction leaves the rows of other jobs alone. -/
structure Frames (t t' : Tx) : Prop where
  id_eq : t'.current.id = t.current.id
  job_of_ne : ∀ id, id ≠ t.current.id → t'.db.job id = t.db.job id
  /-- While the row is as the session saved it, it stays so. -/
  job_saved : t.saved.id = t.current.id → t.db.job t.current.id = some t.saved →
    t'.saved.id = t.current.id ∧ t'.db.job t.current.id = some t'.saved

theorem Frames.trans {t t' t'' : Tx} (h : Frames t t') (h' : Frames t' t'') : Frames t t'' where
  id_eq := h'.id_eq.trans h.id_eq
  job_of_ne id hid := by
    rw [h'.job_of_ne id (by rwa [h.id_eq]), h.job_of_ne id hid]
  job_saved hid hjob := by
    obtain ⟨h1, h2⟩ := h.job_saved hid hjob
    have := h'.job_saved (h1.trans h.id_eq.symm) (by rwa [h.id_eq])
    rwa [h.id_eq] at this

theorem frames_flush (t : Tx) : Frames t t.flush where
  id_eq := rfl
  job_of_ne id hid := Db.job_updateJob_of_ne (fun _ => rfl) hid
  job_saved hid hjob := by
    refine ⟨rfl, ?_⟩
    simp only [flush]
    rw [Db.job_updateJob_self (ImportJob.flush_id _ _), hjob, Option.map_some,
      ImportJob.flush_saved hid]

theorem frames_run (t : Tx) (stmt : Stmt) : Frames t (t.run stmt) := by
  cases stmt with
  | insertTransactions rows => exact ⟨rfl, fun _ _ => rfl, fun h1 h2 => ⟨h1, h2⟩⟩
  | insertErrors rows => exact ⟨rfl, fun _ _ => rfl, fun h1 h2 => ⟨h1, h2⟩⟩
  | advance valid errors upTo => exact ⟨rfl, fun _ _ => rfl, fun h1 h2 => ⟨h1, h2⟩⟩
  | updateProgress =>
    refine (frames_flush t).trans ⟨rfl, ?_, ?_⟩
    · intro id hid
      exact Db.job_updateJob_of_ne (fun _ => rfl) hid
    · intro hid hjob
      refine ⟨rfl, ?_⟩
      simp only [run, flush] at hjob ⊢
      rw [Db.job_updateJob_self (ImportJob.writeProgress_id _), hjob]
      rfl

theorem frames_foldl (work : List Stmt) (t : Tx) : Frames t (work.foldl run t) := by
  induction work generalizing t with
  | nil => exact ⟨rfl, fun _ _ => rfl, fun h1 h2 => ⟨h1, h2⟩⟩
  | cons stmt work ih => exact (frames_run t stmt).trans (ih _)

end Tx

namespace Session

variable {db : Db}

theorem frames_transaction (s : Session) (db : Db) :
    Tx.Frames ⟨db, s.current, s.saved, 0⟩ (s.transaction db) :=
  (Tx.frames_foldl s.work _).trans (Tx.frames_flush _)

@[simp] theorem commitJob_id (s : Session) (db : Db) : (s.commitJob db).id = s.current.id :=
  (s.frames_transaction db).id_eq

/-- A commit keeps the path of the object. -/
theorem storagePath_commitJob (s : Session) (db : Db) :
    (s.commitJob db).storagePath = s.current.storagePath := by
  suffices hwork : ∀ (work : List Stmt) (x : Tx),
      (work.foldl Tx.run x).current.storagePath = x.current.storagePath from hwork s.work _
  intro work
  induction work with
  | nil => exact fun _ => rfl
  | cons stmt work ih =>
    intro x
    refine (ih (x.run stmt)).trans ?_
    cases stmt <;> rfl

/-- A commit leaves the rows of other jobs alone. -/
theorem job_commitDb_of_ne (s : Session) {id : Uuid} (h : id ≠ s.current.id) :
    (s.commitDb db).job id = db.job id :=
  (s.frames_transaction db).job_of_ne id h

/-- A commit into the row that was loaded makes it equal to the object. -/
theorem job_commitDb_of_saved {s : Session} (hid : s.saved.id = s.current.id)
    (hjob : db.job s.current.id = some s.saved) :
    (s.commitDb db).job s.current.id = some (s.commitJob db) :=
  ((s.frames_transaction db).job_saved hid hjob).2

/-- The status a commit writes into the row, if it writes one: the explicit update of a batch always
does, a flush only when the attribute has changed. -/
def writesStatus (s : Session) : Option ImportStatus :=
  if .updateProgress ∈ s.work ∨ s.current.status ≠ s.saved.status then some s.current.status
  else none

/-- The status of the row after a commit. -/
theorem status_commitDb {s : Session} {row : ImportJob} (h : db.job s.current.id = some row) :
    ∃ row', (s.commitDb db).job s.current.id = some row' ∧
      row'.status = s.writesStatus.getD row.status := by
  -- the statements of a transaction that is at `t`, with the row `row`
  suffices hwork : ∀ (work : List Stmt) (t : Tx) (row : ImportJob),
      t.db.job t.current.id = some row →
      ∃ row', (work.foldl Tx.run t).flush.db.job t.current.id = some row' ∧ row'.status =
        if .updateProgress ∈ work ∨ t.current.status ≠ t.saved.status then t.current.status
        else row.status by
    obtain ⟨row', h1, h2⟩ := hwork s.work ⟨db, s.current, s.saved, 0⟩ row h
    refine ⟨row', h1, h2.trans ?_⟩
    unfold writesStatus
    split <;> rfl
  intro work
  induction work with
  | nil =>
    intro t row hrow
    refine ⟨ImportJob.flush t.saved t.current row, ?_, ?_⟩
    · simp only [List.foldl_nil, Tx.flush]
      rw [Db.job_updateJob_self (ImportJob.flush_id _ _), hrow]
      rfl
    · simp only [ImportJob.flush, flushed, List.not_mem_nil, false_or, ne_eq, ite_not]
  | cons stmt work ih =>
    intro t row hrow
    cases stmt with
    | insertTransactions rows =>
      obtain ⟨row', h1, h2⟩ := ih (t.run (.insertTransactions rows)) row hrow
      exact ⟨row', h1, h2.trans (if_congr (by simp [Tx.run]) rfl rfl)⟩
    | insertErrors rows =>
      obtain ⟨row', h1, h2⟩ := ih (t.run (.insertErrors rows)) row hrow
      exact ⟨row', h1, h2.trans (if_congr (by simp [Tx.run]) rfl rfl)⟩
    | advance valid errors upTo =>
      obtain ⟨row', h1, h2⟩ := ih (t.run (.advance valid errors upTo)) row hrow
      exact ⟨row', h1, h2.trans (if_congr (by simp [Tx.run, ImportJob.advanced]) rfl rfl)⟩
    | updateProgress =>
      have hmid : (t.run .updateProgress).db.job t.current.id =
          some (ImportJob.writeProgress t.current (ImportJob.flush t.saved t.current row)) := by
        simp only [Tx.run, Tx.flush]
        rw [Db.job_updateJob_self (ImportJob.writeProgress_id _),
          Db.job_updateJob_self (ImportJob.flush_id _ _), hrow]
        rfl
      obtain ⟨row', h1, h2⟩ := ih (t.run .updateProgress) _ hmid
      refine ⟨row', h1, h2.trans ?_⟩
      have hmem : Stmt.updateProgress ∈ Stmt.updateProgress :: work := List.mem_cons_self
      simp only [hmem, true_or, if_true]
      split <;> rfl

/-- A commit deletes no job. -/
theorem exists_job_commitDb (s : Session) {id : Uuid} (h : ∃ row, db.job id = some row) :
    ∃ row, (s.commitDb db).job id = some row := by
  obtain ⟨row, hrow⟩ := h
  by_cases hid : id = s.current.id
  · subst hid
    obtain ⟨row', hrow', -⟩ := status_commitDb hrow
    exact ⟨row', hrow'⟩
  · exact ⟨row, (s.job_commitDb_of_ne hid).trans hrow⟩

end Session

end TransactionPlatform
