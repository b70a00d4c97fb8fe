import TransactionPlatform.Worker.ImportWorker

/-!
# A batch that fails

`_commit_batch` sends up to three statements and commits.  When one of them raises, the `except`
block of `process_entry` commits the same session, without a rollback.  If the failure has aborted
the transaction, this commit is refused and nothing of the batch remains; if it has not, the commit
makes durable whatever the batch had done before.  `failed_batch_undone_iff` says when that is
nothing.
-/

namespace TransactionPlatform

open Interleaved KeyedTable

/-- Where `_commit_batch` can raise before its commit has taken effect. -/
inductive BatchPoint where
  | insertTransactions
  | insertErrors
  | updateProgress
  | commit
  deriving DecidableEq

namespace BatchPoint

/-- What the operation at this point answers. -/
def outcome (valid : List Transaction) (errors : List ImportError) (f : Fault) :
    BatchPoint → Except Exn Unit
  | insertTransactions => (Stmt.insertTransactions valid).outcome f
  | insertErrors => (Stmt.insertErrors errors).outcome f
  | updateProgress => Stmt.updateProgress.outcome f
  | commit => if f = .ok then .ok () else .error .DBAPIError

/-- The batch gets to this point when nothing goes wrong before it: an empty list of rows is not
sent, and the rows sent before are taken. -/
def Reached (p : BatchPoint) (valid : List Transaction) (errors : List ImportError) : Prop :=
  match p with
  | insertTransactions => valid ≠ []
  | insertErrors => errors ≠ [] ∧ outcome valid errors .ok insertTransactions = .ok ()
  | updateProgress | commit =>
    outcome valid errors .ok insertTransactions = .ok () ∧
      outcome valid errors .ok insertErrors = .ok ()

/-- The operation at this point. -/
def hits : BatchPoint → WorkerOp → Bool
  | insertTransactions, .execute (.insertTransactions _) => true
  | insertErrors, .execute (.insertErrors _) => true
  | updateProgress, .execute .updateProgress => true
  | commit, .commit _ => true
  | _, _ => false

/-- The operation at this point meets the fault, and every other operation succeeds. -/
def failing (p : BatchPoint) (f : Fault) (o : WorkerOp) : Option Fault :=
  some (bif p.hits o then f else .ok)

end BatchPoint

section Batch

variable (files : String → Option Csv) (job : ImportJob) (valid : List Transaction)
variable (errors : List ImportError) (upTo : ℕ)

/-- The state after `_commit_batch` has failed at the point and the handler of `process_entry` has
run. -/
def afterFailure (p : BatchPoint) (f : Fault) (w : World) : World :=
  ((Routine.tryExcept (commitBatch valid errors upTo) handleFailure (.opened job)).play
    (WorkerOp.exec files) (fun _ => p.failing f) 0 w).1

/-- Nothing of the batch is committed: the transactions, the records and the progress of the job are
as they were. -/
structure BatchUndone (id : Uuid) (row : ImportJob) (db db' : Db) : Prop where
  transactions : db'.transactions = db.transactions
  errors : db'.errors = db.errors
  progress : ∃ row', db'.job id = some row' ∧ row'.processedRows = row.processedRows ∧
    row'.successfulRows = row.successfulRows ∧ row'.failedRows = row.failedRows ∧
    row'.lastCommittedRow = row.lastCommittedRow

/-- What was executed before the failure has no effect: the ids of the inserted rows are in the
table already, and the counters the batch writes are in the row, or are those the session has
loaded. -/
def Ineffective (row : ImportJob) (db : Db) : BatchPoint → Prop
  | .insertTransactions => True
  | .insertErrors => ∀ x ∈ valid, HasKey Transaction.transactionId db.transactions x.transactionId
  | .updateProgress =>
    (∀ x ∈ valid, HasKey Transaction.transactionId db.transactions x.transactionId) ∧
      errors = [] ∧ (upTo = job.processedRows ∨ upTo = row.processedRows) ∧
      (valid = [] ∨ job.failedRows + valid.length = row.failedRows) ∧
      (upTo = job.lastCommittedRow ∨ upTo = row.lastCommittedRow)
  | .commit => True

end Batch

variable {files : String → Option Csv} {job row : ImportJob} {valid : List Transaction}
variable {errors : List ImportError} {upTo : ℕ} {w : World}

/-! ### What the handler commits -/

section Play

variable {g : WorkerOp → Option Fault} {n : ℕ} {s s' : Session} {e : Exn} {α β : Type}

theorem play_execute {stmt : Stmt} {f : Fault} (hg : g (.execute stmt) = some f) :
    (WorkerM.execute stmt s).play (WorkerOp.exec files) (fun _ => g) n w =
      (w, some (stmt.outcome f, s.executed stmt (stmt.outcome f))) := by
  simp only [WorkerM.execute, Program.play, hg]
  rfl

/-- A commit that raises before it takes effect. -/
theorem play_commit {f : Fault} (hs : s.broken = false) (hg : g (.commit s) = some f)
    (hok : f ≠ .ok) (hlost : f ≠ .lost) :
    (WorkerM.commit s).play (WorkerOp.exec files) (fun _ => g) n w =
      (w, some (.error .DBAPIError, { s with broken := true })) := by
  simp only [WorkerM.commit, hs, cond_false, Program.play, hg]
  cases f with
  | ok => exact absurd rfl hok
  | rejected => rfl
  | failed => rfl
  | lost => exact absurd rfl hlost

/-- The rest of a routine is played from where its first part has ended. -/
theorem play_andThen {m : WorkerM α} {r : Except Exn α} (k : α → WorkerM β)
    (h : (m s).play (WorkerOp.exec files) (fun _ => g) n w = (w, some (r, s'))) :
    ((m >>= k) s).play (WorkerOp.exec files) (fun _ => g) n w =
      (Routine.andThen k (r, s')).play (WorkerOp.exec files) (fun _ => g) n w :=
  Program.play_bind (WorkerOp.exec files) (Routine.andThen k) h

/-- An insert of a batch that is taken, or not sent for want of rows. -/
theorem play_insert {β : Type} {rows : List β} {stmt : Stmt} (hg : g (.execute stmt) = some .ok)
    (hok : stmt.outcome .ok = .ok ()) :
    (Routine.runIf (!rows.isEmpty) (WorkerM.execute stmt) s).play (WorkerOp.exec files)
        (fun _ => g) n w =
      (w, some (.ok (), { s with work := s.work ++ bif !rows.isEmpty then [stmt] else [] })) := by
  cases rows with
  | nil =>
    rw [List.isEmpty_nil, Bool.not_true, cond_false, List.append_nil]
    rfl
  | cons x xs =>
    refine (play_execute hg).trans ?_
    rw [hok]
    rfl

end Play

namespace BatchPoint

variable (job valid errors upTo)

/-- The session when the batch gets to this point. -/
def session : BatchPoint → Session
  | insertTransactions => .opened job
  | insertErrors => ⟨job, job, inserts valid [], false⟩
  | updateProgress =>
    ⟨job, job, inserts valid errors ++ [.advance valid.length errors.length upTo], false⟩
  | commit =>
    ⟨job, job, inserts valid errors ++ [.advance valid.length errors.length upTo] ++
      [.updateProgress], false⟩

variable {job valid errors upTo}

/-- The operation succeeds, or raises in the client or in Postgres. -/
theorem outcome_cases (p : BatchPoint) (valid : List Transaction) (errors : List ImportError)
    (f : Fault) : p.outcome valid errors f = .ok () ∨
      p.outcome valid errors f = .error .ClientError ∨
      p.outcome valid errors f = .error .DBAPIError := by
  cases p with
  | insertTransactions => exact (Stmt.outcome_cases _ f).imp_left And.left
  | insertErrors => exact (Stmt.outcome_cases _ f).imp_left And.left
  | updateProgress => exact (Stmt.outcome_cases _ f).imp_left And.left
  | commit =>
    simp only [outcome]
    split
    · exact .inl rfl
    · exact .inr (.inr rfl)

theorem updateProgress_ok : Stmt.updateProgress.outcome .ok = .ok () := by decide

/-- `_commit_batch` raises what the operation at the point has raised; only an error of the client
leaves the session usable. -/
theorem play_commitBatch {p : BatchPoint} {f : Fault} {e : Exn} (hreach : p.Reached valid errors)
    (hraise : p.outcome valid errors f = .error e) (hlost : p = .commit → f ≠ .lost) :
    (commitBatch valid errors upTo (.opened job)).play (WorkerOp.exec files)
        (fun _ => p.failing f) 0 w =
      (w, some (.error e, { p.session job valid errors upTo with
        broken := !decide (e = .ClientError) })) := by
  have hexecuted : ∀ (s : Session) (stmt : Stmt), s.broken = false →
      s.executed stmt (.error e) = { s with broken := !decide (e = .ClientError) } := by
    rintro ⟨current, saved, work, broken⟩ stmt rfl
    cases e <;> rfl
  unfold commitBatch
  cases p with
  | insertTransactions =>
    have hcond : (!valid.isEmpty) = true := by simpa [Reached] using hreach
    rw [hcond]
    refine (play_andThen _ (play_execute (f := f) rfl)).trans ?_
    have hout : (Stmt.insertTransactions valid).outcome f = .error e := hraise
    rw [hout, hexecuted _ _ rfl]
    rfl
  | insertErrors =>
    have hcond : (!errors.isEmpty) = true := by simpa [Reached] using hreach.1
    rw [hcond]
    refine (play_andThen _ (play_insert rfl hreach.2)).trans ?_
    refine (play_andThen _ (play_execute (f := f) rfl)).trans ?_
    have hout : (Stmt.insertErrors errors).outcome f = .error e := hraise
    rw [hout, hexecuted _ _ rfl]
    simp [Routine.andThen, Program.play, session, inserts, Session.opened]
  | updateProgress =>
    refine (play_andThen _ (play_insert rfl hreach.1)).trans ?_
    refine (play_andThen _ (play_insert rfl hreach.2)).trans ?_
    refine (play_andThen (r := .ok ()) _ rfl).trans ?_
    refine (play_andThen _ (play_execute (f := f) rfl)).trans ?_
    have hout : Stmt.updateProgress.outcome f = .error e := hraise
    rw [hout, hexecuted _ _ rfl]
    simp [Routine.andThen, Program.play, session, inserts, Session.opened]
  | commit =>
    refine (play_andThen _ (play_insert rfl hreach.1)).trans ?_
    refine (play_andThen _ (play_insert rfl hreach.2)).trans ?_
    refine (play_andThen (r := .ok ()) _ rfl).trans ?_
    refine (play_andThen _ (play_execute (f := .ok) rfl)).trans ?_
    rw [updateProgress_ok]
    refine (play_andThen _ (play_commit (f := f) rfl rfl ?_ (hlost rfl))).trans ?_
    · rintro rfl
      cases hraise
    have he : e = .DBAPIError := by
      simp only [outcome] at hraise
      split at hraise
      · cases hraise
      · exact (Except.error.inj hraise).symm
    subst he
    simp [Routine.andThen, Program.play, session, inserts, Session.opened, Session.executed]

end BatchPoint

variable {p : BatchPoint} {f : Fault}

/-- The handler runs on the session as the batch has left it. -/
theorem afterFailure_eq {e : Exn} (hreach : p.Reached valid errors)
    (hraise : p.outcome valid errors f = .error e) (hlost : p = .commit → f ≠ .lost) :
    afterFailure files job valid errors upTo p f w =
      ((handleFailure e { p.session job valid errors upTo with
        broken := !decide (e = .ClientError) }).play (WorkerOp.exec files)
          (fun _ => p.failing f) 0 w).1 :=
  congrArg Prod.fst
    (Program.play_bind (WorkerOp.exec files) (Routine.orElse handleFailure)
      (p.play_commitBatch hreach hraise hlost))

/-- After an error of Postgres the commit of the handler is refused. -/
theorem afterFailure_aborted (hreach : p.Reached valid errors)
    (hraise : p.outcome valid errors f = .error .DBAPIError) (hlost : p = .commit → f ≠ .lost) :
    (afterFailure files job valid errors upTo p f w).db = w.db := by
  rw [afterFailure_eq hreach hraise hlost]
  rfl

/-- After an error of the client the handler commits its own assignments and what was executed
before the statement. -/
theorem afterFailure_client (hreach : p.Reached valid errors)
    (hraise : p.outcome valid errors f = .error .ClientError) :
    (afterFailure files job valid errors upTo p f w).db =
      ({ p.session job valid errors upTo with current := job.requeued } : Session).commitDb
        w.db := by
  have hp : p ≠ .commit := by
    rintro rfl
    simp only [BatchPoint.outcome] at hraise
    split at hraise <;> cases hraise
  rw [afterFailure_eq hreach hraise fun h => absurd h hp]
  cases p with
  | commit => exact absurd rfl hp
  | insertTransactions => rfl
  | insertErrors => rfl
  | updateProgress => rfl

/-! ### When that is nothing -/

/-- A flush leaves a column alone if the attribute has not changed, or if the row has its value. -/
theorem flushed_eq_row_iff {β : Type} [DecidableEq β] {saved current row : β} :
    flushed saved current row = row ↔ current = saved ∨ current = row := by
  unfold flushed
  split
  · next h => exact ⟨fun _ => .inl h, fun _ => rfl⟩
  · next h => exact ⟨.inr, fun hor => hor.resolve_left h⟩

/-- The row after the handler has written an object that was changed by the batch or by itself. -/
theorem job_flushed {db : Db} (current : ImportJob) (valid : List Transaction)
    (errors : List ImportError) (hrow : db.job job.id = some row) :
    ((db.inserted valid errors).updateJob job.id (ImportJob.flush job current)).job job.id =
      some (ImportJob.flush job current row) := by
  rw [Db.job_updateJob_self (ImportJob.flush_id _ _), Db.job_inserted, hrow, Option.map_some]

/-- A commit of inserts, with the assignments of the handler. -/
theorem undone_inserts_iff {db : Db} (hrow : db.job job.id = some row) :
    BatchUndone job.id row db
        ((Session.mk job.requeued job (inserts valid []) false).commitDb db) ↔
      ∀ x ∈ valid, HasKey Transaction.transactionId db.transactions x.transactionId := by
  have hcommit : (Session.mk job.requeued job (inserts valid []) false).commitDb db =
      (db.inserted valid []).updateJob job.id (ImportJob.flush job job.requeued) := by
    unfold Session.commitDb
    rw [Session.transaction_inserts]
    rfl
  have hprogress : ∃ row', (db.inserted valid [] |>.updateJob job.id
      (ImportJob.flush job job.requeued)).job job.id = some row' ∧
      row'.processedRows = row.processedRows ∧ row'.successfulRows = row.successfulRows ∧
      row'.failedRows = row.failedRows ∧ row'.lastCommittedRow = row.lastCommittedRow :=
    ⟨_, job_flushed job.requeued valid [] hrow, flushed_self _ _, flushed_self _ _,
      flushed_self _ _, flushed_self _ _⟩
  rw [hcommit, ← insertAbsent_eq_self_iff]
  constructor
  · intro h
    exact h.transactions
  · intro h
    exact ⟨h, List.append_nil db.errors, hprogress⟩

/-- A commit of a batch whose update was refused. -/
theorem undone_advance_iff {db : Db} (hrow : db.job job.id = some row) :
    BatchUndone job.id row db ((Session.mk job.requeued job (inserts valid errors ++
        [.advance valid.length errors.length upTo]) false).commitDb db) ↔
      Ineffective job valid errors upTo row db .updateProgress := by
  obtain ⟨n, hn⟩ : ∃ n, n = insertedCount db.transactions valid := ⟨_, rfl⟩
  have hcommit : (Session.mk job.requeued job (inserts valid errors ++
      [.advance valid.length errors.length upTo]) false).commitDb db =
      (db.inserted valid errors).updateJob job.id (ImportJob.flush job
        (job.requeued.advanced valid.length errors.length upTo n)) := by
    unfold Session.commitDb
    rw [Session.transaction_advance, hn]
    rfl
  have hnew := job_flushed (job.requeued.advanced valid.length errors.length upTo n) valid errors
    hrow
  have hcount : insertAbsent Transaction.transactionId db.transactions valid = db.transactions →
      n = 0 := by
    intro hkeys
    rw [hn, insertedCount, hkeys, Nat.sub_self]
  rw [hcommit]
  constructor
  · intro h
    have hkeys := h.transactions
    have herrors : errors = [] := List.append_right_eq_self.mp h.errors
    obtain ⟨row', hrow', hproc, -, hfail, hlast⟩ := h.progress
    rw [hnew] at hrow'
    cases hrow'
    refine ⟨insertAbsent_eq_self_iff.mp hkeys, herrors, flushed_eq_row_iff.mp hproc, ?_,
      flushed_eq_row_iff.mp hlast⟩
    have hfail' : job.failedRows + (errors.length + (valid.length - n)) = job.failedRows ∨
        job.failedRows + (errors.length + (valid.length - n)) = row.failedRows :=
      flushed_eq_row_iff.mp hfail
    rw [herrors, hcount hkeys, List.length_nil, Nat.zero_add, Nat.sub_zero] at hfail'
    exact hfail'.imp_left fun h => List.length_eq_zero_iff.mp (Nat.left_eq_add.mp h.symm)
  · rintro ⟨hkeys, rfl, hproc, hfail, hlast⟩
    have hsame := insertAbsent_eq_self_iff.mpr hkeys
    refine ⟨hsame, List.append_nil _, _, hnew, flushed_eq_row_iff.mpr hproc, ?_,
      flushed_eq_row_iff.mpr ?_, flushed_eq_row_iff.mpr hlast⟩
    · rw [hcount hsame]
      exact flushed_self _ _
    · rw [hcount hsame]
      change job.failedRows + (0 + (valid.length - 0)) = job.failedRows ∨
        job.failedRows + (0 + (valid.length - 0)) = row.failedRows
      rw [Nat.zero_add, Nat.sub_zero]
      exact hfail.imp_left fun h => by rw [h, List.length_nil, Nat.add_zero]

/-- After `_commit_batch` has raised before its commit took effect and the handler has run, nothing
of the batch is committed exactly if the failure aborted the transaction or what had been executed
before it has no effect. -/
theorem failed_batch_undone_iff (files : String → Option Csv) (w : World) (job row : ImportJob)
    (valid : List Transaction) (errors : List ImportError) (upTo : ℕ) (p : BatchPoint) (f : Fault)
    (hrow : w.db.job job.id = some row) (hreach : p.Reached valid errors)
    (hraise : p.outcome valid errors f ≠ .ok ()) (hlost : p = .commit → f ≠ .lost) :
    BatchUndone job.id row w.db (afterFailure files job valid errors upTo p f w).db ↔
      (p.outcome valid errors f = .error .DBAPIError ∨
        Ineffective job valid errors upTo row w.db p) := by
  have hundone : BatchUndone job.id row w.db w.db := ⟨rfl, rfl, row, hrow, rfl, rfl, rfl, rfl⟩
  rcases p.outcome_cases valid errors f with hout | hout | hout
  · exact absurd hout hraise
  · have hdrop : (p.outcome valid errors f = .error .DBAPIError ∨
        Ineffective job valid errors upTo row w.db p) ↔
        Ineffective job valid errors upTo row w.db p := by
      rw [hout]
      exact or_iff_right nofun
    rw [hdrop, afterFailure_client hreach hout]
    cases p with
    | insertTransactions =>
      have hnone : ∀ x ∈ ([] : List Transaction),
          HasKey Transaction.transactionId w.db.transactions x.transactionId :=
        fun x hx => by cases hx
      exact iff_of_true ((undone_inserts_iff hrow).mpr hnone) trivial
    | insertErrors => exact undone_inserts_iff hrow
    | updateProgress => exact undone_advance_iff hrow
    | commit =>
      simp only [BatchPoint.outcome] at hout
      split at hout <;> cases hout
  · rw [afterFailure_aborted hreach hout hlost]
    exact iff_of_true hundone (.inl hout)

/-- The transaction of the sample row. -/
def sampleTransaction : Transaction :=
  ⟨"T1", "A1", .CREDIT, .finite false 1050 (-2), "USD", ⟨2026, 9, 1, 10, 0, 0, 0, some 0⟩,
    some sampleId⟩

/-- The record of an empty second row. -/
def sampleError : ImportError :=
  ⟨sampleId, 2, none, "transaction_id is required and must be non-empty"⟩

/-- The first insert of a batch is refused by the client library. -/
theorem sample_failed_batch_undone :
    BatchUndone sampleId sampleJob sampleWorld.db (afterFailure (sampleFiles sampleCsv) sampleJob
      [sampleTransaction] [sampleError] 2 .insertTransactions .rejected sampleWorld).db := by
  have hrow : sampleWorld.db.job sampleJob.id = some sampleJob := by decide +kernel
  exact (failed_batch_undone_iff (sampleFiles sampleCsv) sampleWorld sampleJob sampleJob
    [sampleTransaction] [sampleError] 2 .insertTransactions .rejected hrow (List.cons_ne_nil _ _)
    (by decide +kernel) nofun).mpr (.inr trivial)

/-- The second insert of a batch is refused by the client library: the handler commits the first
one, and the checkpoint stays where it was. -/
theorem failed_batch_half_committed :
    let db := (afterFailure (sampleFiles sampleCsv) sampleJob [sampleTransaction] [sampleError] 2
      .insertErrors .rejected sampleWorld).db
    sampleWorld.db.transactions = [] ∧ db.transactions = [sampleTransaction] ∧ db.errors = [] ∧
      (db.job sampleId).map ImportJob.lastCommittedRow = some 0 := by
  decide +kernel

end TransactionPlatform
