import TransactionPlatform.Worker.Buffer

/-!
# The phases of an attempt

One call of `process_entry` as an abstract machine.  A phase records what the attempt holds in
memory; a move is labelled with the operation it performs and with the fault the operation meets.
The committed tables change only in the moves `commit`, the stream only in the moves `ack` and
`ackTry`.
-/

namespace TransactionPlatform

open Interleaved KeyedTable

/-- Where an attempt stands. -/
inductive Phase where
  /-- The job has not been loaded. -/
  | unread
  /-- The job was loaded without retries left. -/
  | giveUp (job : ImportJob)
  /-- The job was loaded and `_run_import` begins. -/
  | start (job : ImportJob)
  /-- `_run_import` has committed `PROCESSING`; `job` is the object after the last commit and `base`
  its `last_committed_row` when the loop began. -/
  | scan (job : ImportJob) (base : ℕ)
  /-- `_run_import` has returned; the entry is acknowledged inside the `try`. -/
  | ackTry (job : ImportJob)
  /-- The entry is acknowledged outside the `try`. -/
  | ack
  /-- The `except` block is about to commit the session. -/
  | handle (s : Session) (e : Exn)
  /-- The call has returned or raised. -/
  | ended (r : Except Exn Unit)

/-- The branches of `process_entry` behind `_load_job`. -/
def Phase.loaded : Option ImportJob → Phase
  | none => .ack
  | some job =>
    if job.status = .COMPLETED then .ack
    else if maxRetries ≤ job.retryCount then .giveUp job
    else .start job

/-- Where an attempt goes on behind `_load_job`, and why. -/
theorem Phase.loaded_cases (row : Option ImportJob) :
    (Phase.loaded row = .ack ∧ ∀ job, row = some job → job.status = .COMPLETED) ∨
    (∃ job, Phase.loaded row = .giveUp job ∧ row = some job ∧ job.status ≠ .COMPLETED ∧
      maxRetries ≤ job.retryCount) ∨
    ∃ job, Phase.loaded row = .start job ∧ row = some job ∧ job.status ≠ .COMPLETED ∧
      job.retryCount < maxRetries := by
  cases row with
  | none => exact .inl ⟨rfl, nofun⟩
  | some job =>
    by_cases hst : job.status = .COMPLETED
    · refine .inl ⟨if_pos hst, fun job' hjob' => ?_⟩
      rw [← Option.some.inj hjob']
      exact hst
    · by_cases hretry : maxRetries ≤ job.retryCount
      · refine .inr (.inl ⟨job, ?_, rfl, hst, hretry⟩)
        rw [Phase.loaded, if_neg hst, if_pos hretry]
      · refine .inr (.inr ⟨job, ?_, rfl, hst, Nat.lt_of_not_le hretry⟩)
        rw [Phase.loaded, if_neg hst, if_neg hretry]

/-- The session after the assignments of the `except` block. -/
def Session.requeue (s : Session) : Session := { s with current := s.current.requeued }

/-- The phase after an exception inside the `try`: a session that needs a rollback makes the commit
of the `except` block raise as well. -/
def Phase.raised (s : Session) (e : Exn) : Phase :=
  bif s.broken then .ended (.error .DBAPIError) else .handle s.requeue e

/-- The phase after a commit. -/
def Phase.afterCommit (cont : ImportJob → Phase) (e : Exn) : Except Exn ImportJob → Phase
  | .ok job => cont job
  | .error _ => .ended (.error e)

/-- The phase after the acknowledgement inside the `try`. -/
def Phase.afterAck (job : ImportJob) : Except Exn Unit → Phase
  | .ok _ => .ended (.ok ())
  | .error e => .handle (Session.opened job).requeue e

/-- The statements of a batch. -/
def Batch.work (b : Batch) : List Stmt :=
  inserts b.valid b.errors ++ [.advance b.valid.length b.errors.length b.rowNumber, .updateProgress]

/-- A batch is taken if its inserts are. -/
theorem Batch.taken_work {b : Batch} (h : ∀ stmt ∈ inserts b.valid b.errors, stmt.taken = true) :
    ∀ stmt ∈ b.work, stmt.taken = true := by
  intro stmt hstmt
  rcases List.mem_append.mp hstmt with hstmt | hstmt
  · exact h stmt hstmt
  · rcases List.mem_pair.mp hstmt with rfl | rfl <;> rfl

section Machine

variable (py : Python) (files : String → Option Csv) (t : Attempt)

/-- The reader raises in the file of the job, or `validate_row` raises on a row of it behind the
checkpoint. -/
def PoisonFile (job : ImportJob) : Prop :=
  ∃ csv, files job.storagePath = some csv ∧ (csv.raises = true ∨ ∃ (i : ℕ) (row : Row)
    (name : String), job.lastCommittedRow ≤ i ∧ csv.rows[i]? = some row ∧
      py.validateRow row (i + 1) = .raised name)

/-- The sessions an attempt commits, and the phase it goes on to. -/
inductive Commits : Phase → Session → (ImportJob → Phase) → Prop where
  | giveUp {job : ImportJob} {time : ℕ} (hid : job.id = t.importJobId) :
      Commits (.giveUp job) ⟨job.givenUp time, job, [], false⟩ fun _ => .ack
  | start {job : ImportJob} {startedAt : Option ℕ} (hid : job.id = t.importJobId) :
      Commits (.start job)
        ⟨{ job with startedAt := startedAt, status := .PROCESSING }, job, [], false⟩
        fun j => .scan j j.lastCommittedRow
  | batch {job : ImportJob} {base : ℕ} {csv : Csv} {b : Batch} (hid : job.id = t.importJobId)
      (hcsv : files job.storagePath = some csv) (hcol : csv.missingColumns = [])
      (hb : Buffered py job.id csv.rows base job.lastCommittedRow b)
      (hlt : job.lastCommittedRow < b.rowNumber)
      (hfits : ∀ i, job.lastCommittedRow ≤ i → i < b.rowNumber →
        RowFits py job.id csv.rows base i) :
      Commits (.scan job base) ⟨job, job, b.work, false⟩ fun j => .scan j base
  | finish {job : ImportJob} {base time : ℕ} {csv : Csv} (hid : job.id = t.importJobId)
      (hcsv : files job.storagePath = some csv) (hcol : csv.missingColumns = [])
      (hlen : csv.rows.length ≤ job.lastCommittedRow) (hend : csv.raises = false) :
      Commits (.scan job base) ⟨job.completed csv.rows.length time, job, [], false⟩ .ackTry
  | reject {job : ImportJob} {base time : ℕ} {csv : Csv} (hid : job.id = t.importJobId)
      (hcsv : files job.storagePath = some csv) (hcol : csv.missingColumns ≠ []) :
      Commits (.scan job base) ⟨job.rejected py csv time, job, [], false⟩ .ackTry
  | handle {s : Session} {e : Exn} (hid : s.current.id = t.importJobId) :
      Commits (.handle s e) s fun _ => .ended (.error e)

/-- The operations that raise without any effect. -/
inductive Raises : WorkerOp → Fault → Phase → Phase → Prop where
  | load {id : Uuid} {f : Fault} (hf : f ≠ .ok) :
      Raises (.selectJob id) f .unread (.ended (.error .DBAPIError))
  /-- A statement fails in Postgres. -/
  | server {stmt : Stmt} {f : Fault} {job : ImportJob} {base : ℕ} {csv : Csv} {b : Batch}
      (hid : job.id = t.importJobId) (hcsv : files job.storagePath = some csv)
      (hb : Buffered py job.id csv.rows base job.lastCommittedRow b) (hmem : stmt ∈ b.work)
      (hout : stmt.outcome f = .error .DBAPIError) :
      Raises (.execute stmt) f (.scan job base) (.ended (.error .DBAPIError))
  /-- An insert of a batch is refused by the client library. -/
  | insert {stmt : Stmt} {f : Fault} {job : ImportJob} {base : ℕ} {csv : Csv} {b : Batch}
      {valid : List Transaction} (hid : job.id = t.importJobId)
      (hcsv : files job.storagePath = some csv)
      (hb : Buffered py job.id csv.rows base job.lastCommittedRow b)
      (hmem : stmt ∈ b.work) (hvalid : valid = [] ∨ valid = b.valid)
      (hout : stmt.outcome f = .error .ClientError) :
      Raises (.execute stmt) f (.scan job base)
        (.handle ⟨job.requeued, job, inserts valid [], false⟩ .ClientError)
  /-- The update of a batch is refused by the client library. -/
  | update {f : Fault} {job : ImportJob} {base : ℕ} {csv : Csv} {b : Batch}
      (hid : job.id = t.importJobId) (hcsv : files job.storagePath = some csv)
      (hb : Buffered py job.id csv.rows base job.lastCommittedRow b)
      (hout : Stmt.updateProgress.outcome f = .error .ClientError) :
      Raises (.execute .updateProgress) f (.scan job base)
        (.handle ⟨job.requeued, job, inserts b.valid b.errors ++
          [.advance b.valid.length b.errors.length b.rowNumber], false⟩ .ClientError)
  | openCsv {path : String} {f : Fault} {job : ImportJob} {base : ℕ} {e : Exn}
      (hid : job.id = t.importJobId) (hwhy : f ≠ .ok ∨ files job.storagePath = none) :
      Raises (.openCsv path) f (.scan job base) (.handle (Session.opened job).requeue e)
  | readRow {f : Fault} {job : ImportJob} {base : ℕ} {e : Exn} (hid : job.id = t.importJobId)
      (hwhy : f ≠ .ok ∨ PoisonFile py files job) :
      Raises .readRow f (.scan job base) (.handle (Session.opened job).requeue e)

/-- The moves of an attempt. -/
inductive Move : WorkerOp → Fault → World → Phase → World → Phase → Prop where
  | load {w : World} :
      Move (.selectJob t.importJobId) .ok w .unread w (.loaded (w.db.job t.importJobId))
  /-- Nothing that matters happens: the clock, the summary cache, a row, a statement. -/
  | stay {o : WorkerOp} {f : Fault} {w w' : World} {a : Phase} (hdb : w'.db = w.db)
      (hstream : w'.stream = w.stream) (ha : ∀ r, a ≠ .ended r) : Move o f w a w' a
  | fail {o : WorkerOp} {f : Fault} {w : World} {a a' : Phase} (h : Raises py files t o f a a') :
      Move o f w a w a'
  | commit {s : Session} {f : Fault} {w : World} {a : Phase} {cont : ImportJob → Phase} {e : Exn}
      (h : Commits py files t a s cont) :
      Move (.commit s) f w a (WorkerOp.exec files (.commit s) f w).1
        (.afterCommit cont e (WorkerOp.exec files (.commit s) f w).2)
  | ack {f : Fault} {w : World} :
      Move (.xack t.entry) f w .ack (WorkerOp.exec files (.xack t.entry) f w).1
        (.ended (WorkerOp.exec files (.xack t.entry) f w).2)
  | ackTry {f : Fault} {w : World} {job : ImportJob} (hid : job.id = t.importJobId) :
      Move (.xack t.entry) f w (.ackTry job) (WorkerOp.exec files (.xack t.entry) f w).1
        (.afterAck job (WorkerOp.exec files (.xack t.entry) f w).2)

/-- The moves that leave the tables as they are. -/
inductive Quiet : WorkerOp → Fault → Db → Phase → Phase → Prop where
  | load {db : Db} :
      Quiet (.selectJob t.importJobId) .ok db .unread (.loaded (db.job t.importJobId))
  | stay {o : WorkerOp} {f : Fault} {db : Db} {a : Phase} : Quiet o f db a a
  | fail {o : WorkerOp} {f : Fault} {db : Db} {a a' : Phase} (h : Raises py files t o f a a') :
      Quiet o f db a a'
  | finish {o : WorkerOp} {f : Fault} {db : Db} {a : Phase} {r : Except Exn Unit} :
      Quiet o f db a (.ended r)
  | unacked {f : Fault} {db : Db} {job : ImportJob} {e : Exn} (hid : job.id = t.importJobId)
      (hf : f ≠ .ok) :
      Quiet (.xack t.entry) f db (.ackTry job) (.handle (Session.opened job).requeue e)

variable {py files t}

/-- When no operation fails and the statements of the batches are taken, only the file raises: it
cannot be opened, or it is poisonous. -/
theorem Raises.of_ok {o : WorkerOp} {a a' : Phase} (h : Raises py files t o .ok a a')
    (htaken : ∀ job base csv b, a = .scan job base → files job.storagePath = some csv →
      Buffered py job.id csv.rows base job.lastCommittedRow b →
      ∀ stmt ∈ b.work, stmt.taken = true) :
    ∃ job base e, a = .scan job base ∧ a' = .handle (Session.opened job).requeue e ∧
      (files job.storagePath = none ∨ PoisonFile py files job) := by
  have hok : ∀ {job base csv b}, a = .scan job base → files job.storagePath = some csv →
      Buffered py job.id csv.rows base job.lastCommittedRow b →
      ∀ stmt ∈ b.work, stmt.outcome .ok = .ok () := fun ha hcsv hb stmt hmem =>
    Stmt.outcome_eq_ok_iff.mpr ⟨rfl, htaken _ _ _ _ ha hcsv hb stmt hmem⟩
  cases h with
  | load hf => exact absurd rfl hf
  | server hid hcsv hb hmem hout => cases (hok rfl hcsv hb _ hmem).symm.trans hout
  | insert hid hcsv hb hmem hvalid hout => cases (hok rfl hcsv hb _ hmem).symm.trans hout
  | update hid hcsv hb hout => cases (hok rfl hcsv hb _ (by simp [Batch.work])).symm.trans hout
  | openCsv hid hwhy => exact ⟨_, _, _, rfl, rfl, .inl (hwhy.resolve_left fun hf => hf rfl)⟩
  | readRow hid hwhy => exact ⟨_, _, _, rfl, rfl, .inr (hwhy.resolve_left fun hf => hf rfl)⟩

/-- A move leaves the tables as they are, or it is a commit that takes effect. -/
theorem Move.db_cases {o : WorkerOp} {f : Fault} {w w' : World} {a a' : Phase}
    (h : Move py files t o f w a w' a') :
    (w'.db = w.db ∧ Quiet py files t o f w.db a a') ∨
    (∃ s cont, o = .commit s ∧ Commits py files t a s cont ∧ w'.db = s.commitDb w.db ∧
      ((f = .ok ∧ a' = cont (s.commitJob w.db)) ∨ (f = .lost ∧ ∃ e, a' = .ended (.error e)))) := by
  cases h with
  | load => exact .inl ⟨rfl, .load⟩
  | stay hdb hstream ha => exact .inl ⟨hdb, .stay⟩
  | fail h => exact .inl ⟨rfl, .fail h⟩
  | @commit s _ _ _ cont e h =>
    cases f with
    | ok => exact .inr ⟨s, cont, rfl, h, rfl, .inl ⟨rfl, rfl⟩⟩
    | rejected => exact .inl ⟨rfl, .finish⟩
    | failed => exact .inl ⟨rfl, .finish⟩
    | lost => exact .inr ⟨s, cont, rfl, h, rfl, .inr ⟨rfl, e, rfl⟩⟩
  | ack => cases f <;> exact .inl ⟨rfl, .finish⟩
  | ackTry hid =>
    cases f with
    | ok => exact .inl ⟨rfl, .finish⟩
    | rejected => exact .inl ⟨rfl, .unacked hid (by simp)⟩
    | failed => exact .inl ⟨rfl, .unacked hid (by simp)⟩
    | lost => exact .inl ⟨rfl, .unacked hid (by simp)⟩

/-- A move leaves the stream as it is, or it is an acknowledgement. -/
theorem Move.stream_cases {o : WorkerOp} {f : Fault} {w w' : World} {a a' : Phase}
    (h : Move py files t o f w a w' a') :
    w'.stream = w.stream ∨
    (w'.stream = w.stream.xack t.entry ∧ w'.db = w.db ∧ (a = .ack ∨ ∃ job, a = .ackTry job)) := by
  cases h with
  | load => exact .inl rfl
  | stay hdb hstream ha => exact .inl hstream
  | fail h => exact .inl rfl
  | commit h => cases f <;> exact .inl rfl
  | ack =>
    cases f with
    | ok => exact .inr ⟨rfl, rfl, .inl rfl⟩
    | rejected => exact .inl rfl
    | failed => exact .inl rfl
    | lost => exact .inr ⟨rfl, rfl, .inl rfl⟩
  | ackTry hid =>
    cases f with
    | ok => exact .inr ⟨rfl, rfl, .inr ⟨_, rfl⟩⟩
    | rejected => exact .inl rfl
    | failed => exact .inl rfl
    | lost => exact .inr ⟨rfl, rfl, .inr ⟨_, rfl⟩⟩

/-- There is no move from the last phase. -/
theorem Move.ne_ended {o : WorkerOp} {f : Fault} {w w' : World} {a a' : Phase}
    (h : Move py files t o f w a w' a') (r : Except Exn Unit) : a ≠ .ended r := by
  cases h with
  | stay hdb hstream ha => exact ha r
  | fail hr => cases hr <;> nofun
  | commit hc => cases hc <;> nofun
  | load => nofun
  | ack => nofun
  | ackTry hid => nofun

end Machine

end TransactionPlatform
