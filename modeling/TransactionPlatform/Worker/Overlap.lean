import TransactionPlatform.Worker.Counters

/-!
# Attempts at one job that overlap

Two workers may process the same job at the same time, each with its own copy of the row.  The
counters of a copy are written as absolute values, and the records of `import_errors` have no unique
constraint, so a batch that is committed from a stale copy spoils the report of the job.
`overlapping_attempts_harmless` shows that nothing else does: if every batch is committed from a
copy whose checkpoint is the one in the table, then the report is right once all attempts have
returned.
-/

namespace TransactionPlatform

open Interleaved KeyedTable

/-- No batch is committed from a stale copy: the checkpoint of the row is the one the attempt has in
memory. -/
def NoStaleBatch (c : WorkerPool) : WorkerEvent → Prop
  | .run i _ => ∀ p ∈ c.procs[i]?, ∀ s k, p.prog = some (.call (.commit s) k) →
      .updateProgress ∈ s.work → ∀ row, c.world.db.job s.current.id = some row →
      row.lastCommittedRow = s.saved.lastCommittedRow
  | _ => True

/-- The report of a job: its counters, its total and its records of `import_errors`. -/
structure Report (files : String → Option Csv) (db : Db) (row : ImportJob) : Prop where
  sum : row.successfulRows + row.failedRows = row.lastCommittedRow
  bound : ∀ csv, files row.storagePath = some csv → row.lastCommittedRow ≤ csv.rows.length
  successful : row.successfulRows = transactionsOf db row.id
  /-- The total is written when the whole file has been committed. -/
  total : row.totalRows.isSome = true → ∀ csv, files row.storagePath = some csv →
    row.totalRows = some csv.rows.length ∧ row.lastCommittedRow = csv.rows.length
  completed : row.status = .COMPLETED → row.totalRows.isSome = true
  retry : row.retryCount < maxRetries
  /-- No row of the file has two records. -/
  nodup : ((db.errors.filter fun e => e.importJobId = row.id).map ImportError.rowNumber).Nodup
  error_le : ∀ e ∈ db.errors, e.importJobId = row.id → e.rowNumber ≤ row.lastCommittedRow

/-- `row` is what `job` was, or has become since. -/
structure Since (job row : ImportJob) : Prop where
  storagePath : row.storagePath = job.storagePath
  behind : job.lastCommittedRow ≤ row.lastCommittedRow
  agrees : job.lastCommittedRow = row.lastCommittedRow →
    job.successfulRows = row.successfulRows ∧ job.failedRows = row.failedRows
  total : job.totalRows.isSome = true → row.totalRows = job.totalRows

/-- If the file has the required columns, the job has a total. -/
def Reported (files : String → Option Csv) (row : ImportJob) : Prop :=
  ∀ csv, files row.storagePath = some csv → csv.missingColumns = [] → row.totalRows.isSome = true

/-- What an attempt that will return normally knows about the row of its job. -/
def OverlapAt (files : String → Option Csv) (row : ImportJob) : Phase → Prop
  | .giveUp _ => False
  | .start job => Since job row
  | .scan job _ => Since job row ∧ job.status = .PROCESSING
  | .ackTry _ => Reported files row
  | .ack => Reported files row
  | .ended (.ok _) => Reported files row
  | _ => True

variable {py : Python} {files : String → Option Csv} {t : Attempt} {db : Db} {job row : ImportJob}

theorem Since.refl (row : ImportJob) : Since row row :=
  ⟨rfl, Nat.le_refl _, fun _ => ⟨rfl, rfl⟩, fun _ => rfl⟩

theorem Since.trans {row' : ImportJob} (h : Since job row) (h' : Since row row') :
    Since job row' where
  storagePath := h'.storagePath.trans h.storagePath
  behind := h.behind.trans h'.behind
  agrees heq := by
    have h1 : job.lastCommittedRow = row.lastCommittedRow :=
      Nat.le_antisymm h.behind (by rw [heq]; exact h'.behind)
    obtain ⟨h2, h3⟩ := h.agrees h1
    obtain ⟨h4, h5⟩ := h'.agrees (h1.symm.trans heq)
    exact ⟨h2.trans h4, h3.trans h5⟩
  total hsome := by
    have h1 := h.total hsome
    rw [← h1]
    exact h'.total (by rw [h1]; exact hsome)

theorem Reported.mono {row' : ImportJob} (h : Reported files row) (hsince : Since row row') :
    Reported files row' := by
  intro csv hcsv hcol
  rw [hsince.storagePath] at hcsv
  have hsome := h csv hcsv hcol
  rw [hsince.total hsome]
  exact hsome

/-- What an attempt knows is not spoiled by another one. -/
theorem OverlapAt.mono {row' : ImportJob} {a : Phase} (h : OverlapAt files row a)
    (hsince : Since row row') : OverlapAt files row' a := by
  cases a with
  | unread => trivial
  | giveUp job => exact h
  | start job => exact h.trans hsince
  | scan job base => exact ⟨h.1.trans hsince, h.2⟩
  | ackTry job => exact Reported.mono h hsince
  | ack => exact Reported.mono h hsince
  | handle s e => trivial
  | ended r =>
    cases r with
    | ok _ => exact Reported.mono h hsince
    | error e => trivial

/-- The report of a job that has not been processed. -/
theorem Report.fresh (hsucc : row.successfulRows = 0) (hfail : row.failedRows = 0)
    (hlast : row.lastCommittedRow = 0) (htotal : row.totalRows = none) (hretry : row.retryCount = 0)
    (hstatus : row.status ≠ .COMPLETED)
    (htrans : ∀ x ∈ db.transactions, x.importJobId ≠ some row.id)
    (herr : ∀ e ∈ db.errors, e.importJobId ≠ row.id) : Report files db row where
  sum := by omega
  bound csv _ := by omega
  successful := hsucc.trans (transactionsOf_eq_zero htrans).symm
  total hsome := by
    rw [htotal] at hsome
    cases hsome
  completed hst := absurd hst hstatus
  retry := by
    rw [hretry]
    decide
  nodup := by
    have hnil : (db.errors.filter fun e => e.importJobId = row.id) = [] :=
      List.filter_eq_nil_iff.mpr fun e he hdec => herr e he (of_decide_eq_true hdec)
    rw [hnil]
    exact List.nodup_nil
  error_le e he hid := absurd hid (herr e he)

/-! ### One commit -/

/-- A commit of assignments that do not touch the counters keeps the report; whether it writes the
total is up to the caller. -/
theorem Report.assign (h : Report files db row) (saved current : ImportJob)
    (hrow : db.job current.id = some row) (hsame : SameProgress saved current)
    (hretry : current.retryCount = saved.retryCount)
    (htotal : (ImportJob.flush saved current row).totalRows = row.totalRows ∨
      ∀ csv, files row.storagePath = some csv →
        (ImportJob.flush saved current row).totalRows = some csv.rows.length ∧
        row.lastCommittedRow = csv.rows.length)
    (hkeep : row.totalRows.isSome = true →
      (ImportJob.flush saved current row).totalRows = row.totalRows)
    (hstatus : (ImportJob.flush saved current row).status = .COMPLETED →
      (ImportJob.flush saved current row).totalRows.isSome = true) :
    ((Session.mk current saved [] false).commitDb db).job current.id =
        some (ImportJob.flush saved current row) ∧
      Report files ((Session.mk current saved [] false).commitDb db)
        (ImportJob.flush saved current row) ∧
      Since row (ImportJob.flush saved current row) := by
  have hpath : (ImportJob.flush saved current row).storagePath = row.storagePath := by
    simp only [ImportJob.flush, hsame.storagePath, flushed_self]
  have hlast : (ImportJob.flush saved current row).lastCommittedRow = row.lastCommittedRow := by
    simp only [ImportJob.flush, hsame.last, flushed_self]
  have hsucc : (ImportJob.flush saved current row).successfulRows = row.successfulRows := by
    simp only [ImportJob.flush, hsame.successful, flushed_self]
  have hfail : (ImportJob.flush saved current row).failedRows = row.failedRows := by
    simp only [ImportJob.flush, hsame.failed, flushed_self]
  have hcount : (ImportJob.flush saved current row).retryCount = row.retryCount := by
    simp only [ImportJob.flush, hretry, flushed_self]
  refine ⟨?_, ⟨?_, ?_, ?_, ?_, hstatus, ?_, h.nodup, ?_⟩, ⟨hpath, hlast.ge, ?_, hkeep⟩⟩
  · change (db.updateJob current.id _).job current.id = _
    rw [Db.job_updateJob_self (ImportJob.flush_id _ _), hrow]
    rfl
  · rw [hsucc, hfail, hlast]
    exact h.sum
  · rw [hlast, hpath]
    exact h.bound
  · rw [hsucc]
    exact h.successful
  · intro hsome csv hcsv
    rw [hpath] at hcsv
    rw [hlast]
    rcases htotal with heq | hnew
    · rw [heq] at hsome ⊢
      exact h.total hsome csv hcsv
    · exact hnew csv hcsv
  · rw [hcount]
    exact h.retry
  · rw [hlast]
    exact h.error_le
  · exact fun _ => ⟨hsucc.symm, hfail.symm⟩

/-- A commit of a batch from a copy that is not stale. -/
theorem Report.batch {csv : Csv} {base : ℕ} {b : Batch} (h : Report files db row)
    (hrow : db.job job.id = some row) (hsince : Since job row) (hst : job.status = .PROCESSING)
    (hcsv : files job.storagePath = some csv)
    (hb : Buffered py job.id csv.rows base job.lastCommittedRow b)
    (hlt : job.lastCommittedRow < b.rowNumber)
    (heq : row.lastCommittedRow = job.lastCommittedRow) :
    ∃ row', ((Session.mk job job b.work false).commitDb db).job job.id = some row' ∧
      Report files ((Session.mk job job b.work false).commitDb db) row' ∧ Since row row' ∧
      Since ((Session.mk job job b.work false).commitJob db) row' := by
  simp only [Session.commitDb, Session.commitJob, Batch.work, Session.transaction_batch]
  obtain ⟨hcount, hle, -⟩ := transactionsOf_inserted db b.errors hb.job_valid
  obtain ⟨hsucc, hfail⟩ := hsince.agrees heq.symm
  have hlen := hb.length_eq
  have hrows := hb.rowNumber_le
  have hsum := h.sum
  have hid : row.id = job.id := Db.id_of_job hrow
  -- the file has not been committed as a whole
  have hnone : row.totalRows = none := by
    cases htotal : row.totalRows with
    | none => rfl
    | some n =>
      obtain ⟨-, hend⟩ := h.total (by rw [htotal]; rfl) csv (by rw [hsince.storagePath]; exact hcsv)
      omega
  have hnone' : ∀ n, row.totalRows = some n → False := by
    intro n hn
    rw [hnone] at hn
    cases hn
  refine ⟨ImportJob.writeProgress (job.advanced b.valid.length b.errors.length b.rowNumber
    (insertedCount db.transactions b.valid)) row, ?_, ⟨?_, ?_, ?_, ?_, ?_, h.retry, ?_, ?_⟩,
    ⟨rfl, ?_, ?_, fun _ => rfl⟩, ⟨hsince.storagePath, Nat.le_refl _, fun _ => ⟨rfl, rfl⟩, ?_⟩⟩
  · rw [Db.job_updateJob_self (ImportJob.writeProgress_id _), Db.job_inserted, hrow]
    rfl
  · simp only [ImportJob.writeProgress, ImportJob.advanced]
    omega
  · intro csv' hcsv'
    change files row.storagePath = some csv' at hcsv'
    rw [hsince.storagePath, hcsv] at hcsv'
    cases hcsv'
    exact hrows
  · simp only [ImportJob.writeProgress, ImportJob.advanced, hsucc, h.successful, hid]
    exact hcount.symm
  · intro hsome
    obtain ⟨n, hn⟩ := Option.isSome_iff_exists.mp hsome
    exact (hnone' n hn).elim
  · intro hc
    change job.status = .COMPLETED at hc
    rw [hst] at hc
    cases hc
  · have hnodup := h.nodup
    have herr := h.error_le
    rw [hid, heq] at herr
    rw [hid] at hnodup
    change (((db.errors ++ b.errors).filter fun e => e.importJobId = row.id).map _).Nodup
    rw [hid]
    exact nodup_errors_append hb hnodup herr
  · intro e he heid
    change e.rowNumber ≤ b.rowNumber
    rcases List.mem_append.mp he with he | he
    · have := h.error_le e he heid
      omega
    · exact (hb.job_errors e he).2.2
  · change row.lastCommittedRow ≤ b.rowNumber
    omega
  · intro hend
    change row.lastCommittedRow = b.rowNumber at hend
    omega
  · intro hsome
    exact hsince.total hsome

/-- The commit of `PROCESSING` at the begin of `_run_import`. -/
theorem Report.start (h : Report files db row) (hrow : db.job job.id = some row)
    (hsince : Since job row) (startedAt : Option ℕ) :
    let current := { job with startedAt := startedAt, status := .PROCESSING }
    ∃ row', ((Session.mk current job [] false).commitDb db).job job.id = some row' ∧
      Report files ((Session.mk current job [] false).commitDb db) row' ∧ Since row row' ∧
      Since current row' := by
  intro current
  have hkept : (ImportJob.flush job current row).totalRows = row.totalRows := flushed_self _ _
  have hstatus : (ImportJob.flush job current row).status = .COMPLETED →
      row.totalRows.isSome = true := by
    intro hst
    refine h.completed ?_
    simp only [ImportJob.flush, flushed, current] at hst
    by_cases heq : ImportStatus.PROCESSING = job.status
    · rw [if_pos heq] at hst
      exact hst
    · rw [if_neg heq] at hst
      cases hst
  obtain ⟨h1, h2, h3⟩ := h.assign job current hrow ⟨rfl, rfl, rfl, rfl, rfl, rfl⟩ rfl (.inl hkept)
    (fun _ => hkept) (by rw [hkept]; exact hstatus)
  have hnow := Since.trans hsince h3
  exact ⟨_, h1, h2, h3, hnow.storagePath, hnow.behind, hnow.agrees, hnow.total⟩

/-- The commit of `COMPLETED` behind the last row. -/
theorem Report.finish {csv : Csv} (h : Report files db row) (hrow : db.job job.id = some row)
    (hsince : Since job row) (hcsv : files job.storagePath = some csv)
    (hlen : csv.rows.length ≤ job.lastCommittedRow) (time : ℕ) :
    let current := job.completed csv.rows.length time
    ∃ row', ((Session.mk current job [] false).commitDb db).job job.id = some row' ∧
      Report files ((Session.mk current job [] false).commitDb db) row' ∧ Since row row' ∧
      row'.totalRows.isSome = true := by
  intro current
  have hcsv' : files row.storagePath = some csv := by rw [hsince.storagePath]; exact hcsv
  have hend : row.lastCommittedRow = csv.rows.length :=
    Nat.le_antisymm (h.bound csv hcsv') (hlen.trans hsince.behind)
  -- the total is written unless it is there already
  have hnew : (ImportJob.flush job current row).totalRows = some csv.rows.length := by
    change (if some csv.rows.length = job.totalRows then row.totalRows
      else some csv.rows.length) = _
    by_cases heq : some csv.rows.length = job.totalRows
    · rw [if_pos heq, hsince.total (by rw [← heq]; rfl), ← heq]
    · rw [if_neg heq]
  have hkeep : row.totalRows.isSome = true →
      (ImportJob.flush job current row).totalRows = row.totalRows := by
    intro hsome
    rw [hnew, (h.total hsome csv hcsv').1]
  have htotal : ∀ csv', files row.storagePath = some csv' →
      (ImportJob.flush job current row).totalRows = some csv'.rows.length ∧
        row.lastCommittedRow = csv'.rows.length := by
    intro csv' hcsv''
    rw [hcsv'] at hcsv''
    cases hcsv''
    exact ⟨hnew, hend⟩
  obtain ⟨h1, h2, h3⟩ := h.assign job current hrow ⟨rfl, rfl, rfl, rfl, rfl, rfl⟩ rfl (.inr htotal)
    hkeep (fun _ => by rw [hnew]; rfl)
  exact ⟨_, h1, h2, h3, by rw [hnew]; rfl⟩

/-- The commit of `FAILED` for a file without the required columns. -/
theorem Report.reject (h : Report files db row) (hrow : db.job job.id = some row)
    (hst : job.status = .PROCESSING) (csv : Csv) (time : ℕ) :
    let current := job.rejected py csv time
    ∃ row', ((Session.mk current job [] false).commitDb db).job job.id = some row' ∧
      Report files ((Session.mk current job [] false).commitDb db) row' ∧ Since row row' := by
  intro current
  have hkept : (ImportJob.flush job current row).totalRows = row.totalRows := flushed_self _ _
  have hfailed : (ImportJob.flush job current row).status = .FAILED := by
    simp only [ImportJob.flush, current, ImportJob.rejected, flushed, hst]
    rfl
  obtain ⟨h1, h2, h3⟩ := h.assign job current hrow ⟨rfl, rfl, rfl, rfl, rfl, rfl⟩ rfl (.inl hkept)
    (fun _ => hkept) (fun hst => by rw [hfailed] at hst; cases hst)
  exact ⟨_, h1, h2, h3⟩

/-- A commit of an attempt that does not fail. -/
theorem overlap_commit {a : Phase} {s : Session} {cont : ImportJob → Phase}
    (hc : Commits py files t a s cont) (hrow : db.job t.importJobId = some row)
    (h : Report files db row) (ha : OverlapAt files row a) (hok : ∀ s e, a ≠ .handle s e)
    (hfresh : .updateProgress ∈ s.work → row.lastCommittedRow = s.saved.lastCommittedRow) :
    ∃ row', (s.commitDb db).job t.importJobId = some row' ∧ Report files (s.commitDb db) row' ∧
      Since row row' ∧ OverlapAt files row' (cont (s.commitJob db)) := by
  cases hc with
  | giveUp hid => exact ha.elim
  | @start job startedAt hid =>
    rw [← hid] at hrow ⊢
    obtain ⟨row', h1, h2, h3, h4⟩ := h.start hrow ha startedAt
    exact ⟨row', h1, h2, h3, h4, rfl⟩
  | @batch job base csv b hid hcsv hcol hb hlt hfits =>
    obtain ⟨hsince, hst⟩ := ha
    rw [← hid] at hrow ⊢
    obtain ⟨row', h1, h2, h3, h4⟩ := h.batch hrow hsince hst hcsv hb hlt
      (hfresh (by simp [Batch.work]))
    refine ⟨row', h1, h2, h3, h4, ?_⟩
    simp only [Session.commitJob, Batch.work, Session.transaction_batch]
    exact hst
  | @finish job base time csv hid hcsv hcol hlen hend =>
    obtain ⟨hsince, -⟩ := ha
    rw [← hid] at hrow ⊢
    obtain ⟨row', h1, h2, h3, htotal⟩ := h.finish hrow hsince hcsv hlen time
    exact ⟨row', h1, h2, h3, fun _ _ _ => htotal⟩
  | @reject job base time csv hid hcsv hcol =>
    obtain ⟨hsince, hst⟩ := ha
    rw [← hid] at hrow ⊢
    obtain ⟨row', h1, h2, h3⟩ := h.reject hrow hst csv time
    refine ⟨row', h1, h2, h3, ?_⟩
    intro csv' hcsv' hcol'
    rw [h3.storagePath, hsince.storagePath, hcsv] at hcsv'
    cases hcsv'
    exact absurd hcol' hcol
  | handle hid => exact absurd rfl (hok _ _)

/-- Such a commit does not touch the report of another job. -/
theorem overlap_frame {a : Phase} {s : Session} {cont : ImportJob → Phase}
    (hc : Commits py files t a s cont) (hok : ∀ s e, a ≠ .handle s e)
    (hne : row.id ≠ t.importJobId) (h : Report files db row) :
    Report files (s.commitDb db) row := by
  have hassign : ∀ current saved : ImportJob,
      Report files ((Session.mk current saved [] false).commitDb db) row := fun current saved =>
    ⟨h.sum, h.bound, h.successful, h.total, h.completed, h.retry, h.nodup, h.error_le⟩
  cases hc with
  | giveUp hid => exact hassign _ _
  | start hid => exact hassign _ _
  | @batch job base csv b hid hcsv hcol hb hlt hfits =>
    obtain ⟨-, -, hother⟩ := transactionsOf_inserted db b.errors hb.job_valid
    have hids : ∀ e ∈ b.errors, e.importJobId ≠ row.id := by
      intro e he heq
      rw [(hb.job_errors e he).1, hid] at heq
      exact hne heq.symm
    simp only [Session.commitDb, Batch.work, Session.transaction_batch]
    refine ⟨h.sum, h.bound, ?_, h.total, h.completed, h.retry, ?_, ?_⟩
    · rw [h.successful]
      exact (hother row.id (by rw [hid]; exact hne)).symm
    · have hnil : (b.errors.filter fun e => e.importJobId = row.id) = [] :=
        List.filter_eq_nil_iff.mpr fun e he hdec => hids e he (of_decide_eq_true hdec)
      change (((db.errors ++ b.errors).filter fun e => e.importJobId = row.id).map _).Nodup
      rw [List.filter_append, hnil, List.append_nil]
      exact h.nodup
    · intro e he heid
      rcases List.mem_append.mp he with he | he
      · exact h.error_le e he heid
      · exact absurd heid (hids e he)
  | finish hid hcsv hcol hlen hend => exact hassign _ _
  | reject hid hcsv hcol => exact hassign _ _
  | handle hid => exact absurd rfl (hok _ _)

/-! ### All runs -/

/-- A move of an attempt keeps what it knows, or is a commit. -/
theorem OverlapAt.move {o : WorkerOp} {f : Fault} {w w' : World} {a a' : Phase}
    (ha : OverlapAt files row a) (hmove : Move py files t o f w a w' a')
    (hrow : w.db.job t.importJobId = some row) (h : Report files w.db row) :
    (w'.db = w.db ∧ OverlapAt files row a') ∨
    (∃ s cont, o = .commit s ∧ Commits py files t a s cont ∧ w'.db = s.commitDb w.db ∧
      (a' = cont (s.commitJob w.db) ∨ ∃ e, a' = .ended (.error e))) := by
  cases hmove with
  | load =>
    refine .inl ⟨rfl, ?_⟩
    rw [hrow]
    simp only [Phase.loaded]
    by_cases hdone : row.status = .COMPLETED
    · rw [if_pos hdone]
      exact fun _ _ _ => h.completed hdone
    · rw [if_neg hdone, if_neg (Nat.not_le.mpr h.retry)]
      exact Since.refl row
  | stay hdb hstream hended => exact .inl ⟨hdb, ha⟩
  | fail hr =>
    refine .inl ⟨rfl, ?_⟩
    cases hr <;> trivial
  | @commit s _ _ _ cont e hc =>
    cases f with
    | ok => exact .inr ⟨s, cont, rfl, hc, rfl, .inl rfl⟩
    | rejected => exact .inl ⟨rfl, trivial⟩
    | failed => exact .inl ⟨rfl, trivial⟩
    | lost => exact .inr ⟨s, cont, rfl, hc, rfl, .inr ⟨e, rfl⟩⟩
  | ack =>
    cases f with
    | ok => exact .inl ⟨rfl, ha⟩
    | rejected => exact .inl ⟨rfl, trivial⟩
    | failed => exact .inl ⟨rfl, trivial⟩
    | lost => exact .inl ⟨rfl, trivial⟩
  | ackTry hid =>
    cases f with
    | ok => exact .inl ⟨rfl, ha⟩
    | rejected => exact .inl ⟨rfl, trivial⟩
    | failed => exact .inl ⟨rfl, trivial⟩
    | lost => exact .inl ⟨rfl, trivial⟩

/-- The outline of the reports. -/
def overlapOutline (files : String → Option Csv) : Outline World Attempt Phase where
  Inv w := Populated w ∧ ∀ id row, w.db.job id = some row → Report files w.db row
  Loc t a w := ∃ row, w.db.job t.importJobId = some row ∧ OverlapAt files row a
  Guar _ _ := True

/-- The events of a run without stale batches in which no attempt crashes or raises. -/
def Harmless (py : Python) (files : String → Option Csv) (c : WorkerPool) (e : WorkerEvent) : Prop :=
  NoStaleBatch c e ∧
  ∀ d, (workers py files).next c e = some d → System.Healthy (fun r => r = .ok ()) d

/-- In such a run no attempt gets to the phase in which it has raised. -/
theorem Harmless.ne_error {c : WorkerPool} {i : ℕ} {f : Fault} {o : WorkerOp}
    {k : o.Ans → Program WorkerOp WorkerOp.Ans (Except Exn Unit)} {a' : Phase}
    (h : Harmless py files c (.run i f)) (hi : c.procs[i]? = some ⟨t, some (.call o k)⟩)
    (hk : (k (WorkerOp.exec files o f c.world).2).Follows (WorkerOp.exec files) (Move py files t)
      (fun r a => a = .ended r) a') (e : Exn) : a' ≠ .ended (.error e) := by
  rintro rfl
  have hdone := done_of_ended hk c.world
  obtain ⟨hlt, -⟩ := List.getElem?_eq_some_iff.mp hi
  have hnext : (workers py files).next c (.run i f) =
      some ⟨(WorkerOp.exec files o f c.world).1,
        c.procs.set i ⟨t, some (k (WorkerOp.exec files o f c.world).2)⟩⟩ := by
    simp only [System.next, hi]
    rfl
  rcases h.2 _ hnext _ (List.mem_set hlt _) with hlive | ⟨r, hr, hgood⟩
  · rw [hdone] at hlive
    cases hlive
  · rw [hdone] at hr
    cases hr
    cases hgood

theorem overlapOutline_sound (py : Python) (files : String → Option Csv) :
    (overlapOutline files).Sound (workers py files) (Harmless py files) (Move py files)
      fun _ r a => a = .ended r := by
  refine workers_sound ?_ ?_
  · intro c ph i t o k f a' hold hC hi hmove hk
    obtain ⟨hpop, hinv⟩ := hold.inv
    obtain ⟨row, hrow, ha⟩ := hold.loc i t _ hi
    have hpop' := hmove.populated hpop
    rcases ha.move hmove hrow (hinv _ row hrow) with ⟨hdb, ha'⟩ | ⟨s, cont, rfl, hc, hdb, hnext⟩
    · refine ⟨⟨hpop', ?_⟩, ⟨row, ?_, ha'⟩, trivial, fun j t' p' _ hj => ?_⟩
      · rw [hdb]
        exact hinv
      · rw [hdb]
        exact hrow
      · simp only [overlapOutline, hdb]
        exact hold.loc j t' p' hj
    · -- the handler would raise after its commit
      have hhandle : ∀ s e, ph i ≠ .handle s e := by
        intro s' e heq
        rw [heq] at hc
        cases hc with
        | handle hid =>
          rcases hnext with hended | ⟨e', hended⟩
          · exact hC.ne_error hi hk _ hended
          · exact hC.ne_error hi hk _ hended
      obtain ⟨-, hid, -⟩ := hc.holding
      have hfresh : .updateProgress ∈ s.work → row.lastCommittedRow = s.saved.lastCommittedRow :=
        fun hmem => hC.1 _ (Option.mem_def.mpr hi) s k rfl hmem row (by rw [hid]; exact hrow)
      obtain ⟨row', hrow', hrep, hsince, hnew⟩ :=
        overlap_commit hc hrow (hinv _ row hrow) ha hhandle hfresh
      have hne : ∀ id, id ≠ t.importJobId → (s.commitDb c.world.db).job id = c.world.db.job id :=
        fun id hid' => Session.job_commitDb_of_ne s (by rw [hid]; exact hid')
      simp only [overlapOutline, hdb]
      refine ⟨⟨hpop', fun id r hr => ?_⟩, ⟨row', hrow', ?_⟩, trivial, fun j t' p' _ hj => ?_⟩
      · by_cases hid' : id = t.importJobId
        · subst hid'
          rw [hrow'] at hr
          cases hr
          exact hrep
        · rw [hne id hid'] at hr
          refine overlap_frame hc hhandle ?_ (hinv id r hr)
          rw [Db.id_of_job hr]
          exact hid'
      · rcases hnext with rfl | ⟨e, rfl⟩
        · exact hnew
        · trivial
      · obtain ⟨r, hr, hat⟩ := hold.loc j t' p' hj
        by_cases hid' : t'.importJobId = t.importJobId
        · rw [hid'] at hr ⊢
          rw [hrow] at hr
          cases hr
          exact ⟨row', hrow', hat.mono hsince⟩
        · exact ⟨r, (hne _ hid').trans hr, hat⟩
  · intro c ph x w r hold _ hx
    obtain ⟨hpop, hinv⟩ := hold.inv
    obtain ⟨hpop', hnew⟩ := Arrival.populated hx hpop
    have hstart : ∀ t p, r = some (t, p) → (overlapOutline files).Loc t .unread w := by
      intro t p hr
      obtain ⟨row, hrow⟩ := hnew t p hr
      exact ⟨row, hrow, trivial⟩
    rcases Arrival.apply_cases hx with ⟨id, client, name, path, key, -, hunused, rfl, rfl⟩ |
      ⟨id, -, -, -, rfl, rfl⟩ | ⟨entry, batchSize, stream, id, -, -, rfl, rfl⟩
    · refine ⟨⟨hpop', fun id' row hrow => ?_⟩, trivial, fun i t p hi => ?_, hstart⟩
      · rcases Db.job_append_cases hrow with hrow | rfl
        · have h := hinv id' row hrow
          exact ⟨h.sum, h.bound, h.successful, h.total, h.completed, h.retry, h.nodup, h.error_le⟩
        · exact .fresh rfl rfl rfl rfl rfl nofun
            (World.unused_iff.mp hunused).2.1 (World.unused_iff.mp hunused).2.2
      · obtain ⟨row, hrow, hat⟩ := hold.loc i t p hi
        exact ⟨row, Db.job_append_of_some hrow, hat⟩
    · exact ⟨⟨hpop', hinv⟩, trivial, hold.loc, hstart⟩
    · exact ⟨⟨hpop', hinv⟩, trivial, hold.loc, hstart⟩

/-- A state in which no job has been processed or reported on. -/
structure Unreported (db : Db) : Prop extends Unstarted db where
  unread : ∀ id job, db.job id = some job → job.totalRows = none ∧ job.retryCount = 0
  errors : ∀ id job, db.job id = some job → ∀ e ∈ db.errors, e.importJobId ≠ id

theorem Unreported.report (h : Unreported db) {id : Uuid} (hjob : db.job id = some job) :
    Report files db job := by
  obtain ⟨h1, -, h3, h4, h5⟩ := h.jobs id job hjob
  obtain ⟨h6, h7⟩ := h.unread id job hjob
  have hid := Db.id_of_job hjob
  refine .fresh h3 h4 h5 h6 h7 (by rw [h1]; nofun) ?_ ?_
  · rw [hid]
    exact h.transactions id job hjob
  · rw [hid]
    exact h.errors id job hjob

/-- Overlapping attempts at one job are harmless to its report if no batch is committed from a stale
copy: once all attempts have returned normally, the counters agree with the transactions table and
the file, and no row of the file has two records in `import_errors`. -/
theorem overlapping_attempts_harmless (py : Python) (files : String → Option Csv) {w : World}
    (hw : Unreported w.db) (hpop : Populated w) {d : WorkerPool}
    (hd : (workers py files).Reaches NoStaleBatch ⟨w, []⟩ d)
    (hreturned : ∀ p ∈ d.procs, p.result = some (.ok ())) {id : Uuid} {job : ImportJob} {csv : Csv}
    (hjob : d.world.db.job id = some job) (hcsv : files job.storagePath = some csv)
    (hcol : csv.missingColumns = []) (hrun : ∃ p ∈ d.procs, p.tag.importJobId = id) :
    job.successfulRows = transactionsOf d.world.db id ∧
    job.successfulRows + job.failedRows = csv.rows.length ∧
    job.totalRows = some csv.rows.length ∧
    ∀ n, d.world.db.errors.countP (fun e => e.importJobId = id ∧ e.rowNumber = n) ≤ 1 := by
  have hhealthy : System.Healthy (fun r => r = .ok ()) d :=
    fun p hp => .inr ⟨_, hreturned p hp, rfl⟩
  have hd' := hd.strengthen_of_end hhealthy fun c e d hn h => h.of_next hn
  obtain ⟨⟨ph, hold⟩, -⟩ := workers_reaches (overlapOutline_sound py files)
    ⟨hpop, fun id row hrow => hw.report hrow⟩ hd'
  have h : Report files d.world.db job := hold.inv.2 id job hjob
  have hid := Db.id_of_job hjob
  -- some attempt has returned, so the total is there
  have hsome : job.totalRows.isSome = true := by
    obtain ⟨p, hp, rfl⟩ := hrun
    obtain ⟨i, hi⟩ := List.mem_iff_getElem?.mp hp
    obtain ⟨hended, row, hrow, hat⟩ := hold.of_result hi (hreturned p hp)
    rw [hjob] at hrow
    cases hrow
    rw [hended] at hat
    exact hat csv hcsv hcol
  obtain ⟨htotal, hend⟩ := h.total hsome csv hcsv
  refine ⟨?_, h.sum.trans hend, htotal, fun n => ?_⟩
  · rw [← hid]
    exact h.successful
  · have hcount := List.nodup_iff_count_le_one.mp h.nodup n
    rw [List.count_eq_countP, List.countP_map, List.countP_filter, hid] at hcount
    refine le_of_eq_of_le (List.countP_congr fun e _ => ?_) hcount
    simp only [decide_eq_true_eq, Function.comp_apply, Bool.and_eq_true, beq_iff_eq]
    exact and_comm

/-- A test for `NoStaleBatch`. -/
def NoStaleBatch.test (c : WorkerPool) : WorkerEvent → Bool
  | .run i _ =>
    match c.procs[i]? with
    | some ⟨_, some (.call (.commit s) _)⟩ =>
      decide (.updateProgress ∉ s.work) ||
        c.world.db.jobs.all fun row => decide (row.lastCommittedRow = s.saved.lastCommittedRow)
    | _ => true
  | _ => true

theorem NoStaleBatch.of_test {c : WorkerPool} {e : WorkerEvent}
    (h : NoStaleBatch.test c e = true) : NoStaleBatch c e := by
  cases e with
  | run i f =>
    rintro ⟨t, prog⟩ hp s k rfl hmem row hrow
    rw [NoStaleBatch.test, Option.mem_def.mp hp] at h
    rcases Bool.or_eq_true_iff.mp h with h | h
    · exact absurd hmem (of_decide_eq_true h)
    · exact of_decide_eq_true (List.all_eq_true.mp h row (List.mem_of_find?_eq_some hrow))
  | crash i => trivial
  | arrive x => trivial

/-- The entry of the sample job is claimed by a second worker, which loads the job before the first
one has completed it. -/
def sampleOverlap : List WorkerEvent :=
  [.arrive (.deliver 0 1), .arrive (.deliver 0 1)] ++ runs 0 13 ++ runs 1 1 ++ runs 0 4 ++ runs 1 8

theorem sampleOverlap_returned :
    ((workers .ascii (sampleFiles sampleCsv)).perform NoStaleBatch.test ⟨sampleWorld, []⟩
      sampleOverlap).bind (fun d => (d.world.db.job sampleId).map fun job =>
        (d.procs.map Proc.result, d.procs.map (fun p => p.tag.importJobId), job.storagePath)) =
      some ([some (.ok ()), some (.ok ())], [sampleId, sampleId], samplePath) := by
  decide +kernel

theorem Unreported.sampleWorld : Unreported sampleWorld.db := by
  refine ⟨Unstarted.sampleWorld, fun id job hjob => ?_, fun id job _ e he => by cases he⟩
  rw [List.mem_singleton.mp (List.mem_of_find?_eq_some hjob)]
  exact ⟨rfl, rfl⟩

theorem Populated.sampleWorld : Populated sampleWorld := by
  intro x hx
  rw [List.mem_singleton.mp hx]
  exact ⟨sampleJob, rfl⟩

theorem sample_overlap_harmless :
    ∃ (d : WorkerPool) (job : ImportJob),
      (workers .ascii (sampleFiles sampleCsv)).Reaches NoStaleBatch ⟨sampleWorld, []⟩ d ∧
      d.procs.length = 2 ∧ (∀ p ∈ d.procs, p.result = some (.ok ())) ∧
      d.world.db.job sampleId = some job ∧
      job.successfulRows = transactionsOf d.world.db sampleId ∧
      job.successfulRows + job.failedRows = 2 ∧ job.totalRows = some 2 := by
  obtain ⟨d, hd, hout⟩ := Option.bind_eq_some_iff.mp sampleOverlap_returned
  obtain ⟨job, hjob, heq⟩ := Option.map_eq_some_iff.mp hout
  simp only [Prod.mk.injEq] at heq
  obtain ⟨hresults, htags, hpath⟩ := heq
  have hd' : (workers .ascii (sampleFiles sampleCsv)).Reaches NoStaleBatch ⟨sampleWorld, []⟩ d :=
    System.reaches_of_perform (fun _ _ => NoStaleBatch.of_test) hd
  have hreturned : ∀ p ∈ d.procs, p.result = some (.ok ()) := by
    intro p hp
    have hmem : p.result ∈ d.procs.map Proc.result := List.mem_map_of_mem hp
    rw [hresults] at hmem
    simpa using hmem
  have hrun : ∃ p ∈ d.procs, p.tag.importJobId = sampleId := by
    have hmem : sampleId ∈ d.procs.map fun p => p.tag.importJobId := by
      rw [htags]
      exact List.mem_cons_self
    obtain ⟨p, hp, hid⟩ := List.mem_map.mp hmem
    exact ⟨p, hp, hid⟩
  have hlen : d.procs.length = 2 := by
    rw [← List.length_map (f := Proc.result), hresults]
    rfl
  obtain ⟨h1, h2, h3, -⟩ := overlapping_attempts_harmless .ascii (sampleFiles sampleCsv)
    Unreported.sampleWorld Populated.sampleWorld hd' hreturned hjob
    (by rw [hpath]; rfl : sampleFiles sampleCsv job.storagePath = some sampleCsv) (by decide) hrun
  exact ⟨d, job, hd', hlen, hreturned, hjob, h1, h2, h3⟩

/-- A stale copy spoils the report.  Both workers load the job before either commits a batch; all
calls return normally, and the job reports no successful row while its transaction is in the table
and its second row has two records in `import_errors`. -/
theorem stale_batches_spoil_report :
    ∃ (d : WorkerPool) (job : ImportJob),
      (workers .ascii (sampleFiles sampleCsv)).Reaches (fun _ _ => True) ⟨sampleWorld, []⟩ d ∧
      (d.procs.map Proc.result = [some (.ok ()), some (.ok ())]) ∧
      d.world.db.job sampleId = some job ∧ job.successfulRows = 0 ∧
      transactionsOf d.world.db sampleId = 1 ∧
      d.world.db.errors.countP (fun e => e.importJobId = sampleId ∧ e.rowNumber = 2) = 2 := by
  have hrun : ((workers .ascii (sampleFiles sampleCsv)).perform (fun _ _ => true) ⟨sampleWorld, []⟩
      ([.arrive (.deliver 0 1), .arrive (.deliver 0 1), .run 1 .ok] ++ runs 0 17 ++
        runs 1 16)).bind (fun d => (d.world.db.job sampleId).map fun job =>
          (d.procs.map Proc.result, job.successfulRows, transactionsOf d.world.db sampleId,
            d.world.db.errors.countP fun e => e.importJobId = sampleId ∧ e.rowNumber = 2)) =
      some ([some (.ok ()), some (.ok ())], 0, 1, 2) := by decide +kernel
  obtain ⟨d, hd, hout⟩ := Option.bind_eq_some_iff.mp hrun
  obtain ⟨job, hjob, heq⟩ := Option.map_eq_some_iff.mp hout
  simp only [Prod.mk.injEq] at heq
  exact ⟨d, job, System.reaches_of_perform (fun _ _ _ => trivial) hd, heq.1, hjob, heq.2⟩

end TransactionPlatform
