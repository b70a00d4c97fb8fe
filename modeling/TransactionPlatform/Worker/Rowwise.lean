import TransactionPlatform.Worker.ErrorReport

/-!
# An import, one row at a time

What an import is for, said without batches: the row numbered `i + 1` adds the transaction
`insertedRow` to the table, or the record `reportedRow` to the report, or neither, and which of
these depends on the rows before it and on the table the import found.  `batched_import_eq_rowwise`
shows that an uninterrupted `_run_import` leaves exactly this, with any batch size.
-/

namespace TransactionPlatform

open Interleaved KeyedTable

/-- The transaction that the row numbered `i + 1` adds to the table: the row is accepted, and its id
is neither in the table the import found nor in an accepted row before it. -/
def insertedRow (py : Python) (jobId : Uuid) (table₀ : List Transaction) (rows : List Row) (i : ℕ) :
    Option Transaction :=
  (rows[i]?.bind (acceptedRow py jobId)).filter fun x =>
    decide (¬ HasKey Transaction.transactionId table₀ x.transactionId ∧
      ¬ HasKey Transaction.transactionId (accepted py jobId rows 0 i) x.transactionId)

variable {py : Python} {files : String → Option Csv} {jobId : Uuid} {rows : List Row}
variable {table₀ : List Transaction}

/-- Inserting the accepted rows is inserting them one by one. -/
theorem insertAbsent_accepted {n : ℕ} (hn : n ≤ rows.length) :
    insertAbsent Transaction.transactionId table₀ (accepted py jobId rows 0 n) =
      table₀ ++ (List.range n).filterMap (insertedRow py jobId table₀ rows) := by
  induction n with
  | zero => rw [accepted_self, insertAbsent_nil, List.range_zero, List.filterMap_nil,
      List.append_nil]
  | succ n ih =>
    obtain ⟨row, hrow⟩ : ∃ row, rows[n]? = some row := ⟨_, List.getElem?_eq_getElem hn⟩
    have hprev := ih (Nat.le_of_succ_le hn)
    rw [accepted_succ (Nat.zero_le n) hrow, insertAbsent_append, List.range_succ,
      List.filterMap_append, ← List.append_assoc, ← hprev]
    have hstep : insertedRow py jobId table₀ rows n = (acceptedRow py jobId row).filter fun x =>
        decide (¬ HasKey Transaction.transactionId table₀ x.transactionId ∧
          ¬ HasKey Transaction.transactionId (accepted py jobId rows 0 n) x.transactionId) := by
      rw [insertedRow, hrow, Option.bind_some]
    cases hacc : acceptedRow py jobId row with
    | none =>
      rw [hacc, Option.filter_none] at hstep
      simp [hstep]
    | some x =>
      rw [hacc, Option.filter_some] at hstep
      rw [Option.toList_some, insertAbsent_cons, insertAbsent_nil, insertRow,
        if_congr hasKey_insertAbsent_iff rfl rfl]
      by_cases hkey : HasKey Transaction.transactionId table₀ x.transactionId ∨
          HasKey Transaction.transactionId (accepted py jobId rows 0 n) x.transactionId
      · have hold := not_and_or.mpr (hkey.imp not_not.mpr not_not.mpr)
        rw [decide_eq_false hold] at hstep
        simp [hstep, if_pos hkey]
      · rw [decide_eq_true (not_or.mp hkey)] at hstep
        simp [hstep, if_neg hkey]

/-- The report of a whole file. -/
theorem reported_eq_filterMap (n : ℕ) :
    reported py jobId rows 0 0 n = (List.range n).filterMap (reportedRow py jobId rows 0) := by
  rw [reported, perRow, Nat.sub_zero, ← List.range_eq_range']

/-- An uninterrupted `_run_import` ends normally, with a completed job. -/
theorem runImport_uninterrupted {job₀ : ImportJob} {csv : Csv} {w : World}
    (hjob : w.db.job job₀.id = some job₀) (hst : job₀.status ≠ .COMPLETED)
    (hretry : job₀.retryCount < maxRetries) (hcsv : files job₀.storagePath = some csv)
    (himport : ImportableFrom py csv job₀) (batchSize : ℕ) :
    let r := (runImport py batchSize (.opened job₀)).runAll (WorkerOp.exec files) .ok w
    r.2.1 = .ok () ∧ ∃ job, r.1.db.job job₀.id = some job ∧ job.status = .COMPLETED ∧
      Checkpoint py csv w.db.transactions job₀ r.1.db.transactions job ∧
      Recorded py csv.rows job₀ w.db.errors r.1.db job := by
  intro r
  have hexact : Exact ⟨job₀.id, 0, batchSize⟩ w.db (.start job₀) := by
    rintro job ⟨⟩
    exact hjob
  have hstart : SmoothReport py csv w.db job₀ ⟨job₀.id, 0, batchSize⟩ w.db (.start job₀) :=
    .start py hjob hst hexact trivial rfl (unsplit_start py csv.rows job₀)
  have hfollows : (runImport py batchSize).Runs py files ⟨job₀.id, 0, batchSize⟩
      (Imported ⟨job₀.id, 0, batchSize⟩) (.opened job₀) (.start job₀) := runs_runImport rfl
  obtain ⟨a, ha, hpost⟩ := Program.Follows.runAll hfollows (f := .ok)
    (J := fun w' a => SmoothReport py csv w.db job₀ ⟨job₀.id, 0, batchSize⟩ w'.db a) hstart
    fun o w' a w'' a' h hmove => h.move rfl hst hretry hcsv himport hmove
  change Imported _ r.2.1 r.2.2 a at hpost
  cases hres : r.2.1 with
  | ok _ =>
    rw [hres] at hpost
    obtain ⟨job, -, rfl, -⟩ := hpost
    have hrow : r.1.db.job job₀.id = some job := ha.exact job rfl
    exact ⟨rfl, job, hrow, ha.smooth, ha.checkpoint job hrow, ha.recorded job hrow⟩
  | error e =>
    -- nothing has been raised
    rw [hres] at hpost
    obtain ⟨rfl, -⟩ := hpost
    have hsmooth := ha.smooth
    unfold Phase.raised at hsmooth
    cases hbroken : r.2.2.broken with
    | true =>
      rw [hbroken] at hsmooth
      cases hsmooth.1
    | false =>
      rw [hbroken] at hsmooth
      exact hsmooth.elim

/-- An uninterrupted `_run_import` of a fresh job, in which no statement fails, not even for the
values of a row, ends normally with the status `COMPLETED` and with the transactions, the records
and the counters of the row-by-row import, whatever the batch size. -/
theorem batched_import_eq_rowwise (py : Python) (files : String → Option Csv) {w : World} {csv : Csv}
    (id clientId : Uuid) (originalFilename storagePath idempotencyKey : String)
    (hjob : w.db.job id =
      some (.queued id clientId originalFilename storagePath idempotencyKey))
    (hcsv : files storagePath = some csv) (hcol : csv.missingColumns = [])
    (hend : csv.raises = false)
    (hraise : ∀ (i : ℕ) (row : Row) (e : String), csv.rows[i]? = some row →
      py.validateRow row (i + 1) ≠ .raised e)
    (hfits : ∀ i < csv.rows.length, RowFits py id csv.rows 0 i) (batchSize : ℕ) :
    let r := (runImport py batchSize
      (.opened (.queued id clientId originalFilename storagePath idempotencyKey))).runAll
        (WorkerOp.exec files) .ok w
    let inserted := (List.range csv.rows.length).filterMap
      (insertedRow py id w.db.transactions csv.rows)
    r.2.1 = .ok () ∧
    r.1.db.transactions = w.db.transactions ++ inserted ∧
    r.1.db.errors = w.db.errors ++
      (List.range csv.rows.length).filterMap (reportedRow py id csv.rows 0) ∧
    ∃ job, r.1.db.job id = some job ∧ job.status = .COMPLETED ∧
      job.successfulRows = inserted.length ∧
      job.failedRows = csv.rows.length - inserted.length ∧
      job.processedRows = csv.rows.length ∧ job.lastCommittedRow = csv.rows.length ∧
      job.totalRows = some csv.rows.length := by
  intro r inserted
  let job₀ : ImportJob := .queued id clientId originalFilename storagePath idempotencyKey
  have hst₀ : job₀.status ≠ .COMPLETED := nofun
  have hretry₀ : job₀.retryCount < maxRetries := Nat.zero_lt_succ 2
  have hpath₀ : files job₀.storagePath = some csv := hcsv
  obtain ⟨hok, job, hrow, hst, hcheck, hrec⟩ :
      r.2.1 = .ok () ∧ ∃ job, r.1.db.job job₀.id = some job ∧ job.status = .COMPLETED ∧
        Checkpoint py csv w.db.transactions job₀ r.1.db.transactions job ∧
        Recorded py csv.rows job₀ w.db.errors r.1.db job :=
    runImport_uninterrupted hjob hst₀ hretry₀ hpath₀
      ⟨hcol, hend, fun i row e _ => hraise i row e, fun i _ => hfits i⟩ batchSize
  obtain ⟨htotal, hlen, -⟩ := hcheck.completed hst
  have hlast : job.lastCommittedRow = csv.rows.length := by
    rcases hcheck.bound with hb | hb
    · have hzero : job.lastCommittedRow = 0 := hb
      omega
    · omega
  have htable : r.1.db.transactions = w.db.transactions ++ inserted := by
    rw [hcheck.table_eq, hlast]
    exact insertAbsent_accepted le_rfl
  have hcount : r.1.db.transactions.length = w.db.transactions.length + inserted.length := by
    rw [htable, List.length_append]
  have hsucc : job.successfulRows + w.db.transactions.length = 0 + r.1.db.transactions.length :=
    hcheck.successful
  have hfail : job.failedRows + r.1.db.transactions.length =
      0 + w.db.transactions.length + (job.lastCommittedRow - 0) := hcheck.failed
  have hproc : job.processedRows = if job.lastCommittedRow = 0 then 0 else job.lastCommittedRow :=
    hcheck.processed
  refine ⟨hok, htable, ?_, job, hrow, hst, by omega, by omega, ?_, hlast, htotal⟩
  · unfold Recorded at hrec
    rw [hlast] at hrec
    rw [← reported_eq_filterMap]
    exact hrec
  · rw [hproc, hlast]
    by_cases hempty : csv.rows.length = 0
    · rw [if_pos hempty, hempty]
    · rw [if_neg hempty]

/-- Whether `validate_row` returns. -/
def Verdict.returned : Verdict → Bool
  | raised _ => false
  | _ => true

/-- A file with a rejected row and a repeated one, in batches of two rows. -/
theorem sample_import_rowwise :
    ∃ r, r = (runImport .ascii 2
      (.opened (.queued sampleId sampleClient "a.csv" samplePath "k1"))).runAll
        (WorkerOp.exec (sampleFiles sampleRepeated)) .ok sampleWorld ∧
    r.2.1 = .ok () ∧
    r.1.db.transactions =
      [⟨"T1", "A1", .CREDIT, .finite false 1050 (-2), "USD", ⟨2026, 9, 1, 10, 0, 0, 0, some 0⟩,
        some sampleId⟩] ∧
    r.1.db.errors =
      [⟨sampleId, 1, none, "transaction_id is required and must be non-empty"⟩,
        ⟨sampleId, 3, some "T1", "duplicate transaction_id within this file"⟩] := by
  have hrow : sampleWorld.db.job sampleId =
      some (.queued sampleId sampleClient "a.csv" samplePath "k1") := by decide +kernel
  have hcol : sampleRepeated.missingColumns = [] := by decide +kernel
  have hinserted : sampleWorld.db.transactions ++ (List.range sampleRepeated.rows.length).filterMap
      (insertedRow .ascii sampleId sampleWorld.db.transactions sampleRepeated.rows) =
      [⟨"T1", "A1", .CREDIT, .finite false 1050 (-2), "USD", ⟨2026, 9, 1, 10, 0, 0, 0, some 0⟩,
        some sampleId⟩] := by decide +kernel
  have hreported : sampleWorld.db.errors ++ (List.range sampleRepeated.rows.length).filterMap
      (reportedRow .ascii sampleId sampleRepeated.rows 0) =
      [⟨sampleId, 1, none, "transaction_id is required and must be non-empty"⟩,
        ⟨sampleId, 3, some "T1", "duplicate transaction_id within this file"⟩] := by decide +kernel
  have hreturned : ∀ row ∈ sampleRepeated.rows, (Python.ascii.validateRow row 0).returned = true := by
    decide +kernel
  obtain ⟨hok, htable, herrors, -⟩ := batched_import_eq_rowwise .ascii (sampleFiles sampleRepeated)
    sampleId sampleClient "a.csv" samplePath "k1" hrow (if_pos rfl) hcol rfl
    (fun i row e hi hraised => by
      have hret := hreturned row (List.mem_of_getElem? hi)
      have hraised' : Python.ascii.validateRow row 0 = .raised e := hraised
      rw [hraised'] at hret
      cases hret) (by decide +kernel) 2
  exact ⟨_, rfl, hok, htable.trans hinserted, herrors.trans hreported⟩

end TransactionPlatform
