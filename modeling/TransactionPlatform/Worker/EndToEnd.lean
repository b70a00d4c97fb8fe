import TransactionPlatform.Upload.Orphans
import TransactionPlatform.Worker.CsvFile
import TransactionPlatform.Worker.Rowwise

/-!
# From the upload to the table

`create_import` writes the chunks of a request to a file and commits a row with its path;
`process_entry` finds the row, opens the file and imports its rows.  Here the two meet: whatever
requests the API processes at the same time and whatever fails, the file behind a row is what the
client sent, so that a worker imports the table that the client has written down.
-/

namespace TransactionPlatform

open Interleaved KeyedTable

variable {svc : Service} {r : Request} {py : Python}

/-- A row comes after its file. -/
theorem FileAt.file_of_job {clean job : Prop} {file : Option (List UInt8)} {a : Stage}
    (h : FileAt clean r file job a) (hjob : job) : file = some r.content := by
  cases a with
  | start => exact absurd hjob h.2
  | writing written => exact absurd hjob h.2
  | reject e => exact absurd hjob h.2
  | reselect => exact absurd hjob h.2
  | refresh => exact h.1
  | announce job => exact h.1
  | enqueue job => exact h.1
  | ended x => exact h.1 hjob
  | _ => exact absurd hjob h.2

/-- The file of every request that has inserted its row is complete. -/
def Stored (svc : Service) (w : UploadWorld) : Prop :=
  ∀ r ∈ w.requests, w.HasJob r.jobId → w.fileOf svc r = some r.content

/-- No event breaks the files, a crash of the call that wrote them included. -/
theorem Stored.next {c d : UploadPool} {e : UploadEvent} {ph : ℕ → Stage}
    (hold : UploadsHold svc (fileOutline svc False) c ph) (hlog : Logged c)
    (h : Stored svc c.world) (hn : (uploads svc).next c e = some d) : Stored svc d.world := by
  rcases System.next_cases hn with ⟨i, f, r, o, k, rfl, hi, rfl⟩ | ⟨i, r, o, k, rfl, hi, rfl⟩ |
    ⟨x, w, rfl, hx, rfl⟩ | ⟨x, w, r, p, rfl, hx, rfl⟩
  · obtain ⟨a', hmove, -⟩ := hold.follows i r _ hi f c.world
    intro r' hr' hjob
    have hreq : r' ∈ c.world.requests := by
      rw [← UploadOp.exec_requests o f c.world]
      exact hr'
    by_cases hid : r.jobId = r'.jobId
    · obtain rfl := hlog.request_eq (hlog.mem_requests hi) hreq hid
      exact ((hold.loc i r _ hi).move hmove fun hc => hc.elim).file_of_job hjob
    · obtain ⟨hfile, hjob'⟩ := UploadMove.others hmove hid
      exact hfile.trans (h r' hreq (hjob'.mp hjob))
  · exact h
  · intro r' hr' hjob
    obtain ⟨hfile, hjob'⟩ := UploadArrival.others (r := r') hx
    refine hfile.trans (h r' ?_ (hjob'.mp hjob))
    rw [hlog.requests]
    have hlog' := hlog.next hn
    rw [hlog'.requests] at hr'
    exact hr'
  · intro r' hr' hjob
    obtain ⟨hfile, hjob'⟩ := UploadArrival.others (r := r') hx
    obtain ⟨-, hu, -, rfl⟩ := UploadArrival.request_of_apply hx
    rcases List.mem_append.mp hr' with hr' | hr'
    · exact hfile.trans (h r' hr' (hjob'.mp hjob))
    · -- the new request has no row yet
      rw [List.mem_singleton.mp hr'] at hjob hjob'
      exact absurd (hjob'.mp hjob) (UploadWorld.not_hasJob_of_unused hu)

/-- In every run, the file behind the row of a request holds what the client has sent. -/
theorem file_of_row {w : UploadWorld} (hstart : InStep w) (hlog : w.requests = []) {c : UploadPool}
    (hc : (uploads svc).Reaches (fun _ _ => True) ⟨w, []⟩ c) (hr : r ∈ c.world.requests)
    {job : ImportJob} (hjob : c.world.db.job r.jobId = some job) :
    c.world.files job.storagePath = some r.content := by
  obtain ⟨hc', -⟩ := Logged.reaches hlog hc
  have hinit : Stored svc w := by
    intro r hr
    rw [hlog] at hr
    cases hr
  obtain ⟨-, hstored, ph, hold⟩ := (fileOutline_sound svc False).strengthen
    (Q := fun c => Stored svc c.world)
    (Outline.holds_empty (Paired.start hstart hlog) fun _ => .start) hinit
    (fun c ph e d ph' hold h hC hn _ => Stored.next hold hC.2 h hn)
    (hc'.mono fun c e hC => ⟨fun hc => hc.elim, hC.2⟩)
  have hid : job.id = r.jobId := Db.id_of_job hjob
  have hpath : job.storagePath = svc.storagePath r.jobId := by
    rcases hold.inv.rows job (List.mem_of_find?_eq_some hjob) with ⟨r', hr', hid', hpath⟩ | ⟨-, hold⟩
    · rw [hpath, ← hid', hid]
    · exact absurd hid (hold r hr).1
  rw [hpath]
  exact hstored r hr (UploadWorld.hasJob_of_job hjob)

/-- A `_run_import` that ends normally is followed by `ack_job`. -/
theorem processEntry_runAll_of_runImport {files : String → Option Csv} {w : World} {id : Uuid}
    {job : ImportJob} {batchSize : ℕ} (entry : ℕ) (hjob : w.db.job id = some job)
    (hst : job.status ≠ .COMPLETED) (hretry : job.retryCount < maxRetries)
    (h : ((runImport py batchSize (.opened job)).runAll (WorkerOp.exec files) .ok w).2.1 = .ok ()) :
    let w' := ((runImport py batchSize (.opened job)).runAll (WorkerOp.exec files) .ok w).1
    (processEntry py batchSize entry id).runAll (WorkerOp.exec files) .ok w =
      ({ w' with stream := w'.stream.xack entry }, .ok ()) := by
  intro w'
  obtain ⟨s, hs⟩ : ∃ s, (runImport py batchSize (.opened job)).runAll (WorkerOp.exec files) .ok w =
      (w', .ok (), s) := ⟨_, Prod.ext rfl (Prod.ext h rfl)⟩
  have hbody : processJob py batchSize entry (.opened job) =
      Routine.tryExcept (do
        runImport py batchSize
        WorkerM.ackJob entry) handleFailure (.opened job) := by
    exact congrFun ((if_neg hst).trans (if_neg (Nat.not_le.mpr hretry))) _
  have hrun : (processJob py batchSize entry (.opened job)).runAll (WorkerOp.exec files) .ok w =
      ({ w' with stream := w'.stream.xack entry }, .ok (), s) := by
    rw [hbody]
    show (((runImport py batchSize (.opened job)).bind _).bind _).runAll (WorkerOp.exec files) .ok w = _
    rw [Program.runAll_bind, Program.runAll_bind, hs]
    rfl
  have hselect : WorkerOp.exec files (.selectJob id) .ok w = (w, .ok (some job)) := by
    rw [← hjob]
    rfl
  rw [processEntry, Program.runAll, hselect]
  show ((processJob py batchSize entry (.opened job)).bind _).runAll (WorkerOp.exec files) .ok w = _
  rw [Program.runAll_bind, hrun]
  rfl

/-- A `process_entry` that meets no error imports the rows behind the checkpoint. -/
theorem processEntry_uninterrupted (files : String → Option Csv) {w : World} {job : ImportJob}
    {csv : Csv} (hjob : w.db.job job.id = some job) (hst : job.status ≠ .COMPLETED)
    (hretry : job.retryCount < maxRetries) (hcsv : files job.storagePath = some csv)
    (hcol : csv.missingColumns = []) (hend : csv.raises = false)
    (hraise : ∀ row ∈ csv.rows, ∀ e, py.validateRow row 0 ≠ .raised e)
    (hstores : ∀ row ∈ csv.rows, stores py job.id row = true) (batchSize entry : ℕ) :
    ∃ w', (processEntry py batchSize entry job.id).runAll (WorkerOp.exec files) .ok w =
        (w', .ok ()) ∧
      w'.db.transactions = insertAbsent Transaction.transactionId w.db.transactions
        ((csv.rows.drop job.lastCommittedRow).filterMap (acceptedRow py job.id)) ∧
      ∃ job', w'.db.job job.id = some job' ∧ job'.status = .COMPLETED ∧
        job'.totalRows = some csv.rows.length := by
  have himport : ImportableFrom py csv job :=
    ⟨hcol, hend, fun i row e _ hrow => hraise row (List.mem_of_getElem? hrow) e, fun i _ _ =>
      rowFits_of_stores fun row hrow => hstores row (List.mem_of_getElem? hrow)⟩
  obtain ⟨hok, job', hrow, hst', hcheck, -⟩ :=
    runImport_uninterrupted hjob hst hretry hcsv himport batchSize
  obtain ⟨htotal, hle, -⟩ := hcheck.completed hst'
  refine ⟨_, processEntry_runAll_of_runImport entry hjob hst hretry hok, ?_, job', hrow, hst', htotal⟩
  refine hcheck.table_eq.trans ?_
  rw [accepted, List.take_of_length_le hle]

/-- Consider any run of the API, whatever requests it processes at the same time and whatever fails,
in which a request has sent a file with a table that has the required columns, and has inserted its
row.  A worker that gets the job, before it is finished or given up, and meets no error, with the
values of the rows either, reads the table: it completes the job with as many rows as the table has
records, and the accepted records behind the checkpoint are in the table of transactions, in order,
except those whose id was there. -/
theorem uploaded_table_imported (svc : Service) (py : Python) {w : UploadWorld}
    (hstart : InStep w) (hlog : w.requests = []) {c : UploadPool}
    (hc : (uploads svc).Reaches (fun _ _ => True) ⟨w, []⟩ c) {r : Request}
    (hr : r ∈ c.world.requests) {x : TableText} (hfile : x.IsFile r.content)
    (hcol : ∀ name ∈ requiredColumns, name ∈ x.fieldnames) {job : ImportJob}
    (hjob : c.world.db.job r.jobId = some job) (hst : job.status ≠ .COMPLETED)
    (hretry : job.retryCount < maxRetries)
    (hraise : ∀ record ∈ x.records, ∀ e,
      py.validateRow (dictRow x.fieldnames record) 0 ≠ .raised e)
    (hstores : ∀ record ∈ x.records, stores py r.jobId (dictRow x.fieldnames record) = true)
    (batchSize entry clock : ℕ) (cache : List (String × String)) :
    let y := (processEntry py batchSize entry r.jobId).runAll
      (WorkerOp.exec fun path => (c.world.files path).bind (parseCsv py)) .ok
      ⟨c.world.db, c.world.stream, cache, clock⟩
    y.2 = .ok () ∧
    y.1.db.transactions = insertAbsent Transaction.transactionId c.world.db.transactions
      ((x.records.drop job.lastCommittedRow).filterMap fun record =>
        acceptedRow py r.jobId (dictRow x.fieldnames record)) ∧
    ∃ job', y.1.db.job r.jobId = some job' ∧ job'.status = .COMPLETED ∧
      job'.totalRows = some x.records.length := by
  intro y
  have hid : job.id = r.jobId := Db.id_of_job hjob
  have hcsv : ((c.world.files job.storagePath).bind (parseCsv py)) = some x.csv := by
    rw [file_of_row hstart hlog hc hr hjob]
    exact parseCsv_isFile py hfile
  have hmissing : x.csv.missingColumns = [] := by
    refine List.filter_eq_nil_iff.mpr fun name hname hdec => ?_
    exact of_decide_eq_true hdec (hcol name hname)
  have hraise' : ∀ row ∈ x.csv.rows, ∀ e, py.validateRow row 0 ≠ .raised e := by
    intro row hrow e
    obtain ⟨record, hrecord, rfl⟩ := List.mem_map.mp hrow
    exact hraise record hrecord e
  have hstores' : ∀ row ∈ x.csv.rows, stores py job.id row = true := by
    intro row hrow
    obtain ⟨record, hrecord, rfl⟩ := List.mem_map.mp hrow
    rw [hid]
    exact hstores record hrecord
  rw [← hid] at hjob
  obtain ⟨w', hy, htable, job', hrow, hst', htotal⟩ := processEntry_uninterrupted
    (fun path => (c.world.files path).bind (parseCsv py))
    (w := ⟨c.world.db, c.world.stream, cache, clock⟩) hjob hst hretry hcsv hmissing rfl hraise'
    hstores' batchSize entry
  rw [hid] at hy htable hrow
  have hrows : (x.csv.rows.drop job.lastCommittedRow).filterMap (acceptedRow py r.jobId) =
      (x.records.drop job.lastCommittedRow).filterMap fun record =>
        acceptedRow py r.jobId (dictRow x.fieldnames record) := by
    show ((x.records.map (dictRow x.fieldnames)).drop job.lastCommittedRow).filterMap
      (acceptedRow py r.jobId) = _
    rw [← List.map_drop, List.filterMap_map, Function.comp_def]
  have hlen : x.csv.rows.length = x.records.length := List.length_map _
  rw [hrows] at htable
  have hy' : y = (w', .ok ()) := hy
  rw [hy']
  exact ⟨rfl, htable, job', hrow, hst', htotal.trans (congrArg some hlen)⟩

/-! ### A small table -/

/-- A header and two records, the second one too short, as `csv.writer` writes them. -/
def writtenTable : Table where
  header := ("transaction_id", ["account_id", "type", "amount", "currency", "timestamp"])
  records := [("T1", ["A1", "credit", "10.50", "USD", "2026-09-01T10:00:00Z"]), ("T2", ["A, 1"])]
  limit := by decide

/-- A client uploads the table. -/
def tableRequest : Request where
  clientId := firstClient
  filename := some "a.csv"
  idempotencyKeyHeader := some "k1"
  chunks := [encodeText writtenTable.tableText.text]
  jobId := firstJob
  chunks_ne := by decide +kernel

theorem isFile_tableRequest : writtenTable.tableText.IsFile tableRequest.content := by
  refine .inr ⟨List.append_nil _, ?_⟩
  rw [Table.text_tableText]
  decide

theorem fieldnames_writtenTable : writtenTable.tableText.fieldnames = requiredColumns := by
  rw [Table.fieldnames_tableText]
  rfl

theorem records_writtenTable : writtenTable.tableText.records =
    [["T1", "A1", "credit", "10.50", "USD", "2026-09-01T10:00:00Z"], ["T2", "A, 1"]] := by
  rw [Table.records_tableText]
  rfl

/-- `validate_row` returns on the records of the table. -/
theorem returns_writtenTable : ∀ record ∈ writtenTable.tableText.records, ∀ e,
    Python.ascii.validateRow (dictRow writtenTable.tableText.fieldnames record) 0 ≠ .raised e := by
  have hreturned : ∀ record ∈ writtenTable.tableText.records,
      (Python.ascii.validateRow (dictRow writtenTable.tableText.fieldnames record) 0).returned =
        true := by
    rw [fieldnames_writtenTable, records_writtenTable]
    decide +kernel
  intro record hrecord e hraised
  have hret := hreturned record hrecord
  rw [hraised] at hret
  cases hret

/-- The client and the columns take what an import makes of the table. -/
theorem stores_writtenTable : ∀ record ∈ writtenTable.tableText.records,
    stores .ascii firstJob (dictRow writtenTable.tableText.fieldnames record) = true := by
  rw [fieldnames_writtenTable, records_writtenTable]
  decide +kernel

/-- One record of the table is accepted, the other one is not. -/
theorem sample_uploaded_table_imported :
    ∃ (c : UploadPool) (y : World), c.world.requests = [tableRequest] ∧
      y.db.transactions =
        [⟨"T1", "A1", .CREDIT, .finite false 1050 (-2), "USD", ⟨2026, 9, 1, 10, 0, 0, 0, some 0⟩,
          some firstJob⟩] ∧
      ∃ job, y.db.job firstJob = some job ∧ job.status = .COMPLETED ∧ job.totalRows = some 2 := by
  have hrun : ((uploads sampleService).perform (fun _ _ => true) ⟨emptyUploads, []⟩
      (.arrive (.request tableRequest) :: uploadRuns 0 10)).map (fun c =>
        (decide (c.world.requests = [tableRequest]), c.world.db.transactions,
          c.world.db.job firstJob)) =
      some (true, [], some (sampleService.newJob tableRequest)) := by decide +kernel
  obtain ⟨c, hperform, hc⟩ := Option.map_eq_some_iff.mp hrun
  obtain ⟨hreq, hrest⟩ := Prod.mk.inj hc
  obtain ⟨htable, hjob⟩ := Prod.mk.inj hrest
  have hreq' : c.world.requests = [tableRequest] := of_decide_eq_true hreq
  have hreach : (uploads sampleService).Reaches (fun _ _ => True) ⟨emptyUploads, []⟩ c :=
    System.reaches_of_perform (fun _ _ _ => trivial) hperform
  obtain ⟨-, htransactions, job, hrow, hst, htotal⟩ := uploaded_table_imported sampleService .ascii
    inStep_emptyUploads rfl hreach (r := tableRequest) (by rw [hreq']; exact List.mem_cons_self)
    isFile_tableRequest (fun name hname => by rw [fieldnames_writtenTable]; exact hname) hjob
    (by decide) (by decide) returns_writtenTable stores_writtenTable 1 0 0 []
  refine ⟨c, _, hreq', htransactions.trans ?_, job, hrow, hst,
    by rw [htotal, records_writtenTable]; rfl⟩
  rw [htable, fieldnames_writtenTable, records_writtenTable]
  decide +kernel

end TransactionPlatform
