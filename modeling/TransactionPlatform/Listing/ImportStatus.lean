import TransactionPlatform.Listing.ImportErrors
import TransactionPlatform.Listing.LiveListing
import TransactionPlatform.Worker.ErrorReport

/-!
# The report of a running import

`get_import_status` and `get_import_errors` of `app/api/v1/imports.py`, called again and again while
the workers process the job.  Every call is a query of its own, so that two answers belong to
different states of the job.  What holds in each of them is `Accounted`, for one worker at a time on
each job; since records are only appended, in the order of the rows, the pages of errors are exact
although records are added between them.
-/

namespace TransactionPlatform

open Interleaved KeyedTable Paging

/-! ### The endpoint -/

/-- `job.status.value`. -/
def ImportStatus.value : ImportStatus → String
  | QUEUED => "QUEUED"
  | PROCESSING => "PROCESSING"
  | COMPLETED => "COMPLETED"
  | FAILED => "FAILED"

/-- `ImportStatusResponse`. -/
structure ImportStatusResponse where
  importId : Uuid
  status : String
  totalRows : Option ℕ
  processedRows : ℕ
  successfulRows : ℕ
  failedRows : ℕ
  startedAt : Option ℕ
  completedAt : Option ℕ
  deriving DecidableEq

/-- `ImportStatusResponse(import_id=job.id, ...)`. -/
def ImportJob.statusResponse (job : ImportJob) : ImportStatusResponse where
  importId := job.id
  status := job.status.value
  totalRows := job.totalRows
  processedRows := job.processedRows
  successfulRows := job.successfulRows
  failedRows := job.failedRows
  startedAt := job.startedAt
  completedAt := job.completedAt

/-- `get_import_status` for a client behind the rate limiter; `id` is the primary key. -/
def getImportStatus (db : Db) (clientId importId : Uuid) : Except LookupExn ImportStatusResponse :=
  match db.jobs.find? fun job => decide (job.id = importId ∧ job.clientId = clientId) with
  | none => .error (.HTTPException 404 "Import not found")
  | some job => .ok job.statusResponse

theorem ImportStatus.value_eq_completed {s : ImportStatus} :
    s.value = "COMPLETED" ↔ s = .COMPLETED := by
  cases s <;> simp [value]

variable {py : Python} {files : String → Option Csv} {t : Attempt} {db db' : Db}
variable {job job' : ImportJob} {id : Uuid}

/-- The first row with an id is found by its client. -/
theorem find?_of_job (h : db.job id = some job) :
    (db.jobs.find? fun row => decide (row.id = id ∧ row.clientId = job.clientId)) = some job := by
  obtain ⟨hid, pre, post, hjobs, hpre⟩ := List.find?_eq_some_iff_append.mp h
  rw [List.find?_eq_some_iff_append]
  refine ⟨decide_eq_true ⟨of_decide_eq_true hid, rfl⟩, pre, post, hjobs, fun row hrow => ?_⟩
  have hne := hpre row hrow
  simp only [Bool.not_eq_eq_eq_not, Bool.not_true, decide_eq_false_iff_not] at hne ⊢
  exact fun hboth => hne hboth.1

theorem getImportStatus_of_job (h : db.job id = some job) :
    getImportStatus db job.clientId id = .ok job.statusResponse := by
  rw [getImportStatus, find?_of_job h]

/-- The answer of `get_import_errors` to the client of the job. -/
theorem getImportErrors_of_job (h : db.job id = some job) (plan : Plan ImportError)
    (countDb pageDb : Db) {page limit : ℕ} (hpage : 1 ≤ page) (hlow : 1 ≤ limit)
    (hhigh : limit ≤ 500) :
    getImportErrors plan db countDb pageDb job.clientId id page limit =
      .ok ⟨(Paging.page limit page (plan.orderBy ImportError.rowNumber (pageDb.errorsOf id))).map
        ImportError.item, page, limit, (countDb.errorsOf id).length⟩ := by
  rw [getImportErrors, if_pos ⟨hpage, hlow, hhigh⟩, find?_of_job h]

/-! ### One commit -/

/-- The records of a batch are in the order of the rows. -/
theorem pairwise_reported (py : Python) (jobId : Uuid) (rows : List Row) (base start upTo : ℕ) :
    ((reported py jobId rows base start upTo).map ImportError.rowNumber).Pairwise (· < ·) := by
  rw [List.pairwise_map, reported]
  refine List.Pairwise.filterMap _ (fun i j hlt e he e' he' => ?_)
    List.pairwise_lt_range'
  rw [(reportedRow_fields he).2, (reportedRow_fields he').2]
  exact Nat.succ_lt_succ hlt

/-- What holds of a job and its records between two commits. -/
structure Accounted (files : String → Option Csv) (db : Db) (job : ImportJob) : Prop where
  tally : Tally files db job
  ordered : ((db.errorsOf job.id).map ImportError.rowNumber).Pairwise (· < ·)
  le : ∀ e ∈ db.errorsOf job.id, 0 < e.rowNumber ∧ e.rowNumber ≤ job.lastCommittedRow
  recorded : (db.errorsOf job.id).length ≤ job.failedRows
  total : job.status = .COMPLETED → job.totalRows = some job.processedRows

/-- What a commit does to the job of its attempt: the records of the batch are new, they are counted
as failed rows, and they are about the rows between the two checkpoints, in their order. -/
structure Records (job job' : ImportJob) (new : List ImportError) : Prop where
  id : job'.id = job.id
  clientId : job'.clientId = job.clientId
  failed : job.failedRows + new.length ≤ job'.failedRows
  between : ∀ e ∈ new, job.lastCommittedRow < e.rowNumber ∧ e.rowNumber ≤ job'.lastCommittedRow
  ordered : (new.map ImportError.rowNumber).Pairwise (· < ·)

theorem Records.nil {job job' : ImportJob} (hid : job'.id = job.id)
    (hclient : job'.clientId = job.clientId) (hfailed : job'.failedRows = job.failedRows) :
    Records job job' [] where
  id := hid
  clientId := hclient
  failed := by simp [hfailed]
  between := by simp
  ordered := by simp

theorem records_commit (db : Db) {a : Phase} {s : Session} {cont : ImportJob → Phase}
    (hc : Commits py files t a s cont) (hfact : CountersAt t a) :
    ∃ new, Records s.saved (s.commitJob db) new ∧
      (s.commitDb db).errorsOf s.saved.id = db.errorsOf s.saved.id ++ new := by
  cases hc with
  | giveUp hid => exact ⟨[], .nil rfl rfl rfl, (List.append_nil _).symm⟩
  | start hid => exact ⟨[], .nil rfl rfl rfl, (List.append_nil _).symm⟩
  | @batch job base csv b hid hcsv hcol hb hlt hfits =>
    simp only [Session.commitDb, Session.commitJob, Batch.work, Session.transaction_batch]
    refine ⟨b.errors, ⟨rfl, rfl, ?_, fun e he => (hb.job_errors e he).2, ?_⟩, ?_⟩
    · simp only [ImportJob.advanced]
      omega
    · rw [hb.errors_eq]
      exact pairwise_reported ..
    · have hown : b.errors.filter (fun e => e.importJobId = job.id) = b.errors := by
        rw [List.filter_eq_self]
        exact fun e he => decide_eq_true (hb.job_errors e he).1
      change (db.errors ++ b.errors).filter _ = _
      rw [List.filter_append, hown]
      rfl
  | finish hid hcsv hcol hlen hend => exact ⟨[], .nil rfl rfl rfl, (List.append_nil _).symm⟩
  | reject hid hcsv hcol => exact ⟨[], .nil rfl rfl rfl, (List.append_nil _).symm⟩
  | handle hid =>
    change s = (Session.opened s.saved).requeue at hfact
    rw [hfact]
    exact ⟨[], .nil rfl rfl rfl, (List.append_nil _).symm⟩

/-- A commit leaves the records of other jobs as they are. -/
theorem errorsOf_frame {a : Phase} {s : Session} {cont : ImportJob → Phase}
    (hc : Commits py files t a s cont) (hfact : CountersAt t a) (hne : id ≠ t.importJobId) :
    (s.commitDb db).errorsOf id = db.errorsOf id := by
  cases hc with
  | giveUp hid => rfl
  | start hid => rfl
  | @batch job base csv b hid hcsv hcol hb hlt hfits =>
    have hother : b.errors.filter (fun e => e.importJobId = id) = [] := by
      refine List.filter_eq_nil_iff.mpr fun e he heq => hne ?_
      rw [← of_decide_eq_true heq, (hb.job_errors e he).1, hid]
    simp only [Session.commitDb, Batch.work, Session.transaction_batch]
    change (db.errors ++ b.errors).filter _ = _
    rw [List.filter_append, hother, List.append_nil]
    rfl
  | finish hid hcsv hcol hlen hend => rfl
  | reject hid hcsv hcol => rfl
  | handle hid =>
    change s = (Session.opened s.saved).requeue at hfact
    rw [hfact]
    rfl

/-- A job that a commit completes has as many rows as are processed. -/
theorem total_commit {a : Phase} {s : Session} {cont : ImportJob → Phase}
    (hc : Commits py files t a s cont) (h : Tally files db s.saved) (hfact : CountersAt t a)
    (hst : (s.commitJob db).status = .COMPLETED) :
    (s.commitJob db).totalRows = some (s.commitJob db).processedRows := by
  cases hc with
  | giveUp hid => cases hst
  | start hid => cases hst
  | batch hid hcsv hcol hb hlt hfits =>
    simp only [Session.commitJob, Batch.work, Session.transaction_batch] at hst
    exact absurd hst hfact
  | @finish job base time csv hid hcsv hcol hlen hend =>
    change some csv.rows.length = some job.processedRows
    rw [h.processed, Nat.le_antisymm (h.bound csv hcsv) hlen]
  | reject hid hcsv hcol => cases hst
  | handle hid =>
    change s = (Session.opened s.saved).requeue at hfact
    rw [hfact] at hst
    cases hst

theorem Accounted.commit {a : Phase} {s : Session} {cont : ImportJob → Phase}
    (hc : Commits py files t a s cont) (h : Accounted files db s.saved) (hfact : CountersAt t a) :
    Accounted files (s.commitDb db) (s.commitJob db) := by
  obtain ⟨htally, hmono⟩ := counters_commit hc h.tally hfact
  obtain ⟨new, hnew, herrors⟩ := records_commit db hc hfact
  rw [← hnew.id] at herrors
  refine ⟨htally, ?_, fun e he => ?_, ?_, total_commit hc h.tally hfact⟩
  · rw [herrors, List.map_append, List.pairwise_append]
    refine ⟨hnew.id ▸ h.ordered, hnew.ordered, ?_⟩
    simp only [List.mem_map]
    rintro n ⟨e, he, rfl⟩ m ⟨e', he', rfl⟩
    exact (h.le e (hnew.id ▸ he)).2.trans_lt (hnew.between e' he').1
  · rw [herrors, List.mem_append] at he
    rcases he with hold | hadd
    · obtain ⟨hpos, hle⟩ := h.le e (hnew.id ▸ hold)
      exact ⟨hpos, hle.trans hmono.last⟩
    · obtain ⟨hlt, hle⟩ := hnew.between e hadd
      exact ⟨Nat.zero_lt_of_lt hlt, hle⟩
  · have hrecorded := h.recorded
    have hfailed := hnew.failed
    rw [herrors, List.length_append, hnew.id]
    omega

theorem Accounted.frame {a : Phase} {s : Session} {cont : ImportJob → Phase}
    (hc : Commits py files t a s cont) (hfact : CountersAt t a) (hne : job.id ≠ t.importJobId)
    (h : Accounted files db job) : Accounted files (s.commitDb db) job := by
  have hsame : (s.commitDb db).errorsOf job.id = db.errorsOf job.id := errorsOf_frame hc hfact hne
  refine ⟨counters_frame hc hfact hne h.tally, ?_, ?_, ?_, h.total⟩
  · rw [hsame]
    exact h.ordered
  · rw [hsame]
    exact h.le
  · rw [hsame]
    exact h.recorded

/-! ### Runs -/

/-- What stays of a row of `import_jobs`, and what only grows. -/
structure LaterRow (job job' : ImportJob) : Prop where
  clientId : job'.clientId = job.clientId
  notBehind : NotBehind job job'

/-- A job without records whose counters agree with its transactions. -/
theorem Accounted.of_none (htally : Tally files db job)
    (hnone : ∀ e ∈ db.errors, e.importJobId ≠ job.id) (hst : job.status ≠ .COMPLETED) :
    Accounted files db job := by
  have hnil : db.errorsOf job.id = [] :=
    List.filter_eq_nil_iff.mpr fun e he hid => hnone e he (of_decide_eq_true hid)
  exact ⟨htally, by simp [hnil], by simp [hnil], by simp [hnil], fun h => absurd h hst⟩

theorem accountedRule (py : Python) (files : String → Option Csv) :
    ExclusiveRule py files
      (fun c e => Sequential c e ∧ System.Exclusive Attempt.importJobId c) (Accounted files)
      CountersAt LaterRow NotRefused where
  exclusive c e hC := hC.2
  allowed := (countersRule py files).allowed
  quiet t o f db a a' hallow hq _ _ hfact := counters_quiet hallow hq hfact
  commit t f db a s cont _ hc _ h hfact := by
    obtain ⟨new, hnew, -⟩ := records_commit db hc hfact
    exact ⟨h.commit hc hfact, ⟨hnew.clientId, (counters_commit hc h.tally hfact).2⟩,
      countersAt_commit hc db hfact⟩
  frame t f db a s cont _ hc hfact row hne h := h.frame hc hfact hne
  create c id client name path key hC hunused := by
    obtain ⟨hnew, hold⟩ := (countersRule py files).create c id client name path key hC hunused
    refine ⟨.of_none hnew (World.unused_iff.mp hunused).2.2 (by simp [ImportJob.queued]), ?_⟩
    exact fun row h => ⟨hold row h.tally, h.ordered, h.le, h.recorded, h.total⟩
  unread _ := trivial
  ended _ _ := trivial
  refl row := ⟨rfl, .refl row⟩
  trans _ _ _ h h' := ⟨h'.clientId.trans h.clientId, h.notBehind.trans h'.notBehind⟩

/-- A commit only appends records. -/
theorem Session.prefix_errors (s : Session) (db : Db) : db.errors <+: (s.commitDb db).errors := by
  have hrun : ∀ (t : Tx) (stmt : Stmt), t.db.errors <+: (t.run stmt).db.errors := by
    intro t stmt
    cases stmt with
    | insertErrors rows => exact List.prefix_append _ _
    | insertTransactions rows => exact List.prefix_rfl
    | advance valid errors upTo => exact List.prefix_rfl
    | updateProgress => exact List.prefix_rfl
  have hwork : ∀ (work : List Stmt) (t : Tx), t.db.errors <+: (work.foldl Tx.run t).db.errors := by
    intro work
    induction work with
    | nil => exact fun t => List.prefix_rfl
    | cons stmt work ih => exact fun t => (hrun t stmt).trans (ih _)
  exact hwork s.work ⟨db, s.current, s.saved, 0⟩

/-- An operation of a worker only appends records. -/
theorem WorkerOp.prefix_errors (files : String → Option Csv) (o : WorkerOp) (f : Fault) (w : World) :
    w.db.errors <+: (o.exec files f w).1.db.errors := by
  cases o with
  | commit s =>
    cases f with
    | ok => exact s.prefix_errors w.db
    | lost => exact s.prefix_errors w.db
    | failed => exact List.prefix_rfl
    | rejected => exact List.prefix_rfl
  | xack entry => cases f <;> exact List.prefix_rfl
  | delSummary a => cases f <;> exact List.prefix_rfl
  | selectJob id => exact List.prefix_rfl
  | now => exact List.prefix_rfl
  | execute stmt => exact List.prefix_rfl
  | openCsv path => exact List.prefix_rfl
  | readRow => exact List.prefix_rfl

theorem Arrival.errors_eq {x : Arrival} {w w' : World}
    {r : Option (Attempt × Program WorkerOp WorkerOp.Ans (Except Exn Unit))}
    (hx : x.apply py w = some (w', r)) : w'.db.errors = w.db.errors := by
  rcases Arrival.apply_cases hx with ⟨id, client, name, path, key, -, -, rfl, rfl⟩ |
    ⟨id, -, -, -, rfl, rfl⟩ | ⟨entry, size, stream, id, -, -, rfl, rfl⟩
  · rfl
  · rfl
  · rfl

/-- Records are never taken back, along any run. -/
theorem prefix_errors_reaches {C : WorkerPool → WorkerEvent → Prop} {c d : WorkerPool}
    (h : (workers py files).Reaches C c d) : c.world.db.errors <+: d.world.db.errors := by
  induction h with
  | refl => exact List.prefix_rfl
  | tail _ _ hn ih =>
    refine ih.trans ?_
    rcases System.next_cases hn with ⟨i, f, t, o, k, -, -, rfl⟩ | ⟨i, t, o, k, -, -, rfl⟩ |
      ⟨x, w, -, hx, rfl⟩ | ⟨x, w, t, p, -, hx, rfl⟩
    · exact WorkerOp.prefix_errors files o f _
    · exact List.prefix_rfl
    · exact (Arrival.errors_eq hx).symm ▸ List.prefix_rfl
    · exact (Arrival.errors_eq hx).symm ▸ List.prefix_rfl

/-- What is known of a job at two times of a run. -/
theorem accounted_reaches {w : World} (hw : Unstarted w.db)
    (hnone : ∀ id job, w.db.job id = some job → ∀ e ∈ w.db.errors, e.importJobId ≠ id)
    {c d : WorkerPool} (hc : (workers py files).Reaches Sequential ⟨w, []⟩ c)
    (hd : (workers py files).Reaches Sequential c d) (hjob : c.world.db.job id = some job) :
    ∃ job', d.world.db.job id = some job' ∧ LaterRow job job' ∧
      Accounted files d.world.db job' ∧
      c.world.db.errorsOf id <+: d.world.db.errorsOf id := by
  have hstart : ∀ id job, w.db.job id = some job → Accounted files w.db job := by
    intro id job hjob
    refine .of_none (hw.tally hjob) ?_ (by simp [(hw.jobs id job hjob).1])
    rw [Db.id_of_job hjob]
    exact hnone id job hjob
  obtain ⟨hinv, hmono⟩ := (accountedRule py files).reaches (fun _ _ he => he.1) hstart hc hd
  obtain ⟨job', hjob', hlater⟩ := hmono id job hjob
  exact ⟨job', hjob', hlater, hinv id job' hjob', (prefix_errors_reaches hd).filter _⟩

/-- The answers a client gets about its import fit together, at any two times of a run in which
attempts at one job do not overlap and statements fail only in Postgres: no counter goes down, the
processed rows are the successful and the failed ones, all rows of a completed import are processed,
and a page of errors that has been read before, its three statements one after the other, has no more
records than rows have failed, each about a processed row. -/
theorem report_consistent (py : Python) (files : String → Option Csv) {w : World}
    (hw : Unstarted w.db)
    (hnone : ∀ id job, w.db.job id = some job → ∀ e ∈ w.db.errors, e.importJobId ≠ id)
    {c d : WorkerPool} (hc : (workers py files).Reaches Sequential ⟨w, []⟩ c)
    (hd : (workers py files).Reaches Sequential c d) {id : Uuid} {job : ImportJob}
    (hjob : c.world.db.job id = some job) :
    ∃ s s', getImportStatus c.world.db job.clientId id = .ok s ∧
      getImportStatus d.world.db job.clientId id = .ok s' ∧ s'.importId = id ∧
      s.processedRows ≤ s'.processedRows ∧ s.successfulRows ≤ s'.successfulRows ∧
      s.failedRows ≤ s'.failedRows ∧ s'.processedRows = s'.successfulRows + s'.failedRows ∧
      (s'.status = "COMPLETED" → s'.totalRows = some s'.processedRows) ∧
      ∀ (plan : Plan ImportError) (page limit : ℕ), 1 ≤ page → 1 ≤ limit → limit ≤ 500 →
        ∀ r₁ r₂ r₃ : WorkerPool, (workers py files).Reaches Sequential c r₁ →
          (workers py files).Reaches Sequential r₁ r₂ →
          (workers py files).Reaches Sequential r₂ r₃ →
          (workers py files).Reaches Sequential r₃ d →
          ∃ answer, getImportErrors plan r₁.world.db r₂.world.db r₃.world.db job.clientId id page
              limit = .ok answer ∧
            answer.total ≤ s'.failedRows ∧
            ∀ x ∈ answer.items, 0 < x.row ∧ x.row ≤ s'.processedRows := by
  obtain ⟨row, hrow, -, hacc, -⟩ := accounted_reaches hw hnone hc .refl hjob
  rw [hjob] at hrow
  cases hrow
  obtain ⟨job', hjob', hlater, hacc', -⟩ := accounted_reaches hw hnone hc hd hjob
  have hid := Db.id_of_job hjob'
  refine ⟨job.statusResponse, job'.statusResponse, getImportStatus_of_job hjob, ?_, hid, ?_,
    hlater.notBehind.successful, hlater.notBehind.failed, ?_, fun hst => ?_,
    fun plan page limit hpage hlow hhigh r₁ r₂ r₃ h₁ h₂ h₃ h₄ => ?_⟩
  · rw [← hlater.clientId]
    exact getImportStatus_of_job hjob'
  · change job.processedRows ≤ job'.processedRows
    rw [hacc.tally.processed, hacc'.tally.processed]
    exact hlater.notBehind.last
  · change job'.processedRows = job'.successfulRows + job'.failedRows
    rw [hacc'.tally.processed, hacc'.tally.sum]
  · exact hacc'.total (ImportStatus.value_eq_completed.mp hst)
  · -- the records that the statements find are among those of the last state
    have hcount : r₂.world.db.errorsOf id <+: d.world.db.errorsOf id :=
      (prefix_errors_reaches (h₃.trans h₄)).filter _
    have hread : r₃.world.db.errorsOf id <+: d.world.db.errorsOf id :=
      (prefix_errors_reaches h₄).filter _
    obtain ⟨row, hrow, hsame, -⟩ := accounted_reaches hw hnone hc h₁ hjob
    rw [← hsame.clientId]
    refine ⟨_, getImportErrors_of_job hrow plan _ _ hpage hlow hhigh, ?_, fun x hx => ?_⟩
    · refine hcount.length_le.trans ?_
      rw [← hid]
      exact hacc'.recorded
    · obtain ⟨e, he, rfl⟩ := List.mem_map.mp hx
      change 0 < e.rowNumber ∧ e.rowNumber ≤ job'.processedRows
      rw [hacc'.tally.processed]
      exact hacc'.le e (by rw [hid]; exact hread.subset (mem_of_mem_page he))

/-- The import of the file with two empty rows is cut off behind the first of them, and completed by
another attempt. -/
theorem sampleEmptyRows_growing :
    ∃ (c d : WorkerPool) (job : ImportJob),
      (workers .ascii (sampleFiles sampleEmptyRows)).Reaches Sequential ⟨sampleWorld, []⟩ c ∧
      (workers .ascii (sampleFiles sampleEmptyRows)).Reaches Sequential c d ∧
      c.world.db.job sampleId = some job ∧ job.clientId = sampleClient ∧ job.processedRows = 1 ∧
      (c.world.db.errorsOf sampleId).length = 1 ∧ (d.world.db.errorsOf sampleId).length = 2 := by
  have hrun : (((workers .ascii (sampleFiles sampleEmptyRows)).perform Sequential.test
      ⟨sampleWorld, []⟩ sampleCrash).bind fun c =>
        ((workers .ascii (sampleFiles sampleEmptyRows)).perform Sequential.test c
          sampleResume).map fun d =>
            ((c.world.db.job sampleId).map fun job => (job.clientId, job.processedRows),
              (c.world.db.errorsOf sampleId).length, (d.world.db.errorsOf sampleId).length)) =
      some (some (sampleClient, 1), 1, 2) := by decide +kernel
  obtain ⟨c, hc, hcd⟩ := Option.bind_eq_some_iff.mp hrun
  obtain ⟨d, hd, hout⟩ := Option.map_eq_some_iff.mp hcd
  simp only [Prod.mk.injEq, Option.map_eq_some_iff] at hout
  obtain ⟨⟨job, hjob, hclient, hprocessed⟩, hlen, hlen'⟩ := hout
  exact ⟨c, d, job, System.reaches_of_perform (fun _ _ => Sequential.of_test) hc,
    System.reaches_of_perform (fun _ _ => Sequential.of_test) hd, hjob, hclient, hprocessed, hlen,
    hlen'⟩

theorem sample_report_consistent :
    ∃ (d : WorkerPool) (s' : ImportStatusResponse),
      getImportStatus d.world.db sampleClient sampleId = .ok s' ∧ 1 ≤ s'.processedRows ∧
      s'.processedRows = s'.successfulRows + s'.failedRows := by
  obtain ⟨c, d, job, hc, hd, hjob, hclient, hprocessed, -⟩ := sampleEmptyRows_growing
  obtain ⟨s, s', hs, hs', -, hle, -, -, hsum, -⟩ := report_consistent .ascii
    (sampleFiles sampleEmptyRows) Unstarted.sampleWorld (fun _ _ _ e he => by cases he) hc hd hjob
  rw [getImportStatus_of_job hjob] at hs
  cases hs
  rw [hclient] at hs'
  exact ⟨d, s', hs', hprocessed.symm.le.trans hle, hsum⟩

/-- Let a client read the errors of its import page by page while the import is running, and go on
as long as a page is full; the three statements of call `n` find the states `jobs n`, `counts n` and
`c n`.  Then it gets the records in the order of the rows, none of them twice, and all that there are
when the last page is read, whatever order Postgres gives to equal keys. -/
theorem error_pages_while_importing (py : Python) (files : String → Option Csv) {w : World}
    (hw : Unstarted w.db)
    (hnone : ∀ id job, w.db.job id = some job → ∀ e ∈ w.db.errors, e.importJobId ≠ id)
    {jobs counts c : ℕ → WorkerPool}
    (hstart : (workers py files).Reaches Sequential ⟨w, []⟩ (jobs 1))
    (hcounts : ∀ n, 1 ≤ n → (workers py files).Reaches Sequential (jobs n) (counts n))
    (hpages : ∀ n, 1 ≤ n → (workers py files).Reaches Sequential (counts n) (c n))
    (hjobs : ∀ n, 1 ≤ n → (workers py files).Reaches Sequential (c n) (jobs (n + 1))) {id : Uuid}
    {job : ImportJob} (hjob : (jobs 1).world.db.job id = some job) (plans : ℕ → Plan ImportError)
    {limit : ℕ} (hlow : 1 ≤ limit) (hhigh : limit ≤ 500) :
    ∃ page : ℕ → ImportErrorPage,
      (∀ n, 1 ≤ n → getImportErrors (plans n) (jobs n).world.db (counts n).world.db (c n).world.db
        job.clientId id n limit = .ok (page n)) ∧
      ∀ k, 1 ≤ k → (∀ n, 1 ≤ n → n < k → (page n).items.length = limit) →
        let items := (List.range' 1 k).flatMap fun n => (page n).items
        items = (((c k).world.db.errorsOf id).take (k * limit)).map ImportError.item ∧
          items.Pairwise fun x y => x.row < y.row := by
  have hcall : ∀ n, 1 ≤ n → (workers py files).Reaches Sequential (jobs n) (c n) :=
    fun n hn => (hcounts n hn).trans (hpages n hn)
  have hlater : ∀ m n, 1 ≤ m → m ≤ n →
      (workers py files).Reaches Sequential (jobs m) (jobs n) := by
    intro m n hm hmn
    induction n, hmn using Nat.le_induction with
    | base => exact .refl
    | succ n hmn ih =>
      have hn := hm.trans hmn
      exact ih.trans ((hcall n hn).trans (hjobs n hn))
  have hfront : ∀ m n, 1 ≤ m → m ≤ n →
      (c m).world.db.errorsOf id <+: (c n).world.db.errorsOf id := by
    intro m n hm hmn
    rcases hmn.eq_or_lt with rfl | hlt
    · exact List.prefix_rfl
    · exact (prefix_errors_reaches ((hjobs m hm).trans ((hlater (m + 1) n (Nat.le_succ_of_le hm)
        hlt).trans (hcall n (hm.trans hmn))))).filter _
  refine ⟨fun n => ⟨(Paging.page limit n ((plans n).orderBy ImportError.rowNumber
    ((c n).world.db.errorsOf id))).map ImportError.item, n, limit,
    ((counts n).world.db.errorsOf id).length⟩, fun n hn => ?_, fun k hk hfull => ?_⟩
  · obtain ⟨row, hrow, hsame, -⟩ := accounted_reaches hw hnone hstart (hlater 1 n le_rfl hn) hjob
    rw [← hsame.clientId]
    exact getImportErrors_of_job hrow (plans n) _ _ hn hlow hhigh
  · obtain ⟨row, hrow, -, hacc, -⟩ := accounted_reaches hw hnone hstart
      ((hlater 1 k le_rfl hk).trans (hcall k hk)) hjob
    have hlt : ((c k).world.db.errorsOf id).Pairwise fun x y => x.rowNumber < y.rowNumber := by
      rw [← Db.id_of_job hrow]
      exact List.pairwise_map.mp hacc.ordered
    have hlength : ∀ n, 1 ≤ n → n < k → n * limit ≤ ((c n).world.db.errorsOf id).length := by
      intro n h1 hn
      have hpage := hfull n h1 hn
      rw [List.length_map] at hpage
      have hrows := (length_page_eq_limit_iff h1 hlow).mp hpage
      rwa [((plans n).sorted_orderBy _ _).perm.length_eq] at hrows
    have hall := livePages_eq_take plans (fun n => (c n).world.db.errorsOf id)
      (fun n h1 hn => hfront n k h1 hn) hlt hlength
    have hitems := List.map_flatMap.symm.trans (congrArg (List.map ImportError.item) hall)
    refine ⟨hitems, ?_⟩
    dsimp only
    rw [hitems, List.pairwise_map]
    exact hlt.sublist (List.take_sublist _ _)

/-- The first page is read after the crash and the second one after the import: each of the two
records is on one of them. -/
theorem sample_error_pages :
    ∃ (c : ℕ → WorkerPool) (page : ℕ → ImportErrorPage),
      ((c 1).world.db.errorsOf sampleId).length = 1 ∧
      (∀ n, 1 ≤ n → getImportErrors ⟨List.reverse, List.reverse_perm⟩ (c n).world.db (c n).world.db
        (c n).world.db sampleClient sampleId n 1 = .ok (page n)) ∧
      ((List.range' 1 2).flatMap fun n => (page n).items) =
        ((c 2).world.db.errorsOf sampleId).map ImportError.item := by
  obtain ⟨a, d, job, ha, hd, hjob, hclient, -, hlen, hlen'⟩ := sampleEmptyRows_growing
  obtain ⟨c, hc1, hc⟩ : ∃ c : ℕ → WorkerPool, c 1 = a ∧ ∀ n, 2 ≤ n → c n = d :=
    ⟨fun n => if n = 1 then a else d, if_pos rfl, fun n hn => if_neg (by omega)⟩
  have hstep : ∀ n, 1 ≤ n → (workers .ascii (sampleFiles sampleEmptyRows)).Reaches Sequential
      (c n) (c (n + 1)) := by
    intro n hn
    rw [hc (n + 1) (by omega)]
    rcases hn.eq_or_lt with rfl | hlt
    · rw [hc1]
      exact hd
    · rw [hc n hlt]
      exact .refl
  obtain ⟨page, hpage, hall⟩ := error_pages_while_importing .ascii (sampleFiles sampleEmptyRows)
    Unstarted.sampleWorld (fun _ _ _ e he => by cases he) (hc1 ▸ ha) (fun _ _ => .refl)
    (fun _ _ => .refl) hstep (hc1 ▸ hjob) (fun _ => ⟨List.reverse, List.reverse_perm⟩) le_rfl
    (by decide)
  have hfull : (page 1).items.length = 1 := by
    have hfirst := hpage 1 le_rfl
    rw [hc1, getImportErrors_of_job hjob _ _ _ le_rfl le_rfl (by decide)] at hfirst
    rw [← Except.ok.inj hfirst, List.length_map]
    refine (length_page_eq_limit_iff le_rfl le_rfl).mpr ?_
    rw [(Plan.sorted_orderBy _ _ _).perm.length_eq, hlen]
  refine ⟨c, page, by rw [hc1]; exact hlen, hclient ▸ hpage, ?_⟩
  obtain ⟨hitems, -⟩ := hall 2 (by decide) fun n h1 hlt => by
    obtain rfl : n = 1 := by omega
    exact hfull
  rw [hitems, List.take_of_length_le]
  rw [hc 2 le_rfl]
  exact hlen'.le

end TransactionPlatform
