import TransactionPlatform.Worker.Resume

/-!
# The error report of a resumed import

The ids that make a row a duplicate within its file, `seen_in_file`, live in the memory of one
attempt, while the checkpoint is persistent.  An attempt that resumes behind a checkpoint does not
know the ids of the rows before it, so it takes the repetition of such an id for a new row.
`Unsplit` says that this does not happen at a checkpoint; `resumed_report_eq_uninterrupted` shows
that an import which only resumes at such checkpoints leaves the report of one uninterrupted
attempt.
-/

namespace TransactionPlatform

open Interleaved KeyedTable

section Report

variable (py : Python) (rows : List Row) (job₀ : ImportJob)

/-- No accepted row behind the row `n` repeats the id of an accepted row up to it. -/
def Unsplit (n : ℕ) : Prop :=
  ∀ x ∈ accepted py job₀.id rows job₀.lastCommittedRow n,
    ∀ y ∈ accepted py job₀.id rows n rows.length, x.transactionId ≠ y.transactionId

instance (n : ℕ) : Decidable (Unsplit py rows job₀ n) :=
  inferInstanceAs (Decidable (∀ x ∈ accepted py job₀.id rows job₀.lastCommittedRow n,
    ∀ y ∈ accepted py job₀.id rows n rows.length, x.transactionId ≠ y.transactionId))

/-- The records up to the checkpoint of `job` are those of one attempt that started from `job₀`,
when the table held the records `errors₀`. -/
def Recorded (errors₀ : List ImportError) (db : Db) (job : ImportJob) : Prop :=
  db.errors = errors₀ ++
    reported py job₀.id rows job₀.lastCommittedRow job₀.lastCommittedRow job.lastCommittedRow

/-- What an attempt knows about the checkpoint it started behind. -/
def RecordedAt : Phase → Prop
  | .start job => Unsplit py rows job₀ job.lastCommittedRow
  | .scan _ base => Unsplit py rows job₀ base
  | _ => True

end Report

variable {py : Python} {files : String → Option Csv} {t : Attempt} {db : Db} {rows : List Row}
variable {table₀ : List Transaction} {errors₀ : List ImportError} {job₀ job : ImportJob}

/-- Where the attempts begin nothing is split. -/
theorem unsplit_start (py : Python) (rows : List Row) (job₀ : ImportJob) :
    Unsplit py rows job₀ job₀.lastCommittedRow := by
  intro x hx
  rw [accepted_self] at hx
  cases hx

/-- Behind an unsplit checkpoint a resumed attempt finds the duplicates of an uninterrupted one. -/
theorem reported_eq_of_unsplit {base last n : ℕ} (h : Unsplit py rows job₀ base)
    (hbase : job₀.lastCommittedRow ≤ base) (hlast : base ≤ last) :
    reported py job₀.id rows base last n =
      reported py job₀.id rows job₀.lastCommittedRow last n := by
  unfold reported
  refine List.filterMap_congr fun i hi => ?_
  have hbi : base ≤ i := hlast.trans (List.mem_range'_1.mp hi).1
  unfold reportedRow
  cases hrow : rows[i]? with
  | none => rw [Option.bind_none, Option.bind_none]
  | some row =>
    obtain ⟨hlen, -⟩ := List.getElem?_eq_some_iff.mp hrow
    rw [Option.bind_some, Option.bind_some]
    refine errorRecord_congr fun v hv => ?_
    rw [← accepted_append hbase hbi, List.map_append, List.mem_append]
    refine ⟨.inr, fun hmem => hmem.resolve_left fun hold => ?_⟩
    -- the row would repeat an id from before the checkpoint
    obtain ⟨x, hx, hid⟩ := List.mem_map.mp hold
    exact h x hx _ (mem_accepted_of_row hbi hlen hrow hv) hid

/-- A commit that inserts no record and does not move the checkpoint. -/
theorem Recorded.assign {db' : Db} {job' : ImportJob} (h : Recorded py rows job₀ errors₀ db job)
    (herrors : db'.errors = db.errors) (hlast : job'.lastCommittedRow = job.lastCommittedRow) :
    Recorded py rows job₀ errors₀ db' job' := by
  unfold Recorded
  rw [herrors, hlast]
  exact h

/-- A commit of a batch brings the records up to the next checkpoint. -/
theorem Recorded.batch {base : ℕ} {b : Batch} (h : Recorded py rows job₀ errors₀ db job)
    (hid : job.id = job₀.id) (hbase : job₀.lastCommittedRow ≤ base)
    (hunsplit : Unsplit py rows job₀ base)
    (hb : Buffered py job.id rows base job.lastCommittedRow b) :
    Recorded py rows job₀ errors₀ ((Session.mk job job b.work false).commitDb db)
      ((Session.mk job job b.work false).commitJob db) := by
  have herrors : b.errors =
      reported py job₀.id rows job₀.lastCommittedRow job.lastCommittedRow b.rowNumber := by
    rw [hb.errors_eq, hid]
    exact reported_eq_of_unsplit hunsplit hbase hb.base_le
  have hnew : ((Session.mk job job b.work false).commitDb db).errors = db.errors ++ b.errors := by
    simp only [Session.commitDb, Batch.work, Session.transaction_batch]
    rfl
  have hlast : ((Session.mk job job b.work false).commitJob db).lastCommittedRow = b.rowNumber := by
    simp only [Session.commitJob, Batch.work, Session.transaction_batch]
    rfl
  unfold Recorded
  rw [hnew, hlast, herrors, h, List.append_assoc]
  exact congrArg (errors₀ ++ ·) (perRow_append (hbase.trans hb.base_le) hb.last_le)

/-- What a commit does to the report. -/
theorem recorded_commit {csv : Csv} {a : Phase} {s : Session} {cont : ImportJob → Phase}
    (hcsv : files job₀.storagePath = some csv) (hc : Commits py files t a s cont)
    (hcheck : Checkpoint py csv table₀ job₀ db.transactions s.saved)
    (hresume : ResumeAt job₀ t a) (h : Recorded py csv.rows job₀ errors₀ db s.saved)
    (hfact : RecordedAt py csv.rows job₀ a) :
    Recorded py csv.rows job₀ errors₀ (s.commitDb db) (s.commitJob db) ∧
      RecordedAt py csv.rows job₀ (cont (s.commitJob db)) := by
  cases hc with
  | giveUp hid => exact ⟨h.assign rfl rfl, trivial⟩
  | start hid => exact ⟨h.assign rfl rfl, hfact⟩
  | @batch job base csv' b hid hcsv' hcol hb hlt hfits =>
    have hpath : files job.storagePath = some csv := by
      rw [hcheck.storagePath]
      exact hcsv
    rw [hcsv'] at hpath
    cases hpath
    exact ⟨h.batch hcheck.id_eq hresume.2 hfact hb, hfact⟩
  | finish hid hcsv' hcol hlen hend => exact ⟨h.assign rfl rfl, trivial⟩
  | reject hid hcsv' hcol => exact ⟨h.assign rfl rfl, trivial⟩
  | handle hid =>
    change s = (Session.opened s.saved).requeue at hresume
    rw [hresume]
    exact ⟨h.assign rfl rfl, trivial⟩

/-- A move without effect on the tables; the job is loaded at an unsplit checkpoint. -/
theorem recorded_quiet {o : WorkerOp} {f : Fault} {a a' : Phase}
    (hq : Quiet py files t o f db a a')
    (hload : o = .selectJob t.importJobId → f = .ok → a = .unread →
      ∀ job, db.job t.importJobId = some job → Unsplit py rows job₀ job.lastCommittedRow)
    (hfact : RecordedAt py rows job₀ a) : RecordedAt py rows job₀ a' := by
  cases hq with
  | load =>
    rcases Phase.loaded_cases (db.job t.importJobId) with ⟨ha, -⟩ | ⟨job, ha, -⟩ | ⟨job, ha, hjob, -⟩
    · rw [ha]
      trivial
    · rw [ha]
      trivial
    · rw [ha]
      exact hload rfl rfl rfl job hjob
  | stay => exact hfact
  | fail hr => cases hr <;> trivial
  | finish => trivial
  | unacked hid hf => trivial

/-! ### An uninterrupted attempt -/

/-- What holds along an attempt in which nothing fails, the report included. -/
structure SmoothReport (py : Python) (csv : Csv) (db₀ : Db) (job₀ : ImportJob) (t : Attempt)
    (db : Db) (a : Phase) : Prop extends Smooth py csv db₀.transactions job₀ t db a where
  recorded : ∀ job, db.job job₀.id = some job → Recorded py csv.rows job₀ db₀.errors db job
  unsplit : RecordedAt py csv.rows job₀ a

/-- One move of an attempt in which nothing fails. -/
theorem SmoothReport.move {csv : Csv} {db₀ : Db} {o : WorkerOp} {w w' : World} {a a' : Phase}
    (h : SmoothReport py csv db₀ job₀ t w.db a) (ht : t.importJobId = job₀.id)
    (hst : job₀.status ≠ .COMPLETED) (hretry : job₀.retryCount < maxRetries)
    (hcsv : files job₀.storagePath = some csv) (himport : ImportableFrom py csv job₀)
    (hmove : Move py files t o .ok w a w' a') : SmoothReport py csv db₀ job₀ t w'.db a' := by
  have hsmooth := h.toSmooth.move ht hst hretry hcsv himport hmove
  rcases hmove.db_cases with ⟨hdb, hq⟩ | ⟨s, cont, -, hc, hdb, hnext⟩
  · refine ⟨hsmooth, ?_, ?_⟩
    · rw [hdb]
      exact h.recorded
    · refine recorded_quiet hq (fun _ _ ha job hjob => ?_) h.unsplit
      -- the job that is loaded is the first one
      have hfirst := h.smooth
      rw [ha] at hfirst
      rw [ht, hfirst] at hjob
      cases hjob
      exact unsplit_start py csv.rows job₀
  · obtain ⟨hhold, -, -⟩ := hc.holding
    have hrow : w.db.job job₀.id = some s.saved := by
      rw [← ht]
      exact h.exact _ hhold
    obtain ⟨hnew, -⟩ := h.exact.commit hc
    obtain ⟨hrec, hphase⟩ := recorded_commit hcsv hc (h.checkpoint _ hrow) h.resume
      (h.recorded _ hrow) h.unsplit
    refine ⟨hsmooth, fun job hjob => ?_, ?_⟩
    · rw [hdb] at hjob ⊢
      rw [← ht, hnew] at hjob
      cases hjob
      exact hrec
    · rcases hnext with ⟨-, rfl⟩ | ⟨hf, -⟩
      · exact hphase
      · cases hf

/-- Where an attempt begins in which nothing will fail. -/
theorem SmoothReport.start {csv : Csv} (py : Python) (hjob : db.job job₀.id = some job₀)
    (hst : job₀.status ≠ .COMPLETED) {a : Phase} (hexact : Exact t db a)
    (hresume : ResumeAt job₀ t a) (hsmooth : SmoothAt job₀ db a)
    (hunsplit : RecordedAt py csv.rows job₀ a) : SmoothReport py csv db job₀ t db a := by
  refine ⟨⟨fun job hrow => ?_, hexact, hresume, hsmooth⟩, fun job hrow => ?_, hunsplit⟩
  · rw [hjob] at hrow
    cases hrow
    exact Checkpoint.start py csv db.transactions hst
  · rw [hjob] at hrow
    cases hrow
    unfold Recorded
    rw [reported, perRow_self, List.append_nil]

/-- The report of an uninterrupted attempt. -/
theorem uninterrupted_reports {csv : Csv} {w : World} (hjob : w.db.job job₀.id = some job₀)
    (hst : job₀.status ≠ .COMPLETED) (hretry : job₀.retryCount < maxRetries)
    (hcsv : files job₀.storagePath = some csv) (himport : ImportableFrom py csv job₀)
    (batchSize entry : ℕ) :
    let u := ((processEntry py batchSize entry job₀.id).runAll (WorkerOp.exec files) .ok w).1
    ∃ job, u.db.job job₀.id = some job ∧ job.status = .COMPLETED ∧
      Checkpoint py csv w.db.transactions job₀ u.db.transactions job ∧
      Recorded py csv.rows job₀ w.db.errors u.db job := by
  intro u
  have hstart : SmoothReport py csv w.db job₀ ⟨job₀.id, entry, batchSize⟩ w.db .unread :=
    .start py hjob hst (exact_of_none rfl) trivial hjob trivial
  obtain ⟨a, ha, hended⟩ := (processEntry_follows py files ⟨job₀.id, entry, batchSize⟩).runAll
    (f := .ok) (J := fun w' a => SmoothReport py csv w.db job₀ ⟨job₀.id, entry, batchSize⟩ w'.db a)
    hstart fun o w' a w'' a' h hmove => h.move rfl hst hretry hcsv himport hmove
  have hsmooth := ha.smooth
  rw [hended] at hsmooth
  obtain ⟨-, job, hrow, hdone⟩ := hsmooth
  exact ⟨job, hrow, hdone, ha.checkpoint job hrow, ha.recorded job hrow⟩

/-! ### Interrupted attempts -/

/-- The events of a sequence of attempts at one job that load it at unsplit checkpoints only. -/
def ResumesUnsplit (py : Python) (rows : List Row) (job₀ : ImportJob) (c : WorkerPool)
    (e : WorkerEvent) : Prop :=
  AttemptsAt job₀.id c e ∧
  match e with
  | .run i .ok => ∀ p ∈ c.procs[i]?, ∀ k, p.prog = some (.call (.selectJob job₀.id) k) →
      ∀ job, c.world.db.job job₀.id = some job → Unsplit py rows job₀ job.lastCommittedRow
  | _ => True

theorem reportRule {csv : Csv} (py : Python) (db₀ : Db)
    (hcsv : files job₀.storagePath = some csv) :
    ExclusiveRule py files
      (fun c e => (ResumesUnsplit py csv.rows job₀ c e ∧ AllAt job₀.id c) ∧
        System.Exclusive Attempt.importJobId c)
      (fun db job => job.id = job₀.id →
        Checkpoint py csv db₀.transactions job₀ db.transactions job ∧
          Recorded py csv.rows job₀ db₀.errors db job)
      (fun t a => ResumeAt job₀ t a ∧ RecordedAt py csv.rows job₀ a) (fun _ _ => True)
      (fun t o f db a => NotRefused t o f db a ∧ t.importJobId = job₀.id ∧
        (o = .selectJob t.importJobId → f = .ok → a = .unread →
          ∀ job, db.job t.importJobId = some job →
            Unsplit py csv.rows job₀ job.lastCommittedRow)) where
  exclusive c e hC := hC.2
  allowed c i t o k f a hC hi _ := by
    obtain ⟨id, entry, size⟩ := t
    have ht : id = job₀.id := hC.1.2 _ (List.mem_of_getElem? hi)
    refine ⟨hC.1.1.1.1.2 _ (Option.mem_def.mpr hi) o k rfl, ht, fun ho hf _ job hjob => ?_⟩
    subst ht ho hf
    exact hC.1.1.2 _ (Option.mem_def.mpr hi) k rfl job hjob
  quiet t o f db a a' hallow hq _ _ hfact :=
    ⟨resume_quiet hallow.1 hq hfact.1, recorded_quiet hq hallow.2.2 hfact.2⟩
  commit t f db a s cont hallow hc hrow h hfact := by
    obtain ⟨hcheck, hrec⟩ := h ((Db.id_of_job hrow).trans hallow.2.1)
    obtain ⟨h1, h2⟩ := resume_commit hcsv hc hcheck hfact.1
    obtain ⟨h3, h4⟩ := recorded_commit hcsv hc hcheck hfact.1 hrec hfact.2
    exact ⟨fun _ => ⟨h1, h3⟩, trivial, h2, h4⟩
  frame t f db a s cont hallow hc hfact row hne h hid := absurd (hid.trans hallow.2.1.symm) hne
  create c id client name path key hC hunused :=
    ⟨fun hid => absurd hid hC.1.1.1.2, fun row h => h⟩
  unread _ := ⟨trivial, trivial⟩
  ended _ _ := ⟨trivial, trivial⟩
  refl _ := trivial
  trans _ _ _ _ _ := trivial

/-! ### One record a row -/

/-- A record carries the job and the number of its row. -/
theorem reportedRow_fields {jobId : Uuid} {base i : ℕ} {e : ImportError}
    (h : reportedRow py jobId rows base i = some e) :
    e.importJobId = jobId ∧ e.rowNumber = i + 1 := by
  obtain ⟨row, -, hrec⟩ := Option.bind_eq_some_iff.mp h
  unfold errorRecord at hrec
  split at hrec
  · cases hrec
  · cases hrec
    exact ⟨rfl, rfl⟩
  · split at hrec
    · cases hrec
      exact ⟨rfl, rfl⟩
    · cases hrec

/-- The record of a row, picked out of the report by the number of the row. -/
theorem filter_reported {jobId : Uuid} {base i n : ℕ} (hi : i < n) :
    (reported py jobId rows base 0 n).filter
        (fun e => decide (e.importJobId = jobId ∧ e.rowNumber = i + 1)) =
      (reportedRow py jobId rows base i).toList := by
  -- no row of another interval has this number
  have hother : ∀ k m, (m ≤ i ∨ i < k) → (perRow (reportedRow py jobId rows base) k m).filter
      (fun e => decide (e.importJobId = jobId ∧ e.rowNumber = i + 1)) = [] := by
    intro k m hkm
    rw [List.filter_eq_nil_iff]
    intro e he hdec
    obtain ⟨j, hj, hrec⟩ := List.mem_filterMap.mp he
    have hnum := (reportedRow_fields hrec).2
    have hnum' := (of_decide_eq_true hdec).2
    have hrange := List.mem_range'_1.mp hj
    omega
  rw [reported, ← perRow_append (Nat.zero_le (i + 1)) (Nat.succ_le_of_lt hi),
    perRow_succ (Nat.zero_le i), List.filter_append, List.filter_append, hother 0 i (.inl le_rfl),
    hother (i + 1) n (.inr (Nat.lt_succ_self i)), List.append_nil, List.nil_append]
  cases hrec : reportedRow py jobId rows base i with
  | none => rfl
  | some e =>
    have hfields := reportedRow_fields hrec
    simp only [Option.toList_some, List.filter_cons, hfields, and_self, decide_true, if_true,
      List.filter_nil]

/-- The row is recorded as a repetition of an earlier accepted row. -/
theorem reportedRow_of_repeated {jobId : Uuid} {i j : ℕ} {row row' : Row} {v v' : ValidRow}
    (hrow : rows[i]? = some row) (hv : py.validateRow row (i + 1) = .accepted v) (hj : j < i)
    (hrow' : rows[j]? = some row') (hv' : py.validateRow row' (j + 1) = .accepted v')
    (hsame : v'.transactionId = v.transactionId) :
    reportedRow py jobId rows 0 i = some ⟨jobId, i + 1, some v.transactionId,
      "duplicate transaction_id within this file"⟩ := by
  have hseen : v.transactionId ∈
      (accepted py jobId rows 0 i).map Transaction.transactionId :=
    List.mem_map.mpr ⟨_, mem_accepted_of_row (Nat.zero_le j) hj hrow' hv', hsame⟩
  rw [reportedRow, hrow, Option.bind_some, errorRecord, hv]
  exact if_pos hseen

/-- However often the import of a fresh job is cut off, if every attempt starts at a checkpoint that
separates no two accepted rows with one id, and the import completes in the end, then the report is
that of one uninterrupted attempt; in particular every repeated id has its one record. -/
theorem resumed_report_eq_uninterrupted (py : Python) (files : String → Option Csv) {w : World}
    {csv : Csv} (hjob : w.db.job job₀.id = some job₀) (hfresh : job₀.lastCommittedRow = 0)
    (hnone : ∀ e ∈ w.db.errors, e.importJobId ≠ job₀.id) (hst : job₀.status ≠ .COMPLETED)
    (hretry : job₀.retryCount < maxRetries) (hcsv : files job₀.storagePath = some csv)
    (hcol : csv.missingColumns = []) {d : WorkerPool}
    (hd : (workers py files).Reaches (ResumesUnsplit py csv.rows job₀) ⟨w, []⟩ d)
    (hdone : d.world.db.job job₀.id = some job) (hcomplete : job.status = .COMPLETED)
    (batchSize entry : ℕ) :
    let u := ((processEntry py batchSize entry job₀.id).runAll (WorkerOp.exec files) .ok w).1
    d.world.db.errors = u.db.errors ∧
    ∀ (i j : ℕ) (row row' : Row) (v v' : ValidRow), csv.rows[i]? = some row →
      py.validateRow row (i + 1) = .accepted v → j < i → csv.rows[j]? = some row' →
      py.validateRow row' (j + 1) = .accepted v' → v'.transactionId = v.transactionId →
      d.world.db.errors.filter
          (fun e => decide (e.importJobId = job₀.id ∧ e.rowNumber = i + 1)) =
        [⟨job₀.id, i + 1, some v.transactionId, "duplicate transaction_id within this file"⟩] := by
  intro u
  obtain ⟨hd', -⟩ := hd.strengthen (P := AllAt job₀.id) (fun p hp => by cases hp)
    fun _ _ _ h he hn => h.next he.1 hn
  have hstart : Recorded py csv.rows job₀ w.db.errors w.db job₀ := by
    unfold Recorded
    rw [reported, perRow_self, List.append_nil]
  obtain ⟨hinv, -⟩ := (reportRule py w.db hcsv).reaches (fun _ _ he => he.1.1.1.1)
    (fun id row hrow hid => by
      rw [Db.id_of_job hrow] at hid
      subst hid
      rw [hjob] at hrow
      cases hrow
      exact ⟨Checkpoint.start py csv w.db.transactions hst, hstart⟩) .refl hd'
  obtain ⟨hcheck, hrec⟩ := hinv job₀.id job hdone (Db.id_of_job hdone)
  obtain ⟨-, hlen, -⟩ := hcheck.completed hcomplete
  obtain ⟨job', hjob', hst', hcheck', hrec'⟩ := uninterrupted_reports hjob hst hretry hcsv
    (hcheck.importable hcol hcomplete) batchSize entry
  obtain ⟨-, hsame, -⟩ := hcheck.eq_of_completed hcheck' hcomplete hst'
  refine ⟨?_, fun i j row row' v v' hrow hv hj hrow' hv' hid => ?_⟩
  · unfold Recorded at hrec hrec'
    rw [hrec, hrec', hsame.last]
  · obtain ⟨hlt, -⟩ := List.getElem?_eq_some_iff.mp hrow
    have hold : w.db.errors.filter
        (fun e => decide (e.importJobId = job₀.id ∧ e.rowNumber = i + 1)) = [] := by
      rw [List.filter_eq_nil_iff]
      intro e he hdec
      exact hnone e he (of_decide_eq_true hdec).1
    unfold Recorded at hrec
    rw [hrec, hfresh, List.filter_append, hold, List.nil_append,
      filter_reported (hlt.trans_le hlen), reportedRow_of_repeated hrow hv hj hrow' hv' hid]
    rfl

/-- A test for `ResumesUnsplit`. -/
def ResumesUnsplit.test (py : Python) (rows : List Row) (job₀ : ImportJob) (c : WorkerPool)
    (e : WorkerEvent) : Bool :=
  AttemptsAt.test job₀.id c e &&
  match e with
  | .run _ .ok => (c.world.db.job job₀.id).all fun job => Unsplit py rows job₀ job.lastCommittedRow
  | _ => true

theorem ResumesUnsplit.of_test {c : WorkerPool} {e : WorkerEvent}
    (h : ResumesUnsplit.test py rows job₀ c e = true) : ResumesUnsplit py rows job₀ c e := by
  obtain ⟨h1, h2⟩ := Bool.and_eq_true_iff.mp h
  refine ⟨AttemptsAt.of_test h1, ?_⟩
  cases e with
  | run i f =>
    cases f with
    | ok =>
      intro p _ k _ job hjob
      rw [hjob, Option.all_some, decide_eq_true_eq] at h2
      exact h2
    | rejected => trivial
    | failed => trivial
    | lost => trivial
  | crash i => trivial
  | arrive x => trivial

/-- A file whose first row is empty and whose other two rows have one id. -/
def sampleRepeated : Csv := ⟨requiredColumns, [[], sampleRow, sampleRow], false⟩

/-- The import of this file is cut off behind its first row. -/
theorem sampleRepeated_attempts :
    ((workers .ascii (sampleFiles sampleRepeated)).perform
      (ResumesUnsplit.test .ascii sampleRepeated.rows sampleJob) ⟨sampleWorld, []⟩
      (sampleCrash ++ .arrive (.deliver 0 5) :: runs 1 15)).bind (fun d =>
        (d.world.db.job sampleJob.id).map ImportJob.status) = some .COMPLETED := by
  decide +kernel

theorem sample_report_eq_uninterrupted :
    ∃ (d : WorkerPool) (job : ImportJob),
      (workers .ascii (sampleFiles sampleRepeated)).Reaches
        (ResumesUnsplit .ascii sampleRepeated.rows sampleJob) ⟨sampleWorld, []⟩ d ∧
      d.world.db.job sampleJob.id = some job ∧ job.status = .COMPLETED ∧
      d.world.db.errors = ((processEntry .ascii 2 0 sampleJob.id).runAll
        (WorkerOp.exec (sampleFiles sampleRepeated)) .ok sampleWorld).1.db.errors := by
  obtain ⟨d, hd, hout⟩ := Option.bind_eq_some_iff.mp sampleRepeated_attempts
  obtain ⟨job, hjob, hst⟩ := Option.map_eq_some_iff.mp hout
  have hd' := System.reaches_of_perform (C := ResumesUnsplit .ascii sampleRepeated.rows sampleJob)
    (fun _ _ => ResumesUnsplit.of_test) hd
  have hrow : sampleWorld.db.job sampleJob.id = some sampleJob := by decide +kernel
  have hcol : sampleRepeated.missingColumns = [] := by decide +kernel
  obtain ⟨herrors, -⟩ := resumed_report_eq_uninterrupted .ascii (sampleFiles sampleRepeated) hrow
    rfl (by rintro e ⟨⟩) (by decide) (by decide) (if_pos rfl) hcol hd' hjob hst 2 0
  exact ⟨d, job, hd', hjob, hst, herrors⟩

/-- A file with two rows of one id. -/
def sampleSplit : Csv := ⟨requiredColumns, [sampleRow, sampleRow], false⟩

/-- Cut off between its rows, the import of this file reports nothing, while one attempt reports the
second row. -/
theorem duplicate_across_checkpoint_unreported :
    ∃ (d : WorkerPool) (job : ImportJob),
      (workers .ascii (sampleFiles sampleSplit)).Reaches (AttemptsAt sampleJob.id)
        ⟨sampleWorld, []⟩ d ∧
      d.world.db.job sampleJob.id = some job ∧ job.status = .COMPLETED ∧ d.world.db.errors = [] ∧
      ((processEntry .ascii 1 0 sampleJob.id).runAll (WorkerOp.exec (sampleFiles sampleSplit)) .ok
        sampleWorld).1.db.errors =
        [⟨sampleId, 2, some "T1", "duplicate transaction_id within this file"⟩] := by
  have hrun : ((workers .ascii (sampleFiles sampleSplit)).perform (AttemptsAt.test sampleJob.id)
      ⟨sampleWorld, []⟩ (sampleCrash ++ .arrive (.deliver 0 1) :: runs 1 13)).bind (fun d =>
        (d.world.db.job sampleJob.id).map fun job => (job.status, d.world.db.errors)) =
      some (.COMPLETED, []) := by decide +kernel
  obtain ⟨d, hd, hout⟩ := Option.bind_eq_some_iff.mp hrun
  obtain ⟨job, hjob, heq⟩ := Option.map_eq_some_iff.mp hout
  have hst : job.status = .COMPLETED := congrArg Prod.fst heq
  have herrors : d.world.db.errors = [] := congrArg Prod.snd heq
  have hwhole : ((processEntry .ascii 1 0 sampleJob.id).runAll
      (WorkerOp.exec (sampleFiles sampleSplit)) .ok sampleWorld).1.db.errors =
      [⟨sampleId, 2, some "T1", "duplicate transaction_id within this file"⟩] := by decide +kernel
  have hreach := System.reaches_of_perform (C := AttemptsAt sampleJob.id)
    (fun _ _ => AttemptsAt.of_test) hd
  exact ⟨d, job, hreach, hjob, hst, herrors, hwhole⟩

end TransactionPlatform
