import TransactionPlatform.Worker.Counters

/-!
# A resumed import is an uninterrupted one

An import that is cut off any number of times and resumed with other batch sizes ends with the
transactions and the counters of one uninterrupted attempt.  The reason is that the committed state
is a function of the checkpoint alone: `Checkpoint` computes it from the state in which the attempts
began, without mentioning batches.  A resumed attempt forgets the ids it has seen before its
checkpoint, but these are in the table.
-/

namespace TransactionPlatform

open Interleaved KeyedTable

/-- The state committed at the checkpoint of `job`, when the attempts began with the transactions
`table₀` and the row `job₀`. -/
structure Checkpoint (py : Python) (csv : Csv) (table₀ : List Transaction)
    (job₀ : ImportJob) (table : List Transaction) (job : ImportJob) : Prop where
  id_eq : job.id = job₀.id
  storagePath : job.storagePath = job₀.storagePath
  base_le : job₀.lastCommittedRow ≤ job.lastCommittedRow
  bound : job.lastCommittedRow = job₀.lastCommittedRow ∨ job.lastCommittedRow ≤ csv.rows.length
  /-- The accepted rows up to the checkpoint have been inserted, in order. -/
  table_eq : table = insertAbsent Transaction.transactionId table₀
    (accepted py job₀.id csv.rows job₀.lastCommittedRow job.lastCommittedRow)
  successful : job.successfulRows + table₀.length = job₀.successfulRows + table.length
  failed : job.failedRows + table.length =
    job₀.failedRows + table₀.length + (job.lastCommittedRow - job₀.lastCommittedRow)
  processed : job.processedRows =
    if job.lastCommittedRow = job₀.lastCommittedRow then job₀.processedRows
    else job.lastCommittedRow
  completed : job.status = .COMPLETED →
    job.totalRows = some csv.rows.length ∧ csv.rows.length ≤ job.lastCommittedRow ∧
      csv.raises = false
  /-- No row up to the checkpoint makes `validate_row` raise. -/
  not_raised : ∀ (i : ℕ) (row : Row) (e : String), job₀.lastCommittedRow ≤ i →
    i < job.lastCommittedRow → csv.rows[i]? = some row → py.validateRow row (i + 1) ≠ .raised e
  /-- The client and the columns have taken what the rows up to the checkpoint leave. -/
  fits : ∀ i, job₀.lastCommittedRow ≤ i → i < job.lastCommittedRow →
    RowFits py job₀.id csv.rows job₀.lastCommittedRow i

variable {py : Python} {files : String → Option Csv} {t : Attempt} {db : Db} {csv : Csv}
variable {table₀ table : List Transaction} {job₀ job : ImportJob}

/-- The state in which the attempts begin. -/
theorem Checkpoint.start (py : Python) (csv : Csv) (table : List Transaction)
    (hst : job.status ≠ .COMPLETED) : Checkpoint py csv table job table job where
  id_eq := rfl
  storagePath := rfl
  base_le := Nat.le_refl _
  bound := .inl rfl
  table_eq := by simp
  successful := rfl
  failed := by omega
  processed := by simp
  completed hc := absurd hc hst
  not_raised i row e hi hi' := by omega
  fits i hi hi' := by omega

/-- An assignment that does not touch the counters. -/
theorem Checkpoint.assign (h : Checkpoint py csv table₀ job₀ table job) (current : ImportJob)
    (hsame : SameProgress job current)
    (hst : current.status = .COMPLETED →
      current.totalRows = some csv.rows.length ∧ csv.rows.length ≤ job.lastCommittedRow ∧
        csv.raises = false) :
    Checkpoint py csv table₀ job₀ table current where
  id_eq := hsame.id.trans h.id_eq
  storagePath := hsame.storagePath.trans h.storagePath
  base_le := by rw [hsame.last]; exact h.base_le
  bound := by rw [hsame.last]; exact h.bound
  table_eq := by rw [hsame.last]; exact h.table_eq
  successful := by rw [hsame.successful]; exact h.successful
  failed := by rw [hsame.failed, hsame.last]; exact h.failed
  processed := by rw [hsame.processed, hsame.last]; exact h.processed
  completed hc := by rw [hsame.last]; exact hst hc
  not_raised := by rw [hsame.last]; exact h.not_raised
  fits := by rw [hsame.last]; exact h.fits

/-- The ids an attempt has seen since it began are in the table. -/
theorem Checkpoint.seen {base : ℕ} (h : Checkpoint py csv table₀ job₀ table job)
    (hbase : job₀.lastCommittedRow ≤ base) (hle : base ≤ job.lastCommittedRow) :
    ∀ x ∈ accepted py job.id csv.rows base job.lastCommittedRow,
      HasKey Transaction.transactionId table x.transactionId := by
  intro x hx
  rw [h.table_eq]
  refine hasKey_insertAbsent ?_
  rw [← accepted_append hbase hle, ← h.id_eq]
  exact List.mem_append_right _ hx

/-- A commit of a batch leads to the state of the next checkpoint. -/
theorem Checkpoint.batch {base : ℕ} {b : Batch} {db : Db}
    (h : Checkpoint py csv table₀ job₀ db.transactions job)
    (hbase : job₀.lastCommittedRow ≤ base)
    (hb : Buffered py job.id csv.rows base job.lastCommittedRow b)
    (hlt : job.lastCommittedRow < b.rowNumber)
    (hfits : ∀ i, job.lastCommittedRow ≤ i → i < b.rowNumber → RowFits py job.id csv.rows base i)
    (hst : job.status ≠ .COMPLETED) :
    Checkpoint py csv table₀ job₀ ((Session.mk job job b.work false).commitDb db).transactions
      ((Session.mk job job b.work false).commitJob db) := by
  simp only [Session.commitDb, Session.commitJob, Batch.work, Session.transaction_batch]
  -- the new table, as an insert into the first one
  have htable : insertAbsent Transaction.transactionId db.transactions b.valid =
      insertAbsent Transaction.transactionId table₀
        (accepted py job₀.id csv.rows job₀.lastCommittedRow b.rowNumber) := by
    rw [hb.insert_valid _ (h.seen hbase hb.base_le), h.id_eq,
      ← accepted_append h.base_le hb.last_le, insertAbsent_append, ← h.table_eq]
  obtain ⟨added, heq, hsub⟩ :=
    insertAbsent_eq_append Transaction.transactionId db.transactions b.valid
  have hlen : (insertAbsent Transaction.transactionId db.transactions b.valid).length =
      db.transactions.length + added.length := by rw [heq, List.length_append]
  have hadded := hsub.length_le
  have hcount : insertedCount db.transactions b.valid = added.length := by
    rw [insertedCount, hlen, Nat.add_sub_cancel_left]
  have hrows := hb.length_eq
  have hlast := hb.last_le
  have hbase' := h.base_le
  have hsucc := h.successful
  have hfail := h.failed
  have hnew : ((db.inserted b.valid b.errors).updateJob job.id
      (ImportJob.writeProgress (job.advanced b.valid.length b.errors.length b.rowNumber
        (insertedCount db.transactions b.valid)))).transactions =
      insertAbsent Transaction.transactionId db.transactions b.valid := rfl
  rw [hnew]
  refine ⟨h.id_eq, h.storagePath, hbase'.trans hlast, .inr hb.rowNumber_le, htable, ?_, ?_, ?_,
    fun hc => absurd hc hst, ?_, ?_⟩
  · simp only [ImportJob.advanced, hcount]
    omega
  · simp only [ImportJob.advanced, hcount]
    omega
  · exact (if_neg (show b.rowNumber ≠ job₀.lastCommittedRow by omega)).symm
  · intro i row e hi hi' hrow
    by_cases hlt : i < job.lastCommittedRow
    · exact h.not_raised i row e hi hlt hrow
    · exact hb.not_raised i row e (hb.base_le.trans (by omega)) hi' hrow
  · intro i hi hi'
    by_cases hlt : i < job.lastCommittedRow
    · exact h.fits i hi hlt
    · have hlast' : job.lastCommittedRow ≤ i := Nat.le_of_not_lt hlt
      rw [← h.id_eq]
      exact (hfits i hlast' hi').of_le hbase (hb.base_le.trans hlast')

/-! ### Interrupted attempts -/

/-- The events of a sequence of attempts at one job: its entry is handed out while no attempt is
running, and no statement is refused by the client library.  Other jobs may be created, but are not
processed. -/
def AttemptsAt (id : Uuid) (c : WorkerPool) (e : WorkerEvent) : Prop :=
  Sequential c e ∧
  match e with
  | .arrive (.deliver entry _) => ∀ s id', c.world.stream.claim entry = some (s, id') → id' = id
  | .arrive (.create id' _ _ _ _) => id' ≠ id
  | _ => True

/-- What an attempt knows about its object: its loop began behind the first checkpoint. -/
def ResumeAt (job₀ : ImportJob) (t : Attempt) : Phase → Prop
  | .scan job base => CountersAt t (.scan job base) ∧ job₀.lastCommittedRow ≤ base
  | a => CountersAt t a

/-- What the file says about a job that was started from `job₀`. -/
def Resumed (py : Python) (csv : Csv) (table₀ : List Transaction) (job₀ : ImportJob) (db : Db)
    (job : ImportJob) : Prop :=
  job.id = job₀.id → Checkpoint py csv table₀ job₀ db.transactions job

theorem ResumeAt.counters {a : Phase} (h : ResumeAt job₀ t a) : CountersAt t a := by
  cases a with
  | scan job base => exact h.1
  | unread => exact h
  | giveUp job => exact h
  | start job => exact h
  | ackTry job => exact h
  | ack => exact h
  | handle s e => exact h
  | ended r => exact h

theorem resume_quiet {o : WorkerOp} {f : Fault} {a a' : Phase} (hallow : NotRefused t o f db a)
    (hq : Quiet py files t o f db a a') (hfact : ResumeAt job₀ t a) : ResumeAt job₀ t a' := by
  have hcount := counters_quiet hallow hq hfact.counters
  cases hq with
  | load =>
    rcases Phase.loaded_cases (db.job t.importJobId) with ⟨ha, -⟩ | ⟨job, ha, -⟩ | ⟨job, ha, -⟩
    · rw [ha]
      trivial
    · rw [ha]
      trivial
    · rw [ha]
      trivial
  | stay => exact hfact
  | fail hr =>
    cases hr with
    | load hf => trivial
    | server => trivial
    | insert hid hcsv hb hmem hvalid hout => exact hcount
    | update hid hcsv hb hout => exact hcount
    | openCsv hid hwhy => exact hcount
    | readRow hid hwhy => exact hcount
  | finish => trivial
  | unacked hid hf => exact hcount

theorem resume_commit {csv : Csv} {a : Phase} {s : Session} {cont : ImportJob → Phase}
    (hcsv : files job₀.storagePath = some csv) (hc : Commits py files t a s cont)
    (h : Checkpoint py csv table₀ job₀ db.transactions s.saved) (hfact : ResumeAt job₀ t a) :
    Checkpoint py csv table₀ job₀ (s.commitDb db).transactions (s.commitJob db) ∧
      ResumeAt job₀ t (cont (s.commitJob db)) := by
  have hfile : ∀ csv', files s.saved.storagePath = some csv' → csv' = csv := by
    intro csv' hcsv'
    rw [h.storagePath, hcsv] at hcsv'
    exact (Option.some.inj hcsv').symm
  cases hc with
  | @giveUp job time hid =>
    refine ⟨h.assign (job.givenUp time) ⟨rfl, rfl, rfl, rfl, rfl, rfl⟩ fun hst => ?_, trivial⟩
    cases hst
  | @start job startedAt hid =>
    refine ⟨h.assign { job with startedAt := startedAt, status := .PROCESSING }
      ⟨rfl, rfl, rfl, rfl, rfl, rfl⟩ fun hst => ?_, fun hst => ?_, h.base_le⟩
    · cases hst
    · cases hst
  | @batch job base csv' b hid hcsv' hcol hb hlt hfits =>
    cases hfile csv' hcsv'
    refine ⟨h.batch hfact.2 hb hlt hfits hfact.1, ?_, hfact.2⟩
    simp only [CountersAt, Session.commitJob, Batch.work, Session.transaction_batch]
    exact hfact.1
  | @finish job base time csv' hid hcsv' hcol hlen hend =>
    cases hfile csv' hcsv'
    exact ⟨h.assign (job.completed csv.rows.length time) ⟨rfl, rfl, rfl, rfl, rfl, rfl⟩
      fun _ => ⟨rfl, hlen, hend⟩, trivial⟩
  | @reject job base time csv' hid hcsv' hcol =>
    refine ⟨h.assign (job.rejected py csv' time) ⟨rfl, rfl, rfl, rfl, rfl, rfl⟩ fun hst => ?_,
      trivial⟩
    cases hst
  | handle hid =>
    change s = (Session.opened s.saved).requeue at hfact
    rw [hfact]
    refine ⟨h.assign s.saved.requeued ⟨rfl, rfl, rfl, rfl, rfl, rfl⟩ fun hst => ?_, trivial⟩
    cases hst

/-- Every attempt of the pool is an attempt at the job. -/
def AllAt (id : Uuid) (c : WorkerPool) : Prop := System.Tagged (fun t => t.importJobId = id) c

theorem AllAt.next {id : Uuid} {c d : WorkerPool} {e : WorkerEvent} (h : AllAt id c)
    (he : AttemptsAt id c e) (hn : (workers py files).next c e = some d) : AllAt id d := by
  refine System.Tagged.next h ?_ hn
  rintro x w t p rfl hx
  obtain ⟨stream, rfl, hclaim, -, -⟩ := Arrival.deliver_of_apply hx
  exact he.2 stream t.importJobId hclaim

theorem resumeRule {csv : Csv} (py : Python) (table₀ : List Transaction)
    (hcsv : files job₀.storagePath = some csv) :
    ExclusiveRule py files
      (fun c e => (AttemptsAt job₀.id c e ∧ AllAt job₀.id c) ∧
        System.Exclusive Attempt.importJobId c)
      (Resumed py csv table₀ job₀) (ResumeAt job₀) (fun _ _ => True)
      (fun t o f db a => NotRefused t o f db a ∧ t.importJobId = job₀.id) where
  exclusive c e hC := hC.2
  allowed c i t o k f a hC hi _ :=
    ⟨hC.1.1.1.2 _ (Option.mem_def.mpr hi) o k rfl, hC.1.2 _ (List.mem_of_getElem? hi)⟩
  quiet t o f db a a' hallow hq _ _ hfact := resume_quiet hallow.1 hq hfact
  commit t f db a s cont hallow hc hrow h hfact := by
    obtain ⟨h1, h2⟩ := resume_commit hcsv hc (h ((Db.id_of_job hrow).trans hallow.2)) hfact
    exact ⟨fun _ => h1, trivial, h2⟩
  frame t f db a s cont hallow hc hfact row hne h hid := absurd (hid.trans hallow.2.symm) hne
  create c id client name path key hC hunused :=
    ⟨fun hid => absurd hid hC.1.1.2, fun row h => h⟩
  unread _ := trivial
  ended _ _ := trivial
  refl _ := trivial
  trans _ _ _ _ _ := trivial

/-! ### An uninterrupted attempt -/

/-- The phases of an attempt in which nothing fails. -/
def SmoothAt (job₀ : ImportJob) (db : Db) : Phase → Prop
  | .unread => db.job job₀.id = some job₀
  | .start job => job.lastCommittedRow = job₀.lastCommittedRow
  | .scan _ base => base = job₀.lastCommittedRow
  | .ackTry job => job.status = .COMPLETED
  | .ended r => r = .ok () ∧ ∃ job, db.job job₀.id = some job ∧ job.status = .COMPLETED
  | _ => False

/-- What holds along an attempt in which nothing fails. -/
structure Smooth (py : Python) (csv : Csv) (table₀ : List Transaction) (job₀ : ImportJob)
    (t : Attempt) (db : Db) (a : Phase) : Prop where
  checkpoint : ∀ job, db.job job₀.id = some job →
    Checkpoint py csv table₀ job₀ db.transactions job
  exact : Exact t db a
  resume : ResumeAt job₀ t a
  smooth : SmoothAt job₀ db a

/-- Nothing in the file stops an import that starts from `job₀`: it has the required columns, the
reader and `validate_row` raise nowhere, and the rows fit. -/
structure ImportableFrom (py : Python) (csv : Csv) (job₀ : ImportJob) : Prop where
  columns : csv.missingColumns = []
  readable : csv.raises = false
  returns : ∀ (i : ℕ) (row : Row) (e : String), job₀.lastCommittedRow ≤ i →
    csv.rows[i]? = some row → py.validateRow row (i + 1) ≠ .raised e
  fits : ∀ i, job₀.lastCommittedRow ≤ i → i < csv.rows.length →
    RowFits py job₀.id csv.rows job₀.lastCommittedRow i

/-- The statements of a batch are taken. -/
theorem ImportableFrom.taken {csv : Csv} {job : ImportJob} {b : Batch}
    (h : ImportableFrom py csv job₀)
    (hid : job.id = job₀.id) (hlast : job₀.lastCommittedRow ≤ job.lastCommittedRow)
    (hb : Buffered py job.id csv.rows job₀.lastCommittedRow job.lastCommittedRow b) :
    ∀ stmt ∈ b.work, stmt.taken = true := by
  refine Batch.taken_work (hb.taken_iff.mpr fun i hi hi' => ?_)
  rw [hid]
  exact h.fits i (hlast.trans hi) (hi'.trans_le hb.rowNumber_le)

/-- One move of an attempt in which nothing fails. -/
theorem Smooth.move {csv : Csv} {o : WorkerOp} {w w' : World} {a a' : Phase}
    (h : Smooth py csv table₀ job₀ t w.db a) (ht : t.importJobId = job₀.id)
    (hst : job₀.status ≠ .COMPLETED) (hretry : job₀.retryCount < maxRetries)
    (hcsv : files job₀.storagePath = some csv) (himport : ImportableFrom py csv job₀)
    (hmove : Move py files t o .ok w a w' a') : Smooth py csv table₀ job₀ t w'.db a' := by
  -- the object of the attempt is at a checkpoint, with the file of the job
  have hheld : ∀ job, a.holding = some job →
      Checkpoint py csv table₀ job₀ w.db.transactions job := fun job hjob =>
    h.checkpoint job (by rw [← ht]; exact h.exact job hjob)
  have hfile : ∀ {job csv'}, files job.storagePath = some csv' → a.holding = some job →
      csv' = csv := by
    intro job csv' hcsv' hjob
    rw [(hheld job hjob).storagePath, hcsv] at hcsv'
    exact (Option.some.inj hcsv').symm
  cases hmove with
  | load =>
    have hrow : w.db.job t.importJobId = some job₀ := by rw [ht]; exact h.smooth
    have hloaded : Phase.loaded (w.db.job t.importJobId) = .start job₀ := by
      rw [hrow, Phase.loaded, if_neg hst, if_neg (Nat.not_le.mpr hretry)]
    refine ⟨h.checkpoint, exact_loaded t w.db, ?_, ?_⟩
    · rw [hloaded]
      trivial
    · rw [hloaded]
      rfl
  | stay hdb hstream ha =>
    rw [hdb]
    exact h
  | fail hr =>
    obtain ⟨job, base, e, ha, -, hwhy⟩ := hr.of_ok fun job base csv' b ha hcsv' hb => by
      subst ha
      cases hfile hcsv' rfl
      have hcheck := hheld job rfl
      have hbase : base = job₀.lastCommittedRow := h.smooth
      subst hbase
      exact himport.taken hcheck.id_eq hcheck.base_le hb
    subst ha
    rcases hwhy with hnone | ⟨csv', hcsv', hraises | ⟨i, row, name, hi, hrow, hname⟩⟩
    · rw [(hheld job rfl).storagePath, hcsv] at hnone
      cases hnone
    · cases hfile hcsv' rfl
      exact absurd hraises (by simp [himport.readable])
    · cases hfile hcsv' rfl
      exact absurd hname (himport.returns i row name ((hheld job rfl).base_le.trans hi) hrow)
  | @commit s _ _ _ cont e hc =>
    obtain ⟨hhold, hid, -⟩ := hc.holding
    obtain ⟨hnew, hexact⟩ := h.exact.commit hc
    obtain ⟨hcheck, hresume⟩ := resume_commit hcsv hc (hheld _ hhold) h.resume
    refine ⟨fun job hjob => ?_, hexact, hresume, ?_⟩
    · rw [← ht] at hjob
      have hrow := hnew.symm.trans hjob
      cases hrow
      exact hcheck
    · cases hc with
      | giveUp hid => exact h.smooth.elim
      | start hid => exact h.smooth
      | batch hid hcsv' hcol' hb hlt hfits => exact h.smooth
      | finish hid hcsv' hcol' hlen hend => exact rfl
      | reject hid hcsv' hcol' =>
        cases hfile hcsv' rfl
        exact absurd himport.columns hcol'
      | handle hid => exact h.smooth.elim
  | ack => exact h.smooth.elim
  | @ackTry _ _ job hid =>
    refine ⟨h.checkpoint, exact_of_none rfl, trivial, rfl, job, ?_, h.smooth⟩
    rw [← ht]
    exact h.exact job rfl

/-- A file that was imported to its end can be imported without a cut. -/
theorem Checkpoint.importable {csv : Csv} (h : Checkpoint py csv table₀ job₀ table job)
    (hcol : csv.missingColumns = []) (hst : job.status = .COMPLETED) :
    ImportableFrom py csv job₀ := by
  obtain ⟨-, hlen, hend⟩ := h.completed hst
  refine ⟨hcol, hend, fun i row e hi hrow => ?_, fun i hi hi' => h.fits i hi (hi'.trans_le hlen)⟩
  obtain ⟨hlt, -⟩ := List.getElem?_eq_some_iff.mp hrow
  exact h.not_raised i row e hi (hlt.trans_le hlen) hrow

/-- An uninterrupted attempt completes the job. -/
theorem uninterrupted_completes {csv : Csv} {w : World} (hjob : w.db.job job₀.id = some job₀)
    (hst : job₀.status ≠ .COMPLETED) (hretry : job₀.retryCount < maxRetries)
    (hcsv : files job₀.storagePath = some csv) (himport : ImportableFrom py csv job₀)
    (batchSize entry : ℕ) :
    let u := ((processEntry py batchSize entry job₀.id).runAll (WorkerOp.exec files) .ok w).1
    ∃ job, u.db.job job₀.id = some job ∧ job.status = .COMPLETED ∧
      Checkpoint py csv w.db.transactions job₀ u.db.transactions job := by
  intro u
  have hstart : Smooth py csv w.db.transactions job₀ ⟨job₀.id, entry, batchSize⟩ w.db .unread := by
    refine ⟨fun job hjob' => ?_, exact_of_none rfl, trivial, hjob⟩
    rw [hjob] at hjob'
    cases hjob'
    exact Checkpoint.start py csv w.db.transactions hst
  obtain ⟨a, ha, hended⟩ := (processEntry_follows py files ⟨job₀.id, entry, batchSize⟩).runAll
    (f := .ok)
    (J := fun w' a => Smooth py csv w.db.transactions job₀ ⟨job₀.id, entry, batchSize⟩ w'.db a)
    hstart fun o w' a w'' a' h hmove => h.move rfl hst hretry hcsv himport hmove
  have hsmooth := ha.smooth
  rw [hended] at hsmooth
  obtain ⟨-, job, hjob', hdone⟩ := hsmooth
  exact ⟨job, hjob', hdone, ha.checkpoint job hjob'⟩

/-! ### The two agree -/

/-- Two completed states at a checkpoint are the same. -/
theorem Checkpoint.eq_of_completed {table' : List Transaction} {job' : ImportJob}
    (h : Checkpoint py csv table₀ job₀ table job) (h' : Checkpoint py csv table₀ job₀ table' job')
    (hst : job.status = .COMPLETED) (hst' : job'.status = .COMPLETED) :
    table = table' ∧ SameProgress job job' ∧ job.totalRows = job'.totalRows := by
  obtain ⟨htotal, hlen, -⟩ := h.completed hst
  obtain ⟨htotal', hlen', -⟩ := h'.completed hst'
  have hlast : job'.lastCommittedRow = job.lastCommittedRow := by
    have := h.base_le
    have := h'.base_le
    rcases h.bound with hb | hb <;> rcases h'.bound with hb' | hb' <;> omega
  have htable : table = table' := by rw [h.table_eq, h'.table_eq, hlast]
  subst htable
  refine ⟨rfl, ⟨h'.id_eq.trans h.id_eq.symm, h'.storagePath.trans h.storagePath.symm, ?_, ?_, ?_,
    hlast⟩, htotal.trans htotal'.symm⟩
  · rw [h.processed, h'.processed, hlast]
  · have := h.successful
    have := h'.successful
    omega
  · have := h.failed
    have := h'.failed
    omega

/-- However often the import of a job is cut off and resumed, if it completes in the end then the
transactions and the counters are those of one uninterrupted attempt from the same state. -/
theorem resumed_import_eq_uninterrupted (py : Python) (files : String → Option Csv) {w : World}
    {csv : Csv} (hjob : w.db.job job₀.id = some job₀) (hst : job₀.status ≠ .COMPLETED)
    (hretry : job₀.retryCount < maxRetries) (hcsv : files job₀.storagePath = some csv)
    (hcol : csv.missingColumns = []) {d : WorkerPool}
    (hd : (workers py files).Reaches (AttemptsAt job₀.id) ⟨w, []⟩ d)
    (hdone : d.world.db.job job₀.id = some job) (hcomplete : job.status = .COMPLETED)
    (batchSize entry : ℕ) :
    let u := ((processEntry py batchSize entry job₀.id).runAll (WorkerOp.exec files) .ok w).1
    d.world.db.transactions = u.db.transactions ∧
    ∃ job', u.db.job job₀.id = some job' ∧ job'.status = .COMPLETED ∧
      job.successfulRows = job'.successfulRows ∧ job.failedRows = job'.failedRows ∧
      job.processedRows = job'.processedRows ∧ job.lastCommittedRow = job'.lastCommittedRow ∧
      job.totalRows = job'.totalRows := by
  intro u
  obtain ⟨hd', -⟩ := hd.strengthen (P := AllAt job₀.id) (fun p hp => by cases hp)
    fun _ _ _ h he hn => h.next he hn
  obtain ⟨hinv, -⟩ := (resumeRule py w.db.transactions hcsv).reaches (fun _ _ he => he.1.1.1)
    (fun id row hrow hid => by
      rw [Db.id_of_job hrow] at hid
      subst hid
      rw [hjob] at hrow
      cases hrow
      exact Checkpoint.start py csv w.db.transactions hst) .refl hd'
  have hcheck := hinv job₀.id job hdone (Db.id_of_job hdone)
  obtain ⟨job', hjob', hst', hcheck'⟩ := uninterrupted_completes hjob hst hretry hcsv
    (hcheck.importable hcol hcomplete) batchSize entry
  obtain ⟨htable, hsame, htotal⟩ := hcheck.eq_of_completed hcheck' hcomplete hst'
  exact ⟨htable, job', hjob', hst', hsame.successful.symm, hsame.failed.symm, hsame.processed.symm,
    hsame.last.symm, htotal⟩

/-- A test for `AttemptsAt`. -/
def AttemptsAt.test (id : Uuid) (c : WorkerPool) (e : WorkerEvent) : Bool :=
  Sequential.test c e &&
  match e with
  | .arrive (.deliver entry _) => (c.world.stream.claim entry).all fun p => p.2 = id
  | .arrive (.create id' _ _ _ _) => id' ≠ id
  | _ => true

theorem AttemptsAt.of_test {id : Uuid} {c : WorkerPool} {e : WorkerEvent}
    (h : AttemptsAt.test id c e = true) : AttemptsAt id c e := by
  obtain ⟨h1, h2⟩ := Bool.and_eq_true_iff.mp h
  refine ⟨Sequential.of_test h1, ?_⟩
  cases e with
  | run i f => trivial
  | crash i => trivial
  | arrive x =>
    cases x with
    | create id' client name path key => exact of_decide_eq_true h2
    | enqueue id' => trivial
    | deliver entry size =>
      intro s id' hclaim
      simp only [hclaim, Option.all_some, decide_eq_true_eq] at h2
      exact h2

theorem sampleResume_attempts :
    ((workers .ascii (sampleFiles sampleCsv)).perform (AttemptsAt.test sampleJob.id)
      ⟨sampleWorld, []⟩ (sampleCrash ++ sampleResume)).bind (fun d =>
        (d.world.db.job sampleJob.id).map ImportJob.status) = some .COMPLETED := by
  decide +kernel

/-- The sample file, cut off behind its first row, against one attempt with batches of two rows. -/
theorem sample_resumed_eq_uninterrupted :
    ∃ (d : WorkerPool) (job : ImportJob),
      (workers .ascii (sampleFiles sampleCsv)).Reaches (AttemptsAt sampleJob.id)
        ⟨sampleWorld, []⟩ d ∧
      d.world.db.job sampleJob.id = some job ∧ job.status = .COMPLETED ∧
      d.world.db.transactions = ((processEntry .ascii 2 0 sampleJob.id).runAll
        (WorkerOp.exec (sampleFiles sampleCsv)) .ok sampleWorld).1.db.transactions := by
  obtain ⟨d, hd, hout⟩ := Option.bind_eq_some_iff.mp sampleResume_attempts
  obtain ⟨job, hjob, hst⟩ := Option.map_eq_some_iff.mp hout
  have hd' : (workers .ascii (sampleFiles sampleCsv)).Reaches (AttemptsAt sampleJob.id)
      ⟨sampleWorld, []⟩ d := System.reaches_of_perform (fun _ _ => AttemptsAt.of_test) hd
  have hrow : sampleWorld.db.job sampleJob.id = some sampleJob := by decide +kernel
  have hcol : sampleCsv.missingColumns = [] := by decide +kernel
  obtain ⟨htable, -⟩ := resumed_import_eq_uninterrupted .ascii (sampleFiles sampleCsv) hrow
    (by decide) (by decide) (if_pos rfl) hcol hd' hjob hst 2 0
  exact ⟨d, job, hd', hjob, hst, htable⟩

end TransactionPlatform
