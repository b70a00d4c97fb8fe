import TransactionPlatform.Worker.Exclusive

/-!
# The progress counters add up

`processed_rows`, `successful_rows`, `failed_rows` and `last_committed_row` of a job against its
file and the transactions table, for any number of jobs whose attempts interleave while attempts at
one job do not overlap.
-/

namespace TransactionPlatform

open Interleaved KeyedTable

/-- How many transactions belong to the job. -/
def transactionsOf (db : Db) (id : Uuid) : ℕ :=
  db.transactions.countP fun x => x.importJobId = some id

theorem transactionsOf_eq_zero {db : Db} {id : Uuid}
    (h : ∀ x ∈ db.transactions, x.importJobId ≠ some id) : transactionsOf db id = 0 :=
  List.countP_eq_zero.mpr fun x hx hdec => h x hx (of_decide_eq_true hdec)

/-- The counters of a row of `import_jobs` agree with each other, with its file and with the
transactions table. -/
structure Tally (files : String → Option Csv) (db : Db) (job : ImportJob) : Prop where
  processed : job.processedRows = job.lastCommittedRow
  sum : job.successfulRows + job.failedRows = job.lastCommittedRow
  bound : ∀ csv, files job.storagePath = some csv → job.lastCommittedRow ≤ csv.rows.length
  successful : job.successfulRows = transactionsOf db job.id
  completed : job.status = .COMPLETED → ∀ csv, files job.storagePath = some csv →
    job.totalRows = some csv.rows.length ∧ job.lastCommittedRow = csv.rows.length

/-- The counters of the second row are not smaller. -/
structure NotBehind (job job' : ImportJob) : Prop where
  last : job.lastCommittedRow ≤ job'.lastCommittedRow
  successful : job.successfulRows ≤ job'.successfulRows
  failed : job.failedRows ≤ job'.failedRows

/-- What an attempt knows about its object: the import is not completed before its last commit, and
the `except` block commits nothing but its own assignments. -/
def CountersAt (_ : Attempt) : Phase → Prop
  | .scan job _ => job.status ≠ .COMPLETED
  | .handle s _ => s = (Session.opened s.saved).requeue
  | _ => True

variable {py : Python} {files : String → Option Csv} {t : Attempt} {db db' : Db} {job : ImportJob}

theorem NotBehind.refl (job : ImportJob) : NotBehind job job :=
  ⟨Nat.le_refl _, Nat.le_refl _, Nat.le_refl _⟩

theorem NotBehind.trans {j k : ImportJob} (h : NotBehind job j) (h' : NotBehind j k) :
    NotBehind job k :=
  ⟨h.last.trans h'.last, h.successful.trans h'.successful, h.failed.trans h'.failed⟩

/-! ### One commit -/

/-- The rows an insert of a batch adds are counted for the job. -/
theorem transactionsOf_inserted (db : Db) {valid : List Transaction} (errors : List ImportError)
    {id : Uuid} (h : ∀ x ∈ valid, x.importJobId = some id) :
    transactionsOf (db.inserted valid errors) id =
        transactionsOf db id + insertedCount db.transactions valid ∧
      insertedCount db.transactions valid ≤ valid.length ∧
      ∀ id', id' ≠ id → transactionsOf (db.inserted valid errors) id' = transactionsOf db id' := by
  obtain ⟨added, heq, hsub⟩ :=
    insertAbsent_eq_append Transaction.transactionId db.transactions valid
  have hcount : insertedCount db.transactions valid = added.length := by
    rw [insertedCount, heq, List.length_append, Nat.add_sub_cancel_left]
  rw [hcount]
  simp only [transactionsOf, Db.inserted, heq, List.countP_append]
  refine ⟨?_, hsub.length_le, fun id' hne => ?_⟩
  · rw [Nat.add_left_cancel_iff, List.countP_eq_length]
    intro x hx
    exact decide_eq_true (h x (hsub.subset hx))
  · rw [Nat.add_eq_left, List.countP_eq_zero]
    intro x hx hdec
    have hid := of_decide_eq_true hdec
    rw [h x (hsub.subset hx)] at hid
    exact hne (Option.some.inj hid).symm

/-- An assignment that does not touch the counters. -/
structure SameProgress (job current : ImportJob) : Prop where
  id : current.id = job.id
  storagePath : current.storagePath = job.storagePath
  processed : current.processedRows = job.processedRows
  successful : current.successfulRows = job.successfulRows
  failed : current.failedRows = job.failedRows
  last : current.lastCommittedRow = job.lastCommittedRow

/-- A commit of such an assignment. -/
theorem Tally.assign (h : Tally files db job) (current : ImportJob)
    (hsame : SameProgress job current)
    (hst : current.status = .COMPLETED → ∀ csv, files job.storagePath = some csv →
      current.totalRows = some csv.rows.length ∧ job.lastCommittedRow = csv.rows.length) :
    Tally files ((Session.mk current job [] false).commitDb db) current ∧
      NotBehind job current := by
  refine ⟨⟨?_, ?_, ?_, ?_, ?_⟩, ⟨hsame.last.ge, hsame.successful.ge, hsame.failed.ge⟩⟩
  · rw [hsame.processed, hsame.last, h.processed]
  · rw [hsame.successful, hsame.failed, hsame.last, h.sum]
  · intro csv hcsv
    rw [hsame.last]
    exact h.bound csv (by rw [← hsame.storagePath]; exact hcsv)
  · rw [hsame.successful, hsame.id]
    exact h.successful
  · intro hc csv hcsv
    rw [hsame.last]
    exact hst hc csv (by rw [← hsame.storagePath]; exact hcsv)

/-- A commit of a batch: the rows since the checkpoint are counted as inserted or failed. -/
theorem Tally.batch {csv : Csv} {base : ℕ} {b : Batch} (h : Tally files db job)
    (hcsv : files job.storagePath = some csv) (hst : job.status ≠ .COMPLETED)
    (hb : Buffered py job.id csv.rows base job.lastCommittedRow b) :
    Tally files ((Session.mk job job b.work false).commitDb db)
        ((Session.mk job job b.work false).commitJob db) ∧
      NotBehind job ((Session.mk job job b.work false).commitJob db) := by
  simp only [Session.commitDb, Session.commitJob, Batch.work, Session.transaction_batch]
  obtain ⟨hcount, hle, -⟩ := transactionsOf_inserted db b.errors hb.job_valid
  have hlen := hb.length_eq
  have hrow := hb.last_le
  have hsum := h.sum
  refine ⟨⟨rfl, ?_, ?_, ?_, ?_⟩, ⟨hrow, Nat.le_add_right _ _, Nat.le_add_right _ _⟩⟩
  · simp only [ImportJob.advanced]
    omega
  · intro csv' hcsv'
    change files job.storagePath = some csv' at hcsv'
    rw [hcsv] at hcsv'
    cases hcsv'
    exact hb.rowNumber_le
  · simp only [ImportJob.advanced, h.successful]
    exact hcount.symm
  · exact fun hc => absurd hc hst

/-! ### Runs -/

/-- No statement is refused by the client library. -/
def NotRefused (_ : Attempt) (o : WorkerOp) (f : Fault) (_ : Db) (_ : Phase) : Prop :=
  o.clientError f = false

theorem counters_quiet {o : WorkerOp} {f : Fault} {a a' : Phase}
    (hallow : NotRefused t o f db a) (hq : Quiet py files t o f db a a') (hfact : CountersAt t a) :
    CountersAt t a' := by
  have hclient : ∀ stmt, o = .execute stmt → stmt.outcome f ≠ .error .ClientError := by
    rintro stmt rfl hout
    exact of_decide_eq_false hallow hout
  cases hq with
  | load =>
    rcases Phase.loaded_cases (db.job t.importJobId) with ⟨ha, -⟩ | ⟨job, ha, -⟩ | ⟨job, ha, -⟩
    · rw [ha]
      trivial
    · rw [ha]
      trivial
    · rw [ha]
      trivial
  | stay => exact hfact
  | fail hr =>
    cases hr with
    | load hf => trivial
    | server => trivial
    | insert hid hcsv hb hmem hvalid hout => exact absurd hout (hclient _ rfl)
    | update hid hcsv hb hout => exact absurd hout (hclient _ rfl)
    | openCsv hid hwhy => exact rfl
    | readRow hid hwhy => exact rfl
  | finish => trivial
  | unacked hid hf => exact rfl

theorem countersAt_commit {a : Phase} {s : Session} {cont : ImportJob → Phase}
    (hc : Commits py files t a s cont) (db : Db) (hfact : CountersAt t a) :
    CountersAt t (cont (s.commitJob db)) := by
  cases hc with
  | giveUp hid => trivial
  | start hid => exact fun hst => by cases hst
  | batch hid hcsv hcol hb hlt hfits =>
    simp only [CountersAt, Session.commitJob, Batch.work, Session.transaction_batch]
    exact hfact
  | finish hid hcsv hcol hlen hend => trivial
  | reject hid hcsv hcol => trivial
  | handle hid => trivial

theorem counters_commit {a : Phase} {s : Session} {cont : ImportJob → Phase}
    (hc : Commits py files t a s cont) (h : Tally files db s.saved) (hfact : CountersAt t a) :
    Tally files (s.commitDb db) (s.commitJob db) ∧ NotBehind s.saved (s.commitJob db) := by
  cases hc with
  | @giveUp job time hid =>
    exact h.assign (job.givenUp time) ⟨rfl, rfl, rfl, rfl, rfl, rfl⟩ fun hst => by cases hst
  | @start job startedAt hid =>
    exact h.assign { job with startedAt := startedAt, status := .PROCESSING }
      ⟨rfl, rfl, rfl, rfl, rfl, rfl⟩ fun hst => by cases hst
  | batch hid hcsv hcol hb hlt hfits => exact h.batch hcsv hfact hb
  | @finish job base time csv hid hcsv hcol hlen hend =>
    exact h.assign (job.completed csv.rows.length time)
      ⟨rfl, rfl, rfl, rfl, rfl, rfl⟩ fun _ csv' hcsv' => by
        change files job.storagePath = some csv' at hcsv'
        rw [hcsv] at hcsv'
        cases hcsv'
        exact ⟨rfl, Nat.le_antisymm (h.bound csv hcsv) hlen⟩
  | @reject job base time csv hid hcsv hcol =>
    exact h.assign (job.rejected py csv time) ⟨rfl, rfl, rfl, rfl, rfl, rfl⟩ fun hst => by cases hst
  | handle hid =>
    change s = (Session.opened s.saved).requeue at hfact
    rw [hfact]
    exact h.assign s.saved.requeued ⟨rfl, rfl, rfl, rfl, rfl, rfl⟩ fun hst => by cases hst

/-- A commit adds no transaction to another job. -/
theorem counters_frame {a : Phase} {s : Session} {cont : ImportJob → Phase}
    (hc : Commits py files t a s cont) (hfact : CountersAt t a) (hne : job.id ≠ t.importJobId)
    (h : Tally files db job) : Tally files (s.commitDb db) job := by
  refine ⟨h.processed, h.sum, h.bound, h.successful.trans (Eq.symm ?_), h.completed⟩
  cases hc with
  | giveUp hid => rfl
  | start hid => rfl
  | @batch _ _ _ b hid hcsv hcol hb hlt hfits =>
    obtain ⟨-, -, hother⟩ := transactionsOf_inserted db b.errors hb.job_valid
    simp only [Session.commitDb, Batch.work, Session.transaction_batch]
    exact hother job.id (by rw [hid]; exact hne)
  | finish hid hcsv hcol hlen hend => rfl
  | reject hid hcsv hcol => rfl
  | handle hid =>
    change s = (Session.opened s.saved).requeue at hfact
    rw [hfact]
    rfl

/-- The events of a run in which attempts at one job do not overlap and statements fail only in
Postgres. -/
def Sequential (c : WorkerPool) (e : WorkerEvent) : Prop := OneAtATime c e ∧ NoClientError c e

theorem countersRule (py : Python) (files : String → Option Csv) :
    ExclusiveRule py files
      (fun c e => Sequential c e ∧ System.Exclusive Attempt.importJobId c) (Tally files) CountersAt
      NotBehind NotRefused where
  exclusive c e hC := hC.2
  allowed c i t o k f a hC hi _ := hC.1.2 _ (Option.mem_def.mpr hi) o k rfl
  quiet t o f db a a' hallow hq _ _ hfact := counters_quiet hallow hq hfact
  commit t f db a s cont _ hc _ h hfact := by
    obtain ⟨htally, hmono⟩ := counters_commit hc h hfact
    exact ⟨htally, hmono, countersAt_commit hc db hfact⟩
  frame t f db a s cont _ hc hfact row hne h := counters_frame hc hfact hne h
  create c id client name path key _ hunused := by
    refine ⟨⟨rfl, rfl, fun _ _ => Nat.zero_le _, ?_, fun hst => by cases hst⟩,
      fun row h => ⟨h.processed, h.sum, h.bound, h.successful, h.completed⟩⟩
    exact (transactionsOf_eq_zero (World.unused_iff.mp hunused).2.1).symm
  unread _ := trivial
  ended _ _ := trivial
  refl := NotBehind.refl
  trans _ _ _ := NotBehind.trans

/-- A state in which no job has been processed. -/
structure Unstarted (db : Db) : Prop where
  jobs : ∀ id job, db.job id = some job → job.status = .QUEUED ∧ job.processedRows = 0 ∧
    job.successfulRows = 0 ∧ job.failedRows = 0 ∧ job.lastCommittedRow = 0
  transactions : ∀ id job, db.job id = some job → ∀ x ∈ db.transactions, x.importJobId ≠ some id

theorem Unstarted.tally (h : Unstarted db) {id : Uuid} (hjob : db.job id = some job) :
    Tally files db job := by
  obtain ⟨h1, h2, h3, h4, h5⟩ := h.jobs id job hjob
  refine ⟨by omega, by omega, fun csv _ => by omega, ?_, fun hst => by rw [h1] at hst; cases hst⟩
  rw [h3, Db.id_of_job hjob]
  exact (transactionsOf_eq_zero (h.transactions id job hjob)).symm

/-- Progress counters always add up, in every state that any number of jobs reach while attempts at
one job do not overlap, and they never decrease. -/
theorem progress_counters_add_up (py : Python) (files : String → Option Csv) {w : World}
    (hw : Unstarted w.db) {c d : WorkerPool}
    (hc : (workers py files).Reaches Sequential ⟨w, []⟩ c)
    (hd : (workers py files).Reaches Sequential c d) :
    (∀ id job, d.world.db.job id = some job →
      job.processedRows = job.lastCommittedRow ∧
      job.lastCommittedRow = job.successfulRows + job.failedRows ∧
      (∀ csv, files job.storagePath = some csv → job.lastCommittedRow ≤ csv.rows.length) ∧
      job.successfulRows = transactionsOf d.world.db id ∧
      (job.status = .COMPLETED → ∀ csv, files job.storagePath = some csv →
        job.totalRows = some csv.rows.length ∧ job.processedRows = csv.rows.length)) ∧
    (∀ id job, c.world.db.job id = some job → ∃ job', d.world.db.job id = some job' ∧
      job.lastCommittedRow ≤ job'.lastCommittedRow ∧ job.successfulRows ≤ job'.successfulRows ∧
      job.failedRows ≤ job'.failedRows) := by
  obtain ⟨hinv, hmono⟩ := (countersRule py files).reaches (fun _ _ he => he.1)
    (fun id job hjob => hw.tally hjob) hc hd
  refine ⟨fun id job hjob => ?_, fun id job hjob => ?_⟩
  · have h := hinv id job hjob
    refine ⟨h.processed, h.sum.symm, h.bound, ?_, fun hst csv hcsv => ?_⟩
    · rw [← Db.id_of_job hjob]
      exact h.successful
    · obtain ⟨htotal, hlast⟩ := h.completed hst csv hcsv
      exact ⟨htotal, h.processed.trans hlast⟩
  · obtain ⟨job', hjob', hle⟩ := hmono id job hjob
    exact ⟨job', hjob', hle.last, hle.successful, hle.failed⟩

/-- A test for `Sequential`. -/
def Sequential.test (c : WorkerPool) (e : WorkerEvent) : Bool :=
  OneAtATime.test c e && NoClientError.test c e

theorem Sequential.of_test {c : WorkerPool} {e : WorkerEvent} (h : Sequential.test c e = true) :
    Sequential c e := by
  obtain ⟨h1, h2⟩ := Bool.and_eq_true_iff.mp h
  exact ⟨OneAtATime.of_test h1, NoClientError.of_test h2⟩

theorem Unstarted.sampleWorld : Unstarted sampleWorld.db := by
  refine ⟨fun id job hjob => ?_, fun id job _ x hx => by cases hx⟩
  rw [List.mem_singleton.mp (List.mem_of_find?_eq_some hjob)]
  exact ⟨rfl, rfl, rfl, rfl, rfl⟩

/-- A worker crashes behind its first batch. -/
def sampleCrash : List WorkerEvent := .arrive (.deliver 0 1) :: (runs 0 8 ++ [.crash 0])

/-- Another one resumes the job with a larger batch size. -/
def sampleResume : List WorkerEvent := .arrive (.deliver 0 5) :: runs 1 12

theorem sampleResume_complete :
    (((workers .ascii (sampleFiles sampleCsv)).perform Sequential.test ⟨sampleWorld, []⟩
      sampleCrash).bind fun c =>
        ((workers .ascii (sampleFiles sampleCsv)).perform Sequential.test c sampleResume).map
          fun d => ((c.world.db.job sampleId).map ImportJob.lastCommittedRow,
            (d.world.db.job sampleId).map ImportJob.status)) = some (some 1, some .COMPLETED) := by
  decide +kernel

theorem sample_counters_add_up :
    ∃ (c d : WorkerPool) (job job' : ImportJob),
      (workers .ascii (sampleFiles sampleCsv)).Reaches Sequential ⟨sampleWorld, []⟩ c ∧
      (workers .ascii (sampleFiles sampleCsv)).Reaches Sequential c d ∧
      c.world.db.job sampleId = some job ∧ job.lastCommittedRow = 1 ∧
      d.world.db.job sampleId = some job' ∧ job'.status = .COMPLETED ∧
      job'.lastCommittedRow = job'.successfulRows + job'.failedRows ∧
      job'.successfulRows = transactionsOf d.world.db sampleId ∧
      job.lastCommittedRow ≤ job'.lastCommittedRow := by
  obtain ⟨c, hc, hcd⟩ := Option.bind_eq_some_iff.mp sampleResume_complete
  obtain ⟨d, hd, hout⟩ := Option.map_eq_some_iff.mp hcd
  simp only [Prod.mk.injEq, Option.map_eq_some_iff] at hout
  obtain ⟨⟨job, hjob, hlast⟩, job', hjob', hst⟩ := hout
  have hc' : (workers .ascii (sampleFiles sampleCsv)).Reaches Sequential ⟨sampleWorld, []⟩ c :=
    System.reaches_of_perform (fun _ _ => Sequential.of_test) hc
  have hd' : (workers .ascii (sampleFiles sampleCsv)).Reaches Sequential c d :=
    System.reaches_of_perform (fun _ _ => Sequential.of_test) hd
  obtain ⟨hinv, hmono⟩ := progress_counters_add_up .ascii (sampleFiles sampleCsv)
    Unstarted.sampleWorld hc' hd'
  obtain ⟨-, hsum, -, hsucc, -⟩ := hinv sampleId job' hjob'
  obtain ⟨row, hrow, hle, -⟩ := hmono sampleId job hjob
  rw [hjob'] at hrow
  cases hrow
  exact ⟨c, d, job, job', hc', hd', hjob, hlast, hjob', hst, hsum, hsucc, hle⟩

end TransactionPlatform
