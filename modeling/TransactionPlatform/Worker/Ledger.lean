import TransactionPlatform.Worker.Walk

/-!
# The ledger: no transaction is lost, duplicated or invented

Any number of workers may process any jobs, several of them the same job, and every operation may
fail or be the last one of its worker.  The checkpoint of a job can then move backwards as well as
forwards, since every attempt writes the counters of its own copy.  What survives all of this is
coverage: every accepted row up to the checkpoint has its id in the table, both for the committed
checkpoint and for the checkpoint in the memory of every running attempt.
-/

namespace TransactionPlatform

open Interleaved KeyedTable

section Ledger

variable (py : Python) (files : String → Option Csv)

/-- Every accepted row among the first `n` has its id in the table. -/
def CoveredTo (table : List Transaction) (id : Uuid) (rows : List Row) (n : ℕ) : Prop :=
  ∀ x ∈ accepted py id rows 0 n, HasKey Transaction.transactionId table x.transactionId

/-- The table covers what a row of `import_jobs`, or a copy of it in memory, promises. -/
structure JobCovered (table : List Transaction) (job : ImportJob) : Prop where
  /-- The rows up to the checkpoint. -/
  checkpoint : ∀ csv, files job.storagePath = some csv →
    CoveredTo py table job.id csv.rows job.lastCommittedRow
  /-- All rows of a completed job. -/
  completed : job.status = .COMPLETED → ∀ csv, files job.storagePath = some csv →
    CoveredTo py table job.id csv.rows csv.rows.length

/-- The transaction is what `validate_row` returns for a row of the file of its job. -/
def FromFile (db : Db) (x : Transaction) : Prop :=
  ∃ id row csv, db.job id = some row ∧ files row.storagePath = some csv ∧
    x ∈ accepted py id csv.rows 0 csv.rows.length

/-- The invariant of the tables, started from the transactions `initial`. -/
structure Ledger (initial : List Transaction) (db : Db) : Prop where
  /-- No two transactions share an id. -/
  nodup : (db.transactions.map Transaction.transactionId).Nodup
  /-- Every new transaction comes from a file. -/
  origin : ∀ x ∈ db.transactions, x ∈ initial ∨ FromFile py files db x
  /-- The table covers every job. -/
  covered : ∀ id row, db.job id = some row → JobCovered py files db.transactions row

/-- The tables grow: transactions are appended, jobs keep their file. -/
structure Grows (db db' : Db) : Prop where
  transactions : db.transactions <+: db'.transactions
  jobs : ∀ id row, db.job id = some row →
    ∃ row', db'.job id = some row' ∧ row'.storagePath = row.storagePath

/-- The job object of an attempt: its row exists and the table covers what the object says. -/
structure HeldCopy (t : Attempt) (job : ImportJob) (db : Db) : Prop where
  id_eq : job.id = t.importJobId
  exists_row : ∃ row, db.job t.importJobId = some row ∧ row.storagePath = job.storagePath
  covered : JobCovered py files db.transactions job

/-- Inserting `valid` extends the coverage of the job's file to the row `n` and inserts nothing but
rows of the file. -/
def Extends (job : ImportJob) (valid : List Transaction) (n : ℕ) : Prop :=
  ∀ table : List Transaction,
    (∀ csv, files job.storagePath = some csv →
      CoveredTo py table job.id csv.rows job.lastCommittedRow) →
    (∀ csv, files job.storagePath = some csv →
      CoveredTo py (insertAbsent Transaction.transactionId table valid) job.id csv.rows n) ∧
    ∀ x ∈ insertAbsent Transaction.transactionId table valid, x ∈ table ∨
      ∃ csv, files job.storagePath = some csv ∧ x ∈ accepted py job.id csv.rows 0 csv.rows.length

/-- The sessions the `except` block commits: the statements of a batch may have been executed in
part. -/
inductive Leftover (job : ImportJob) : Session → Prop where
  | inserts {valid : List Transaction} (h : Extends py files job valid job.lastCommittedRow) :
      Leftover job ⟨job.requeued, job, inserts valid [], false⟩
  | advance {b : Batch} (h : Extends py files job b.valid b.rowNumber) :
      Leftover job ⟨job.requeued, job, TransactionPlatform.inserts b.valid b.errors ++
        [.advance b.valid.length b.errors.length b.rowNumber], false⟩

/-- What is known about the tables in each phase of an attempt. -/
def LedgerAt (t : Attempt) (db : Db) : Phase → Prop
  | .giveUp job => HeldCopy py files t job db
  | .start job => HeldCopy py files t job db
  | .scan job _ => HeldCopy py files t job db
  | .ackTry job => HeldCopy py files t job db
  | .handle s _ => ∃ job, HeldCopy py files t job db ∧ Leftover py files job s
  | _ => True

end Ledger

variable {py : Python} {files : String → Option Csv} {t : Attempt} {db db' : Db} {job : ImportJob}
variable {table table' initial : List Transaction}

/-! ### Coverage -/

theorem CoveredTo.mono {id : Uuid} {rows : List Row} {m n : ℕ} (h : CoveredTo py table id rows n)
    (hmn : m ≤ n) (hsub : table <+: table') : CoveredTo py table' id rows m := by
  intro x hx
  refine (h x ?_).mono hsub
  rw [← accepted_append (Nat.zero_le m) hmn]
  exact List.mem_append_left _ hx

theorem JobCovered.mono (h : JobCovered py files table job) (hsub : table <+: table') :
    JobCovered py files table' job :=
  ⟨fun csv hcsv => (h.checkpoint csv hcsv).mono (Nat.le_refl _) hsub,
    fun hst csv hcsv => (h.completed hst csv hcsv).mono (Nat.le_refl _) hsub⟩

/-- Nothing is inserted. -/
theorem extends_nil (job : ImportJob) : Extends py files job [] job.lastCommittedRow :=
  fun _ h => ⟨h, fun _ hx => .inl hx⟩

/-- The buffer of an attempt extends the coverage to the rows it has read. -/
theorem Buffered.extends {base : ℕ} {csv : Csv} {b : Batch} (hcsv : files job.storagePath = some csv)
    (hb : Buffered py job.id csv.rows base job.lastCommittedRow b) :
    Extends py files job b.valid b.rowNumber := by
  intro table h
  have hcov := h csv hcsv
  -- the ids seen by this attempt before its last commit are in the table
  have heq := hb.insert_valid table fun x hx => hcov x (by
    rw [← accepted_append (Nat.zero_le base) hb.base_le]
    exact List.mem_append_right _ hx)
  rw [heq]
  constructor
  · intro csv' hcsv' x hx
    rw [hcsv] at hcsv'
    cases hcsv'
    rw [← accepted_append (Nat.zero_le _) hb.last_le] at hx
    rcases List.mem_append.mp hx with hx | hx
    · exact (hcov x hx).mono (prefix_insertAbsent _ _)
    · exact hasKey_insertAbsent hx
  · intro x hx
    refine (mem_insertAbsent hx).imp_right fun hx => ⟨csv, hcsv, ?_⟩
    rw [← accepted_append (Nat.zero_le job.lastCommittedRow)
      (hb.last_le.trans hb.rowNumber_le), ← accepted_append hb.last_le hb.rowNumber_le]
    exact List.mem_append_right _ (List.mem_append_left _ hx)

theorem Extends.mono {valid : List Transaction} {m n : ℕ} (h : Extends py files job valid n)
    (hmn : m ≤ n) : Extends py files job valid m := fun table ht =>
  ⟨fun csv hcsv => ((h table ht).1 csv hcsv).mono hmn List.prefix_rfl, (h table ht).2⟩

/-- A flush mixes the columns of the row and of the object. -/
theorem JobCovered.flush {current row : ImportJob} (hrow : JobCovered py files table row)
    (hcur : JobCovered py files table current) (hid : row.id = current.id)
    (hpath : row.storagePath = job.storagePath) (hsame : current.storagePath = job.storagePath) :
    JobCovered py files table (ImportJob.flush job current row) := by
  have hp : (ImportJob.flush job current row).storagePath = job.storagePath := by
    simp only [ImportJob.flush, hsame, flushed_self, hpath]
  constructor
  · intro csv hcsv
    rw [hp] at hcsv
    simp only [ImportJob.flush, flushed]
    split
    · exact hrow.checkpoint csv (by rw [hpath]; exact hcsv)
    · rw [hid]
      exact hcur.checkpoint csv (by rw [hsame]; exact hcsv)
  · intro hst csv hcsv
    rw [hp] at hcsv
    simp only [ImportJob.flush, flushed] at hst ⊢
    split at hst
    · exact hrow.completed hst csv (by rw [hpath]; exact hcsv)
    · rw [hid]
      exact hcur.completed hst csv (by rw [hsame]; exact hcsv)

/-- The explicit update takes the columns that matter from the object. -/
theorem JobCovered.writeProgress {current row : ImportJob} (hcur : JobCovered py files table current)
    (hid : row.id = current.id) (hpath : row.storagePath = current.storagePath) :
    JobCovered py files table (ImportJob.writeProgress current row) := by
  constructor
  · intro csv hcsv
    have h := hcur.checkpoint csv (by rw [← hpath]; exact hcsv)
    rw [← hid] at h
    exact h
  · intro hst csv hcsv
    have h := hcur.completed hst csv (by rw [← hpath]; exact hcsv)
    rw [← hid] at h
    exact h

/-! ### One commit -/

theorem FromFile.mono {x : Transaction} (h : FromFile py files db x) (hg : Grows db db') :
    FromFile py files db' x := by
  obtain ⟨id, row, csv, hjob, hcsv, hx⟩ := h
  obtain ⟨row', hjob', hpath⟩ := hg.jobs id row hjob
  exact ⟨id, row', csv, hjob', by rw [hpath]; exact hcsv, hx⟩

theorem HeldCopy.mono (h : HeldCopy py files t job db) (hg : Grows db db') :
    HeldCopy py files t job db' := by
  obtain ⟨row, hjob, hpath⟩ := h.exists_row
  obtain ⟨row', hjob', hpath'⟩ := hg.jobs _ row hjob
  exact ⟨h.id_eq, ⟨row', hjob', hpath'.trans hpath⟩, h.covered.mono hg.transactions⟩

/-- The assertion of a phase is about things that only grow. -/
theorem LedgerAt.mono {a : Phase} (h : LedgerAt py files t db a) (hg : Grows db db') :
    LedgerAt py files t db' a := by
  cases a with
  | unread => trivial
  | giveUp job => exact HeldCopy.mono h hg
  | start job => exact HeldCopy.mono h hg
  | scan job base => exact HeldCopy.mono h hg
  | ackTry job => exact HeldCopy.mono h hg
  | ack => trivial
  | handle s e =>
    obtain ⟨job, hcopy, hleft⟩ := h
    exact ⟨job, hcopy.mono hg, hleft⟩
  | ended r => trivial

/-- Inserting rows of the file of a job and updating the row of the job keeps the ledger, if the
table covers what the update writes. -/
theorem Ledger.update (h : Ledger py files initial db) (hcopy : HeldCopy py files t job db)
    {valid : List Transaction} (errors : List ImportError) {n : ℕ} {g : ImportJob → ImportJob}
    (hext : Extends py files job valid n) (hid : ∀ r, (g r).id = r.id)
    (hpath : ∀ r, r.storagePath = job.storagePath → (g r).storagePath = r.storagePath)
    (hg : ∀ r, r.id = job.id → r.storagePath = job.storagePath →
      JobCovered py files (insertAbsent Transaction.transactionId db.transactions valid) r →
      JobCovered py files (insertAbsent Transaction.transactionId db.transactions valid) (g r)) :
    Ledger py files initial ((db.inserted valid errors).updateJob t.importJobId g) ∧
      Grows db ((db.inserted valid errors).updateJob t.importJobId g) := by
  have hsub : db.transactions <+: insertAbsent Transaction.transactionId db.transactions valid :=
    prefix_insertAbsent _ _
  obtain ⟨row, hrow, hrowpath⟩ := hcopy.exists_row
  have hself : ((db.inserted valid errors).updateJob t.importJobId g).job t.importJobId =
      some (g row) := by
    rw [Db.job_updateJob_self hid, Db.job_inserted, hrow]
    rfl
  have hother : ∀ id, id ≠ t.importJobId →
      ((db.inserted valid errors).updateJob t.importJobId g).job id = db.job id :=
    fun id hne => (Db.job_updateJob_of_ne hid hne).trans (Db.job_inserted _ _)
  have hgrow : Grows db ((db.inserted valid errors).updateJob t.importJobId g) := by
    refine ⟨hsub, fun id r hr => ?_⟩
    by_cases hne : id = t.importJobId
    · subst hne
      rw [hrow] at hr
      cases hr
      exact ⟨g row, hself, hpath row hrowpath⟩
    · exact ⟨r, (hother id hne).trans hr, rfl⟩
  refine ⟨⟨nodup_insertAbsent h.nodup valid, fun x hx => ?_, fun id r hr => ?_⟩, hgrow⟩
  · rcases (hext db.transactions hcopy.covered.checkpoint).2 x hx with hx | ⟨csv, hcsv, hx⟩
    · exact (h.origin x hx).imp_right fun hx => hx.mono hgrow
    · refine .inr ⟨t.importJobId, g row, csv, hself, ?_, hcopy.id_eq ▸ hx⟩
      rw [hpath row hrowpath, hrowpath]
      exact hcsv
  · by_cases hne : id = t.importJobId
    · subst hne
      rw [hself] at hr
      cases hr
      have hrowid : row.id = job.id := (Db.id_of_job hrow).trans hcopy.id_eq.symm
      exact hg row hrowid hrowpath ((h.covered _ row hrow).mono hsub)
    · rw [hother id hne] at hr
      exact (h.covered id r hr).mono hsub

/-- A flush of the object keeps the ledger, if the table covers the object. -/
theorem Ledger.flush (h : Ledger py files initial db) (hcopy : HeldCopy py files t job db)
    {valid : List Transaction} (errors : List ImportError) {n : ℕ} {current : ImportJob}
    (hext : Extends py files job valid n) (hid : current.id = job.id)
    (hpath : current.storagePath = job.storagePath)
    (hcur : JobCovered py files (insertAbsent Transaction.transactionId db.transactions valid)
      current) :
    Ledger py files initial
        ((db.inserted valid errors).updateJob t.importJobId (ImportJob.flush job current)) ∧
      Grows db ((db.inserted valid errors).updateJob t.importJobId (ImportJob.flush job current)) :=
  h.update hcopy errors hext (ImportJob.flush_id _ _)
    (fun r _ => by simp only [ImportJob.flush, hpath, flushed_self])
    fun _ hrid hrpath hr => hr.flush hcur (hrid.trans hid.symm) hrpath hpath

/-- A commit of assignments to the object that leave its checkpoint alone. -/
theorem Ledger.assign (h : Ledger py files initial db) (hcopy : HeldCopy py files t job db)
    (current : ImportJob) (hid : current.id = job.id)
    (hpath : current.storagePath = job.storagePath)
    (hlast : current.lastCommittedRow = job.lastCommittedRow)
    (hst : current.status = .COMPLETED → ∀ csv, files job.storagePath = some csv →
      CoveredTo py db.transactions job.id csv.rows csv.rows.length) :
    Ledger py files initial ((Session.mk current job [] false).commitDb db) ∧
      Grows db ((Session.mk current job [] false).commitDb db) ∧
      HeldCopy py files t current ((Session.mk current job [] false).commitDb db) := by
  have hcur : JobCovered py files db.transactions current := by
    constructor
    · intro csv hcsv
      rw [hid, hlast]
      exact hcopy.covered.checkpoint csv (by rw [← hpath]; exact hcsv)
    · intro hc csv hcsv
      rw [hid]
      exact hst hc csv (by rw [← hpath]; exact hcsv)
  obtain ⟨h1, h2⟩ := h.flush hcopy [] (extends_nil job) hid hpath hcur
  have hdb : (Session.mk current job [] false).commitDb db =
      (db.inserted [] []).updateJob t.importJobId (ImportJob.flush job current) := by
    rw [← hcopy.id_eq, ← hid]
    exact congrArg Tx.db (Session.transaction_inserts current job [] [] false db)
  rw [hdb]
  obtain ⟨row, hrow, hrowpath⟩ := (hcopy.mono h2).exists_row
  exact ⟨h1, h2, hid.trans hcopy.id_eq, ⟨row, hrow, hrowpath.trans hpath.symm⟩,
    hcur.mono h2.transactions⟩

/-- A commit of a batch. -/
theorem Ledger.batch (h : Ledger py files initial db) (hcopy : HeldCopy py files t job db) {b : Batch}
    (hext : Extends py files job b.valid b.rowNumber) :
    Ledger py files initial ((Session.mk job job b.work false).commitDb db) ∧
      Grows db ((Session.mk job job b.work false).commitDb db) ∧
      HeldCopy py files t ((Session.mk job job b.work false).commitJob db)
        ((Session.mk job job b.work false).commitDb db) := by
  have htx := Session.transaction_batch job b.valid b.errors b.valid.length b.errors.length
    b.rowNumber false db
  have hcur : JobCovered py files (insertAbsent Transaction.transactionId db.transactions b.valid)
      (job.advanced b.valid.length b.errors.length b.rowNumber
        (insertedCount db.transactions b.valid)) :=
    ⟨(hext db.transactions hcopy.covered.checkpoint).1,
      (hcopy.covered.mono (prefix_insertAbsent _ _)).completed⟩
  obtain ⟨h1, h2⟩ := h.update hcopy b.errors hext (ImportJob.writeProgress_id _)
    (fun _ _ => rfl) fun _ hrid hrpath _ => hcur.writeProgress hrid hrpath
  simp only [Session.commitDb, Session.commitJob, Batch.work, htx]
  rw [hcopy.id_eq]
  obtain ⟨row, hrow, hrowpath⟩ := (hcopy.mono h2).exists_row
  exact ⟨h1, h2, hcopy.id_eq, ⟨row, hrow, hrowpath⟩, hcur⟩

/-- The commit of the `except` block, with the statements that happen to be in the transaction. -/
theorem Ledger.leftover {s : Session} (h : Ledger py files initial db)
    (hcopy : HeldCopy py files t job db) (hs : Leftover py files job s) :
    Ledger py files initial (s.commitDb db) ∧ Grows db (s.commitDb db) := by
  cases hs with
  | @inserts valid hext =>
    have hcur : JobCovered py files (insertAbsent Transaction.transactionId db.transactions valid)
        job.requeued :=
      ⟨(hext db.transactions hcopy.covered.checkpoint).1, fun hst => by cases hst⟩
    have htx := Session.transaction_inserts job.requeued job valid [] false db
    simp only [Session.commitDb, htx]
    have hid : job.requeued.id = t.importJobId := hcopy.id_eq
    rw [hid]
    exact h.flush hcopy [] hext rfl rfl hcur
  | @advance b hext =>
    have hcur : JobCovered py files (insertAbsent Transaction.transactionId db.transactions b.valid)
        (job.requeued.advanced b.valid.length b.errors.length b.rowNumber
          (insertedCount db.transactions b.valid)) :=
      ⟨(hext db.transactions hcopy.covered.checkpoint).1, fun hst => by cases hst⟩
    have htx := Session.transaction_advance job.requeued job b.valid b.errors b.valid.length
      b.errors.length b.rowNumber false db
    simp only [Session.commitDb, htx]
    have hid : job.requeued.id = t.importJobId := hcopy.id_eq
    rw [hid]
    exact h.flush hcopy b.errors hext rfl rfl hcur

/-- Every commit of an attempt keeps the ledger and goes on to a phase whose assertion holds. -/
theorem Ledger.commit {a : Phase} {s : Session} {cont : ImportJob → Phase}
    (h : Ledger py files initial db) (ha : LedgerAt py files t db a)
    (hc : Commits py files t a s cont) :
    Ledger py files initial (s.commitDb db) ∧ Grows db (s.commitDb db) ∧
      LedgerAt py files t (s.commitDb db) (cont (s.commitJob db)) := by
  cases hc with
  | giveUp hid =>
    obtain ⟨h1, h2, -⟩ := h.assign ha (ImportJob.givenUp _ _) rfl rfl rfl
      fun hst => by cases hst
    exact ⟨h1, h2, trivial⟩
  | start hid => exact h.assign ha _ rfl rfl rfl fun hst => by cases hst
  | batch hid hcsv hcol hb hlt hfits => exact h.batch ha (hb.extends hcsv)
  | @finish job base time csv hid hcsv hcol hlen hend =>
    refine h.assign ha _ rfl rfl rfl fun _ csv' hcsv' => ?_
    rw [hcsv] at hcsv'
    cases hcsv'
    exact (ha.covered.checkpoint csv hcsv).mono hlen List.prefix_rfl
  | reject hid hcsv hcol => exact h.assign ha _ rfl rfl rfl fun hst => by cases hst
  | handle hid =>
    obtain ⟨job, hcopy, hleft⟩ := ha
    obtain ⟨h1, h2⟩ := h.leftover hcopy hleft
    exact ⟨h1, h2, trivial⟩

/-- The moves without effect on the tables lead to phases whose assertion holds. -/
theorem LedgerAt.quiet {a a' : Phase} {o : WorkerOp} {f : Fault} (h : Ledger py files initial db)
    (ha : LedgerAt py files t db a) (hq : Quiet py files t o f db a a') :
    LedgerAt py files t db a' := by
  cases hq with
  | load =>
    have hcopy : ∀ job, db.job t.importJobId = some job → HeldCopy py files t job db :=
      fun job hjob => ⟨Db.id_of_job hjob, ⟨job, hjob, rfl⟩, h.covered _ job hjob⟩
    rcases Phase.loaded_cases (db.job t.importJobId) with ⟨ha', -⟩ | ⟨job, ha', hjob, -⟩ |
      ⟨job, ha', hjob, -⟩
    · rw [ha']
      trivial
    · rw [ha']
      exact hcopy job hjob
    · rw [ha']
      exact hcopy job hjob
  | stay => exact ha
  | fail hr =>
    cases hr with
    | load hf => trivial
    | server => trivial
    | insert hid hcsv hb hmem hvalid hout =>
      refine ⟨_, ha, .inserts ?_⟩
      rcases hvalid with rfl | rfl
      · exact extends_nil _
      · exact (hb.extends hcsv).mono hb.last_le
    | update hid hcsv hb hout => exact ⟨_, ha, .advance (hb.extends hcsv)⟩
    | openCsv hid hwhy => exact ⟨_, ha, .inserts (extends_nil _)⟩
    | readRow hid hwhy => exact ⟨_, ha, .inserts (extends_nil _)⟩
  | finish => trivial
  | unacked hid hf => exact ⟨_, ha, .inserts (extends_nil _)⟩

/-! ### Runs of any number of workers -/

/-- A new job has no checkpoint yet. -/
theorem Ledger.create (h : Ledger py files initial db) (new : ImportJob)
    (hnew : new.lastCommittedRow = 0) (hst : new.status ≠ .COMPLETED) :
    Ledger py files initial { db with jobs := db.jobs ++ [new] } ∧
      Grows db { db with jobs := db.jobs ++ [new] } := by
  have hgrow : Grows db { db with jobs := db.jobs ++ [new] } :=
    ⟨List.prefix_rfl, fun id row hrow => ⟨row, Db.job_append_of_some hrow, rfl⟩⟩
  refine ⟨⟨h.nodup, fun x hx => (h.origin x hx).imp_right fun hx => hx.mono hgrow, ?_⟩, hgrow⟩
  intro id row hrow
  rcases Db.job_append_cases hrow with hrow | rfl
  · exact h.covered id row hrow
  · refine ⟨fun csv _ => ?_, fun hc => absurd hc hst⟩
    rw [hnew]
    intro x hx
    simp at hx

/-- The outline of the ledger. -/
def ledgerOutline (py : Python) (files : String → Option Csv) (initial : List Transaction) :
    Outline World Attempt Phase where
  Inv w := Ledger py files initial w.db
  Loc t a w := LedgerAt py files t w.db a
  Guar w w' := w.db.transactions <+: w'.db.transactions

theorem ledgerOutline_sound (py : Python) (files : String → Option Csv)
    (initial : List Transaction) :
    (ledgerOutline py files initial).Sound (workers py files) (fun _ _ => True) (Move py files)
      fun _ r a => a = .ended r := by
  refine workers_sound ?_ ?_
  · intro c ph i t o k f a' h _ hi hmove _
    rcases hmove.db_cases with ⟨hdb, hq⟩ | ⟨s, cont, -, hc, hdb, hnext⟩
    · simp only [ledgerOutline, hdb]
      exact ⟨h.inv, LedgerAt.quiet h.inv (h.loc i t _ hi) hq, List.prefix_rfl,
        fun j t' p' _ hj => h.loc j t' p' hj⟩
    · obtain ⟨h1, h2, h3⟩ := Ledger.commit h.inv (h.loc i t _ hi) hc
      simp only [ledgerOutline, hdb]
      refine ⟨h1, ?_, h2.transactions, fun j t' p' _ hj => (h.loc j t' p' hj).mono h2⟩
      rcases hnext with ⟨-, rfl⟩ | ⟨-, e, rfl⟩
      · exact h3
      · trivial
  · intro c ph x w r h _ hx
    rcases Arrival.apply_cases hx with ⟨id, client, name, path, key, -, -, rfl, rfl⟩ |
      ⟨id, -, -, -, rfl, rfl⟩ | ⟨entry, size, stream, id, -, -, rfl, rfl⟩
    · obtain ⟨h1, h2⟩ := Ledger.create h.inv (.queued id client name path key) rfl
        (by simp [ImportJob.queued])
      exact ⟨h1, h2.transactions, fun j t p hj => (h.loc j t p hj).mono h2, fun t p hr => by cases hr⟩
    · exact ⟨h.inv, List.prefix_rfl, h.loc, fun t p hr => by cases hr⟩
    · exact ⟨h.inv, List.prefix_rfl, h.loc, fun t p _ => trivial⟩

/-- The relation between the tables along a run. -/
theorem prefix_of_guar {w w' : World}
    (h : Relation.ReflTransGen (ledgerOutline py files initial).Guar w w') :
    w.db.transactions <+: w'.db.transactions := by
  induction h with
  | refl => exact List.prefix_rfl
  | tail _ hg ih => exact ih.trans hg

/-- A state in which nothing has been processed: ids are unique and every job is as it was
created. -/
structure Unprocessed (db : Db) : Prop where
  nodup : (db.transactions.map Transaction.transactionId).Nodup
  jobs : ∀ id job, db.job id = some job → job.lastCommittedRow = 0 ∧ job.status = .QUEUED

theorem Unprocessed.ledger (h : Unprocessed db) : Ledger py files db.transactions db := by
  refine ⟨h.nodup, fun x hx => .inl hx, fun id job hjob => ?_⟩
  obtain ⟨hlast, hst⟩ := h.jobs id job hjob
  refine ⟨fun csv _ => ?_, fun hc => by rw [hst] at hc; cases hc⟩
  rw [hlast]
  intro x hx
  simp at hx

/-- No transaction is lost, duplicated or invented, whatever the workers do: along every run ids
stay unique, a new transaction is what `validate_row` returned for a row of the file of its job,
transactions are only appended, and the accepted rows of a job up to its checkpoint, and all of them
once it is completed, have their id in the table. -/
theorem no_transaction_lost_duplicated_or_invented (py : Python) (files : String → Option Csv)
    {w : World} (hw : Unprocessed w.db) {c d : WorkerPool}
    (hc : (workers py files).Reaches (fun _ _ => True) ⟨w, []⟩ c)
    (hd : (workers py files).Reaches (fun _ _ => True) c d) :
    (d.world.db.transactions.map Transaction.transactionId).Nodup ∧
    (∀ x ∈ d.world.db.transactions, x ∈ w.db.transactions ∨
      ∃ (id : Uuid) (job : ImportJob) (csv : Csv) (i : ℕ) (row : Row) (v : ValidRow),
        x.importJobId = some id ∧ d.world.db.job id = some job ∧
        files job.storagePath = some csv ∧ csv.rows[i]? = some row ∧
        py.validateRow row (i + 1) = .accepted v ∧ x = v.transaction id) ∧
    c.world.db.transactions <+: d.world.db.transactions ∧
    (∀ (id : Uuid) (job : ImportJob) (csv : Csv) (i : ℕ) (row : Row) (v : ValidRow),
      d.world.db.job id = some job → files job.storagePath = some csv → csv.rows[i]? = some row →
      py.validateRow row (i + 1) = .accepted v → i + 1 ≤ job.lastCommittedRow →
      ∃ x ∈ d.world.db.transactions, x.transactionId = v.transactionId) ∧
    (∀ (id : Uuid) (job : ImportJob) (csv : Csv) (i : ℕ) (row : Row) (v : ValidRow),
      d.world.db.job id = some job → files job.storagePath = some csv → csv.rows[i]? = some row →
      py.validateRow row (i + 1) = .accepted v → job.status = .COMPLETED →
      ∃ x ∈ d.world.db.transactions, x.transactionId = v.transactionId) := by
  have hsound := ledgerOutline_sound py files w.db.transactions
  obtain ⟨⟨ph, hph⟩, -⟩ := workers_reaches hsound hw.ledger hc
  obtain ⟨⟨ph', hph'⟩, hguar⟩ := hsound.reaches hph hd
  have hinv : Ledger py files w.db.transactions d.world.db := hph'.inv
  refine ⟨hinv.nodup, fun x hx => ?_, prefix_of_guar hguar, ?_, ?_⟩
  · refine (hinv.origin x hx).imp_right ?_
    rintro ⟨id, job, csv, hjob, hcsv, hmem⟩
    obtain ⟨i, row, v, -, -, hrow, hv, rfl⟩ := mem_accepted hmem
    exact ⟨id, job, csv, i, row, v, rfl, hjob, hcsv, hrow, hv, rfl⟩
  · intro id job csv i row v hjob hcsv hrow hv hi
    exact (hinv.covered id job hjob).checkpoint csv hcsv (v.transaction job.id)
      (mem_accepted_of_row (Nat.zero_le i) hi hrow hv)
  · intro id job csv i row v hjob hcsv hrow hv hst
    obtain ⟨hi, -⟩ := List.getElem?_eq_some_iff.mp hrow
    exact (hinv.covered id job hjob).completed hst csv hcsv (v.transaction job.id)
      (mem_accepted_of_row (Nat.zero_le i) hi hrow hv)

theorem sampleWorld_unprocessed : Unprocessed sampleWorld.db := by
  refine ⟨by decide, fun id job hjob => ?_⟩
  rw [List.mem_singleton.mp (List.mem_of_find?_eq_some hjob)]
  exact ⟨rfl, rfl⟩

theorem sampleEvents_complete :
    ((workers .ascii (sampleFiles sampleCsv)).perform (fun _ _ => true) ⟨sampleWorld, []⟩
      sampleEvents).map (fun d => (d.world.db.transactions.map Transaction.transactionId,
        (d.world.db.job sampleId).map ImportJob.status)) = some (["T1"], some .COMPLETED) := by
  decide +kernel

theorem sample_import_in_ledger :
    ∃ d : WorkerPool, (workers .ascii (sampleFiles sampleCsv)).Reaches (fun _ _ => True)
        ⟨sampleWorld, []⟩ d ∧
      (d.world.db.job sampleId).map ImportJob.status = some .COMPLETED ∧
      (d.world.db.transactions.map Transaction.transactionId).Nodup ∧
      sampleWorld.db.transactions <+: d.world.db.transactions ∧
      ∃ x ∈ d.world.db.transactions, x.transactionId = "T1" := by
  obtain ⟨d, hd, hout⟩ := Option.map_eq_some_iff.mp sampleEvents_complete
  have hr : (workers .ascii (sampleFiles sampleCsv)).Reaches (fun _ _ => True)
      ⟨sampleWorld, []⟩ d := System.reaches_of_perform (fun _ _ _ => trivial) hd
  obtain ⟨h1, -, h3, -, -⟩ :=
    no_transaction_lost_duplicated_or_invented .ascii (sampleFiles sampleCsv)
      sampleWorld_unprocessed .refl hr
  simp only [Prod.mk.injEq] at hout
  have hmem : "T1" ∈ d.world.db.transactions.map Transaction.transactionId := by simp [hout.1]
  obtain ⟨x, hx, hid⟩ := List.mem_map.mp hmem
  exact ⟨d, hr, hout.2, h1, h3, x, hx, hid⟩

end TransactionPlatform
