import TransactionPlatform.Foundation.Paging
import TransactionPlatform.Worker.Counters

/-!
# Listing the errors of an import

`get_import_errors` of `app/api/v1/imports.py` sorts by `row_number` alone, and the table
`import_errors` does not make row numbers unique: that a job has at most one record for each row is
due to the worker, which writes the records of a batch and the checkpoint behind it in one
transaction.  `Numbered` is that invariant, and with it the pages are exact whatever order Postgres
gives to equal keys.
-/

namespace TransactionPlatform

open Interleaved Paging

/-! ### The endpoint -/

/-- `ImportErrorItem`. -/
structure ImportErrorItem where
  row : ℕ
  transactionId : Option String
  error : String
  deriving DecidableEq

/-- `ImportErrorItem(row=r.row_number, ...)`. -/
def ImportError.item (e : ImportError) : ImportErrorItem := ⟨e.rowNumber, e.transactionId, e.error⟩

/-- `ImportErrorPage`. -/
structure ImportErrorPage where
  items : List ImportErrorItem
  page : ℕ
  limit : ℕ
  total : ℕ
  deriving DecidableEq

/-- `SELECT ... FROM import_errors WHERE import_job_id = ...`. -/
def Db.errorsOf (db : Db) (id : Uuid) : List ImportError :=
  db.errors.filter fun e => e.importJobId = id

/-- `get_import_errors` for a client behind the rate limiter; a failure is an HTTP status.  Its three
statements find the rows that are committed when each of them runs: the job is looked up in `jobDb`,
the records are counted in `countDb`, and the page is one of `db`. -/
def getImportErrors (plan : Plan ImportError) (jobDb countDb db : Db) (clientId importId : Uuid)
    (page limit : ℕ) : Except ℕ ImportErrorPage :=
  if 1 ≤ page ∧ 1 ≤ limit ∧ limit ≤ 500 then
    match jobDb.jobs.find? fun job => decide (job.id = importId ∧ job.clientId = clientId) with
    | none => .error 404
    | some _ =>
      let total := (countDb.errorsOf importId).length
      let rows := Paging.page limit page (plan.orderBy ImportError.rowNumber (db.errorsOf importId))
      .ok ⟨rows.map ImportError.item, page, limit, total⟩
  else .error 422

/-! ### One record a row -/

/-- The job has at most one record for each row, and none behind its checkpoint. -/
structure Numbered (db : Db) (job : ImportJob) : Prop where
  nodup : ((db.errorsOf job.id).map ImportError.rowNumber).Nodup
  le : ∀ e ∈ db.errorsOf job.id, e.rowNumber ≤ job.lastCommittedRow

variable {py : Python} {files : String → Option Csv} {t : Attempt} {db db' : Db}
variable {job job' : ImportJob}

/-- A job without records. -/
theorem Numbered.of_none (h : ∀ e ∈ db.errors, e.importJobId ≠ job.id) : Numbered db job := by
  have hnil : db.errorsOf job.id = [] :=
    List.filter_eq_nil_iff.mpr fun e he hid => h e he (of_decide_eq_true hid)
  refine ⟨?_, fun e he => ?_⟩
  · rw [hnil]
    exact List.nodup_nil
  · rw [hnil] at he
    cases he

/-- A commit that inserts no record and does not move the checkpoint. -/
theorem Numbered.assign (h : Numbered db job) (herrors : db'.errors = db.errors)
    (hid : job'.id = job.id) (hlast : job'.lastCommittedRow = job.lastCommittedRow) :
    Numbered db' job' := by
  have heq : db'.errorsOf job'.id = db.errorsOf job.id := by
    unfold Db.errorsOf
    rw [herrors, hid]
  refine ⟨?_, fun e he => ?_⟩
  · rw [heq]
    exact h.nodup
  · rw [heq] at he
    rw [hlast]
    exact h.le e he

/-- A commit of a batch: its records are about the rows between the two checkpoints. -/
theorem Numbered.batch {rows : List Row} {base : ℕ} {b : Batch} (h : Numbered db job)
    (hb : Buffered py job.id rows base job.lastCommittedRow b) :
    Numbered ((Session.mk job job b.work false).commitDb db)
      ((Session.mk job job b.work false).commitJob db) := by
  simp only [Session.commitDb, Session.commitJob, Batch.work, Session.transaction_batch]
  refine ⟨nodup_errors_append hb h.nodup fun e he hid => ?_, fun e he => ?_⟩
  · exact h.le e (List.mem_filter.mpr ⟨he, decide_eq_true hid⟩)
  · change e.rowNumber ≤ b.rowNumber
    obtain ⟨hmem, hid⟩ := List.mem_filter.mp he
    rcases List.mem_append.mp hmem with hmem | hmem
    · exact (h.le e (List.mem_filter.mpr ⟨hmem, hid⟩)).trans hb.last_le
    · exact (hb.job_errors e hmem).2.2

/-- What a commit does to the records of its job. -/
theorem numbered_commit {a : Phase} {s : Session} {cont : ImportJob → Phase}
    (hc : Commits py files t a s cont) (h : Numbered db s.saved) (hfact : CountersAt t a) :
    Numbered (s.commitDb db) (s.commitJob db) := by
  cases hc with
  | giveUp hid => exact h.assign rfl rfl rfl
  | start hid => exact h.assign rfl rfl rfl
  | batch hid hcsv hcol hb hlt hfits => exact h.batch hb
  | finish hid hcsv hcol hlen hend => exact h.assign rfl rfl rfl
  | reject hid hcsv hcol => exact h.assign rfl rfl rfl
  | handle hid =>
    change s = (Session.opened s.saved).requeue at hfact
    rw [hfact]
    exact h.assign rfl rfl rfl

/-- A commit adds no record to another job. -/
theorem numbered_frame {a : Phase} {s : Session} {cont : ImportJob → Phase}
    (hc : Commits py files t a s cont) (hfact : CountersAt t a) (hne : job.id ≠ t.importJobId)
    (h : Numbered db job) : Numbered (s.commitDb db) job := by
  cases hc with
  | giveUp hid => exact h.assign rfl rfl rfl
  | start hid => exact h.assign rfl rfl rfl
  | @batch row base csv b hid hcsv hcol hb hlt hfits =>
    have hother : (b.errors.filter fun e => e.importJobId = job.id) = [] := by
      refine List.filter_eq_nil_iff.mpr fun e he heq => hne ?_
      rw [← of_decide_eq_true heq, (hb.job_errors e he).1, hid]
    have hsame : ((Session.mk row row b.work false).commitDb db).errorsOf job.id =
        db.errorsOf job.id := by
      simp only [Session.commitDb, Batch.work, Session.transaction_batch]
      change (db.errors ++ b.errors).filter _ = _
      rw [List.filter_append, hother, List.append_nil]
      rfl
    refine ⟨?_, fun e he => ?_⟩
    · rw [hsame]
      exact h.nodup
    · rw [hsame] at he
      exact h.le e he
  | finish hid hcsv hcol hlen hend => exact h.assign rfl rfl rfl
  | reject hid hcsv hcol => exact h.assign rfl rfl rfl
  | handle hid =>
    change s = (Session.opened s.saved).requeue at hfact
    rw [hfact]
    exact h.assign rfl rfl rfl

theorem numberedRule (py : Python) (files : String → Option Csv) :
    ExclusiveRule py files (fun c e => Sequential c e ∧ System.Exclusive Attempt.importJobId c)
      Numbered CountersAt (fun _ _ => True) NotRefused where
  exclusive c e hC := hC.2
  allowed c i t o k f a hC hi _ := hC.1.2 _ (Option.mem_def.mpr hi) o k rfl
  quiet t o f db a a' hallow hq _ _ hfact := counters_quiet hallow hq hfact
  commit t f db a s cont _ hc _ h hfact :=
    ⟨numbered_commit hc h hfact, trivial, countersAt_commit hc db hfact⟩
  frame t f db a s cont _ hc hfact row hne h := numbered_frame hc hfact hne h
  create c id client name path key _ hunused :=
    ⟨.of_none (World.unused_iff.mp hunused).2.2, fun row h => h.assign rfl rfl rfl⟩
  unread _ := trivial
  ended _ _ := trivial
  refl _ := trivial
  trans _ _ _ _ _ := trivial

/-! ### All pages -/

/-- Distinct row numbers make the order of the records strict. -/
theorem pairwise_lt_of_nodup {records : List ImportError}
    (hle : records.Pairwise fun x y => x.rowNumber ≤ y.rowNumber)
    (hnodup : (records.map ImportError.rowNumber).Nodup) :
    (records.map ImportError.item).Pairwise fun x y => x.row < y.row := by
  rw [List.pairwise_map]
  refine (hle.and (List.pairwise_map.mp hnodup)).imp ?_
  rintro x y ⟨hxy, hne⟩
  exact lt_of_le_of_ne hxy hne

/-- Paging through the errors of an import is exact, in every state that any number of jobs reach
while attempts at one job do not overlap and statements fail only in Postgres: no row of the job has
two records, none is behind the checkpoint, and the pages list every record once, in the order of
the rows, whatever order Postgres gives to equal keys in each query. -/
theorem error_paging_exact (py : Python) (files : String → Option Csv) {w : World}
    (hw : ∀ id job, w.db.job id = some job → ∀ e ∈ w.db.errors, e.importJobId ≠ id)
    {c : WorkerPool} (hc : (workers py files).Reaches Sequential ⟨w, []⟩ c) {id : Uuid}
    {job : ImportJob} (hjob : c.world.db.job id = some job) :
    ((c.world.db.errorsOf id).map ImportError.rowNumber).Nodup ∧
    (∀ e ∈ c.world.db.errorsOf id, e.rowNumber ≤ job.lastCommittedRow) ∧
    ∀ (plans : ℕ → Plan ImportError) (limit : ℕ), 1 ≤ limit → limit ≤ 500 →
      ∃ (total : ℕ) (page : ℕ → ImportErrorPage),
        (∀ n, 1 ≤ n →
          getImportErrors (plans n) c.world.db c.world.db c.world.db job.clientId id n limit =
            .ok (page n) ∧
            (page n).total = total) ∧
        let all := (List.range' 1 (pageCount limit total)).flatMap fun n => (page n).items
        all.Perm ((c.world.db.errorsOf id).map ImportError.item) ∧
          (all.Pairwise fun x y => x.row < y.row) ∧ all.length = total := by
  obtain ⟨hinv, -⟩ := (numberedRule py files).reaches (fun _ _ he => he.1)
    (fun id job hjob => .of_none (by rw [Db.id_of_job hjob]; exact hw id job hjob)) hc .refl
  obtain ⟨hnodup, hle⟩ := hinv id job hjob
  rw [Db.id_of_job hjob] at hnodup hle
  refine ⟨hnodup, hle, fun plans limit hlow hhigh => ?_⟩
  obtain ⟨records, hrecords⟩ : ∃ records, records = c.world.db.errorsOf id := ⟨_, rfl⟩
  rw [← hrecords] at hnodup ⊢
  have hk : records.length ≤ pageCount limit records.length * limit := length_le_pageCount_mul hlow
  have hperm := (unsplit_of_nodup hnodup limit).pages_perm plans hk
  refine ⟨records.length, fun n => ⟨(Paging.page limit n
    ((plans n).orderBy ImportError.rowNumber records)).map ImportError.item, n, limit,
    records.length⟩, fun n hn => ⟨?_, rfl⟩, ?_⟩
  · -- the job is one of the client
    unfold getImportErrors
    rw [if_pos ⟨hn, hlow, hhigh⟩]
    cases hfind : c.world.db.jobs.find? fun row =>
        decide (row.id = id ∧ row.clientId = job.clientId) with
    | none =>
      have hnot := List.find?_eq_none.mp hfind job (List.mem_of_find?_eq_some hjob)
      exact absurd (decide_eq_true ⟨Db.id_of_job hjob, rfl⟩) hnot
    | some row =>
      rw [hrecords]
  · intro all
    have hall : all = (pages plans ImportError.rowNumber limit (pageCount limit records.length)
        records).map ImportError.item := List.map_flatMap.symm
    rw [hall]
    refine ⟨hperm.map _, pairwise_lt_of_nodup (pairwise_pages plans hk) ?_, ?_⟩
    · exact (hperm.map _).nodup_iff.mpr hnodup
    · rw [List.length_map, length_pages plans hk]

/-- A file with two empty rows. -/
def sampleEmptyRows : Csv := ⟨requiredColumns, [[], []], false⟩

/-- The import of this file is cut off behind its first row, and resumed. -/
theorem sampleEmptyRows_recorded :
    ((workers .ascii (sampleFiles sampleEmptyRows)).perform Sequential.test ⟨sampleWorld, []⟩
      (sampleCrash ++ sampleResume)).bind (fun c =>
        (c.world.db.job sampleId).map fun job =>
          (job.status, (c.world.db.errorsOf sampleId).map ImportError.rowNumber)) =
      some (.COMPLETED, [1, 2]) := by
  decide +kernel

/-- On pages of one row the two records are listed once each, although the second query finds them
the other way round. -/
theorem sample_error_paging :
    ∃ (c : WorkerPool) (job : ImportJob) (total : ℕ) (page : ℕ → ImportErrorPage),
      (workers .ascii (sampleFiles sampleEmptyRows)).Reaches Sequential ⟨sampleWorld, []⟩ c ∧
      c.world.db.job sampleId = some job ∧ job.status = .COMPLETED ∧
      getImportErrors ⟨List.reverse, List.reverse_perm⟩ c.world.db c.world.db c.world.db job.clientId
        sampleId 2 1 = .ok (page 2) ∧
      ((List.range' 1 (pageCount 1 total)).flatMap fun n => (page n).items).length = total ∧
      ((List.range' 1 (pageCount 1 total)).flatMap fun n => (page n).items).Pairwise
        fun x y => x.row < y.row := by
  obtain ⟨c, hrun, hout⟩ := Option.bind_eq_some_iff.mp sampleEmptyRows_recorded
  obtain ⟨job, hjob, heq⟩ := Option.map_eq_some_iff.mp hout
  have hc := System.reaches_of_perform (C := Sequential) (fun _ _ => Sequential.of_test) hrun
  obtain ⟨-, -, hpages⟩ := error_paging_exact .ascii (sampleFiles sampleEmptyRows)
    (w := sampleWorld) (fun _ _ _ e he => by cases he) hc hjob
  obtain ⟨total, page, hok, -, hlt, hlen⟩ :=
    hpages (fun n => if n = 2 then ⟨List.reverse, List.reverse_perm⟩ else ⟨id, fun l => .refl l⟩) 1
      le_rfl (by decide)
  exact ⟨c, job, total, page, hc, hjob, congrArg Prod.fst heq, (hok 2 (by decide)).1, hlen, hlt⟩

end TransactionPlatform
