import Mathlib.Algebra.Order.BigOperators.Group.Finset
import TransactionPlatform.Worker.Fleet
import TransactionPlatform.Worker.Retries

/-!
# A healthy worker drains the stream

Whatever state the worker processes have left behind, one fresh worker for which nothing fails any
more, with the time going on, brings every entry to its end: it is acknowledged, and its job is
completed or failed.  A call of `process_entry` in which no operation fails either acknowledges its
entry or uses up one of the retries of its job, and touches no other job.  An entry whose file is
missing, cannot be read to its end or has rows that raise in `validate_row` stops the `for` loop of
the worker, so that the entries behind it have to be claimed again; since its retries run out, it
cannot do so for ever.  This is not so for a file with a row that its columns refuse: the exception
is not counted, and the entry stands in the way of those behind it.  So the files are assumed to
fit.
-/

namespace TransactionPlatform

open Interleaved ConsumerGroup

variable {py : Python} {files : String → Option Csv}

/-! ### Files that fit -/

/-- The client and the columns take whatever an import makes of the file of the job. -/
def FileStores (py : Python) (files : String → Option Csv) (job : ImportJob) : Prop :=
  ∀ csv, files job.storagePath = some csv → ∀ row ∈ csv.rows, stores py job.id row = true

theorem FileStores.congr {job job' : ImportJob} (h : FileStores py files job)
    (hid : job'.id = job.id) (hpath : job'.storagePath = job.storagePath) :
    FileStores py files job' := by
  unfold FileStores
  rw [hid, hpath]
  exact h

/-- The statements of a batch are taken. -/
theorem FileStores.taken {job : ImportJob} {csv : Csv} {base : ℕ} {b : Batch}
    (h : FileStores py files job) (hcsv : files job.storagePath = some csv)
    (hb : Buffered py job.id csv.rows base job.lastCommittedRow b) :
    ∀ stmt ∈ b.work, stmt.taken = true :=
  Batch.taken_work (hb.taken_iff.mpr fun _ _ _ =>
    rowFits_of_stores fun row hrow => h csv hcsv row (List.mem_of_getElem? hrow))

/-- The `except` block has not exchanged the file of the job. -/
def Phase.KeepsPath : Phase → Prop
  | .handle s _ => s.current.storagePath = s.saved.storagePath
  | _ => True

theorem Phase.keepsPath_loaded (row : Option ImportJob) : (Phase.loaded row).KeepsPath := by
  rcases Phase.loaded_cases row with ⟨hph, -⟩ | ⟨job, hph, -⟩ | ⟨job, hph, -⟩ <;>
    · rw [hph]
      trivial

theorem Raises.keepsPath {t : Attempt} {o : WorkerOp} {f : Fault} {a a' : Phase}
    (h : Raises py files t o f a a') : a'.KeepsPath := by
  cases h with
  | load => trivial
  | server => trivial
  | insert => rfl
  | update => rfl
  | openCsv => rfl
  | readRow => rfl

theorem Commits.keepsPath {t : Attempt} {a : Phase} {s : Session} {cont : ImportJob → Phase}
    (h : Commits py files t a s cont) (job : ImportJob) : (cont job).KeepsPath := by
  cases h <;> trivial

/-- The file of the job of the attempt fits, and stays the file of the job. -/
structure StoresAt (py : Python) (files : String → Option Csv) (t : Attempt) (db : Db) (a : Phase) :
    Prop where
  row : ∀ job, db.job t.importJobId = some job → FileStores py files job
  path : a.KeepsPath

/-- The moves without effect on the tables. -/
theorem StoresAt.quiet {t : Attempt} {o : WorkerOp} {f : Fault} {db : Db} {a a' : Phase}
    (h : StoresAt py files t db a) (hq : Quiet py files t o f db a a') :
    StoresAt py files t db a' := by
  refine ⟨h.row, ?_⟩
  cases hq with
  | load => exact Phase.keepsPath_loaded _
  | stay => exact h.path
  | fail hr => exact hr.keepsPath
  | finish => trivial
  | unacked hid hf => rfl

/-- Every move keeps the file of the job. -/
theorem StoresAt.move {t : Attempt} {o : WorkerOp} {f : Fault} {w w' : World} {a a' : Phase}
    (h : StoresAt py files t w.db a) (hexact : Exact t w.db a)
    (hmove : Move py files t o f w a w' a') : StoresAt py files t w'.db a' := by
  rcases hmove.db_cases with ⟨hdb, hq⟩ | ⟨s, cont, -, hc, hdb, hnext⟩
  · rw [hdb]
    exact h.quiet hq
  · obtain ⟨hhold, hid, -⟩ := hc.holding
    obtain ⟨hnew, -⟩ := hexact.commit hc
    have hpath : s.current.storagePath = s.saved.storagePath := by
      cases hc with
      | handle hid => exact h.path
      | _ => rfl
    refine ⟨fun job hjob => ?_, ?_⟩
    · rw [hdb, hnew] at hjob
      cases hjob
      have hrow := hexact s.saved hhold
      refine (h.row _ hrow).congr ?_ ((s.storagePath_commitJob w.db).trans hpath)
      rw [s.commitJob_id, hid, Db.id_of_job hrow]
    · rcases hnext with ⟨-, rfl⟩ | ⟨-, e, rfl⟩
      · exact hc.keepsPath _
      · trivial

/-! ### One call in which nothing fails -/

/-- The phases of a call of `process_entry` in which no operation fails, at a job with `r` retries
used. -/
def DrainAt (r : ℕ) (t : Attempt) (w : World) : Phase → Prop
  | .unread => PendingEntry t w ∧ ∀ job, w.db.job t.importJobId = some job → job.retryCount = r
  | .giveUp _ => PendingEntry t w
  | .start job => PendingEntry t w ∧ job.retryCount = r ∧ r < maxRetries
  | .scan job _ => PendingEntry t w ∧ job.retryCount = r ∧ r < maxRetries
  | .ackTry job => PendingEntry t w ∧ job.status.terminal = true
  | .ack => PendingEntry t w ∧
      ∀ job, w.db.job t.importJobId = some job → job.status.terminal = true
  | .handle s _ => PendingEntry t w ∧ r < maxRetries ∧ ∀ db, (s.commitJob db).retryCount = r + 1
  | .ended (.ok _) => w.stream[t.entry]? = some ⟨t.importJobId, .acked⟩ ∧
      ∀ job, w.db.job t.importJobId = some job → job.status.terminal = true
  | .ended (.error _) => PendingEntry t w ∧ r < maxRetries ∧
      ∃ job, w.db.job t.importJobId = some job ∧ job.retryCount = r + 1

theorem drainAt_loaded {r : ℕ} {t : Attempt} {w : World} (h : DrainAt r t w .unread) :
    DrainAt r t w (.loaded (w.db.job t.importJobId)) := by
  obtain ⟨hpend, hretry⟩ := h
  rcases Phase.loaded_cases (w.db.job t.importJobId) with ⟨hph, hst⟩ | ⟨job, hph, hjob, -, -⟩ |
    ⟨job, hph, hjob, -, hlt⟩
  · rw [hph]
    refine ⟨hpend, fun job hjob => ?_⟩
    rw [hst job hjob]
    rfl
  · rw [hph]
    exact hpend
  · rw [hph]
    have hr := hretry job hjob
    exact ⟨hpend, hr, hr ▸ hlt⟩

/-- One operation of such a call. -/
theorem DrainAt.move {r : ℕ} {t : Attempt} {o : WorkerOp} {w w' : World} {a a' : Phase}
    (h : DrainAt r t w a) (hexact : Exact t w.db a) (hstores : StoresAt py files t w.db a)
    (hmove : Move py files t o .ok w a w' a') : DrainAt r t w' a' := by
  cases hmove with
  | load => exact drainAt_loaded h
  | stay hdb hstream ha =>
    cases a with
    | ended r => exact absurd rfl (ha r)
    | _ => simpa only [DrainAt, PendingEntry, hdb, hstream] using h
  | fail hr =>
    obtain ⟨job, base, e, rfl, rfl, -⟩ := hr.of_ok fun job base csv b ha hcsv hb => by
      subst ha
      exact (hstores.row job (hexact job rfl)).taken hcsv hb
    exact ⟨h.1, h.2.2, fun db => congrArg (· + 1) h.2.1⟩
  | @commit s _ _ _ cont e hc =>
    obtain ⟨hnew, -⟩ := hexact.commit hc
    cases hc with
    | giveUp hid =>
      refine ⟨h, fun job hjob => ?_⟩
      have heq := hnew.symm.trans hjob
      cases heq
      rfl
    | start hid => exact h
    | batch hid hcsv hcol hb hlt hfits =>
      refine ⟨h.1, ?_, h.2.2⟩
      simp only [Session.commitJob, Batch.work, Session.transaction_batch]
      exact h.2.1
    | finish hid hcsv hcol hlen hend => exact ⟨h.1, rfl⟩
    | reject hid hcsv hcol => exact ⟨h.1, rfl⟩
    | handle hid => exact ⟨h.1, h.2.1, _, hnew, h.2.2 w.db⟩
  | ack => exact ⟨Stream.xack_pending h.1, h.2⟩
  | @ackTry _ _ job hid =>
    refine ⟨Stream.xack_pending h.1, fun job' hjob' => ?_⟩
    have heq := (hexact job rfl).symm.trans hjob'
    cases heq
    exact h.2

/-- What a call leaves as it was: the other entries of the stream and the other jobs. -/
structure Spares (t : Attempt) (w w' : World) : Prop where
  length : w'.stream.length = w.stream.length
  entries : ∀ e, e ≠ t.entry → w'.stream[e]? = w.stream[e]?
  jobs : ∀ id, id ≠ t.importJobId → w'.db.job id = w.db.job id
  exists_job : ∀ id, (∃ row, w.db.job id = some row) → ∃ row, w'.db.job id = some row

theorem Spares.refl (t : Attempt) (w : World) : Spares t w w :=
  ⟨rfl, fun _ _ => rfl, fun _ _ => rfl, fun _ h => h⟩

theorem Spares.move {t : Attempt} {o : WorkerOp} {f : Fault} {w₀ w w' : World} {a a' : Phase}
    (h : Spares t w₀ w) (hmove : Move py files t o f w a w' a') : Spares t w₀ w' := by
  have hjobs : ∀ id, id ≠ t.importJobId → w'.db.job id = w.db.job id := by
    intro id hid
    rcases hmove.db_cases with ⟨hdb, -⟩ | ⟨s, cont, -, hc, hdb, -⟩
    · rw [hdb]
    · rw [hdb]
      exact Session.job_commitDb_of_ne s (by rw [hc.holding.2.1]; exact hid)
  refine ⟨?_, fun e he => ?_, fun id hid => (hjobs id hid).trans (h.jobs id hid), fun id hid => ?_⟩
  · rcases hmove.stream_cases with hstream | ⟨hstream, -, -⟩
    · rw [hstream]
      exact h.length
    · rw [hstream, ← h.length]
      unfold Stream.xack
      split
      · exact List.length_set
      · rfl
  · rcases hmove.stream_cases with hstream | ⟨hstream, -, -⟩
    · rw [hstream]
      exact h.entries e he
    · rw [hstream, ← h.entries e he]
      unfold Stream.xack
      split
      · exact List.getElem?_set_ne (Ne.symm he)
      · rfl
  · have hid' := h.exists_job id hid
    rcases hmove.db_cases with ⟨hdb, -⟩ | ⟨s, cont, -, -, hdb, -⟩
    · rw [hdb]
      exact hid'
    · rw [hdb]
      exact s.exists_job_commitDb hid'

/-- A call of `process_entry` in which nothing fails acknowledges its entry, with a finished job, or
uses up a retry of the job; nothing else changes. -/
theorem processEntry_runAll (t : Attempt) {w : World} (hpend : PendingEntry t w) {r : ℕ}
    (hr : ∀ job, w.db.job t.importJobId = some job → job.retryCount = r)
    (hstores : ∀ job, w.db.job t.importJobId = some job → FileStores py files job) :
    let u := (processEntry py t.batchSize t.entry t.importJobId).runAll (WorkerOp.exec files) .ok w
    DrainAt r t u.1 (.ended u.2) ∧ Spares t w u.1 ∧
      ∀ job, u.1.db.job t.importJobId = some job → FileStores py files job := by
  intro u
  obtain ⟨a, ⟨hdrain, -, hspares, hstored⟩, hended⟩ :=
    (processEntry_follows py files t).runAll (f := .ok)
      (J := fun w' a => DrainAt r t w' a ∧ Exact t w'.db a ∧ Spares t w w' ∧
        StoresAt py files t w'.db a) (w := w)
      ⟨⟨hpend, hr⟩, exact_of_none rfl, .refl t w, ⟨hstores, trivial⟩⟩
      fun o w' a w'' a' h hmove => ⟨h.1.move h.2.1 h.2.2.2 hmove, h.2.1.move hmove,
        h.2.2.1.move hmove, h.2.2.2.move h.2.1 hmove⟩
  rw [hended] at hdrain
  exact ⟨hdrain, hspares, hstored.row⟩

/-! ### Jobs that can be imported -/

/-- The file has the required columns and can be read to its end, and `validate_row` returns on
every record. -/
def Csv.Importable (csv : Csv) (py : Python) : Prop :=
  csv.missingColumns = [] ∧ csv.raises = false ∧
    ∀ (i : ℕ) (row : Row) (e : String), csv.rows[i]? = some row →
      py.validateRow row (i + 1) ≠ .raised e

/-- The file of the job can be imported. -/
def HasImportable (py : Python) (files : String → Option Csv) (job : ImportJob) : Prop :=
  ∃ csv, files job.storagePath = some csv ∧ csv.Importable py

/-- The job is completed, or it is unfinished with retries left; its file can be imported. -/
structure Viable (py : Python) (files : String → Option Csv) (job : ImportJob) : Prop where
  file : HasImportable py files job
  state : job.status = .COMPLETED ∨ job.status.terminal = false ∧ job.retryCount < maxRetries

/-- The job of the attempt is completed, and its file can be imported. -/
def RowCompleted (py : Python) (files : String → Option Csv) (t : Attempt) (db : Db) : Prop :=
  ∃ job, db.job t.importJobId = some job ∧ Viable py files job ∧ job.status = .COMPLETED

/-- The phases of a call of `process_entry` in which no operation fails, at such a job. -/
def ViableAt (py : Python) (files : String → Option Csv) (t : Attempt) (db : Db) : Phase → Prop
  | .unread => ∃ job, db.job t.importJobId = some job ∧ Viable py files job
  | .start job => HasImportable py files job
  | .scan job _ => HasImportable py files job
  | .ackTry _ => RowCompleted py files t db
  | .ack => RowCompleted py files t db
  | .ended (.ok _) => RowCompleted py files t db
  | .giveUp _ => False
  | .handle _ _ => False
  | .ended (.error _) => False

theorem viableAt_loaded {t : Attempt} {db : Db} (h : ViableAt py files t db .unread) :
    ViableAt py files t db (.loaded (db.job t.importJobId)) := by
  obtain ⟨job, hjob, hv⟩ := h
  rcases Phase.loaded_cases (db.job t.importJobId) with ⟨hph, hst⟩ | ⟨job', hph, hjob', hst, hle⟩ |
    ⟨job', hph, hjob', -, -⟩
  · rw [hph]
    exact ⟨job, hjob, hv, hst job hjob⟩
  · rw [hjob] at hjob'
    cases hjob'
    rcases hv.state with hdone | ⟨-, hlt⟩
    · exact absurd hdone hst
    · exact absurd hlt (Nat.not_lt.mpr hle)
  · rw [hjob] at hjob'
    cases hjob'
    rw [hph]
    exact hv.file

/-- One operation of such a call. -/
theorem ViableAt.move {t : Attempt} {o : WorkerOp} {w w' : World} {a a' : Phase}
    (h : ViableAt py files t w.db a) (hexact : Exact t w.db a)
    (hstores : StoresAt py files t w.db a)
    (hmove : Move py files t o .ok w a w' a') : ViableAt py files t w'.db a' := by
  cases hmove with
  | load => exact viableAt_loaded h
  | stay hdb hstream ha =>
    rw [hdb]
    exact h
  | fail hr =>
    obtain ⟨job, base, e, rfl, rfl, hwhy⟩ := hr.of_ok fun job base csv b ha hcsv hb => by
      subst ha
      exact (hstores.row job (hexact job rfl)).taken hcsv hb
    obtain ⟨csv, hcsv, -, hend, hreturns⟩ := h
    rcases hwhy with hnone | ⟨csv', hcsv', hraises⟩
    · rw [hcsv] at hnone
      cases hnone
    · rw [hcsv] at hcsv'
      cases hcsv'
      rcases hraises with hraises | ⟨i, row, name, -, hrow, hraised⟩
      · rw [hend] at hraises
        cases hraises
      · exact hreturns i row name hrow hraised
  | @commit s _ _ _ cont e hc =>
    obtain ⟨hnew, -⟩ := hexact.commit hc
    cases hc with
    | giveUp hid => exact h.elim
    | start hid => exact h
    | batch hid hcsv hcol hb hlt hfits =>
      show HasImportable py files (Session.commitJob _ w.db)
      simp only [Session.commitJob, Batch.work, Session.transaction_batch]
      exact h
    | finish hid hcsv hcol hlen hend => exact ⟨_, hnew, ⟨h, .inl rfl⟩, rfl⟩
    | reject hid hcsv hcol =>
      obtain ⟨csv, hcsv', hcol', -⟩ := h
      rw [hcsv] at hcsv'
      cases hcsv'
      exact absurd hcol' hcol
    | handle hid => exact h.elim
  | ack => exact h
  | ackTry hid => exact h

/-- A call of `process_entry` in which nothing fails completes such a job. -/
theorem processEntry_imports (t : Attempt) {w : World}
    (hstores : ∀ job, w.db.job t.importJobId = some job → FileStores py files job)
    {job : ImportJob} (hjob : w.db.job t.importJobId = some job) (hv : Viable py files job) :
    RowCompleted py files t ((processEntry py t.batchSize t.entry t.importJobId).runAll
      (WorkerOp.exec files) .ok w).1.db := by
  obtain ⟨a, ⟨hat, -⟩, hended⟩ := (processEntry_follows py files t).runAll (f := .ok)
    (J := fun w' a => ViableAt py files t w'.db a ∧ Exact t w'.db a ∧ StoresAt py files t w'.db a)
    (w := w) ⟨⟨job, hjob, hv⟩, exact_of_none rfl, ⟨hstores, trivial⟩⟩
    fun o w' a w'' a' h hmove =>
      ⟨h.1.move h.2.1 h.2.2 hmove, h.2.1.move hmove, h.2.2.move h.2.1 hmove⟩
  rw [hended] at hat
  cases hres : ((processEntry py t.batchSize t.entry t.importJobId).runAll (WorkerOp.exec files) .ok
    w).2 with
  | ok u =>
    rw [hres] at hat
    exact hat
  | error e =>
    rw [hres] at hat
    exact hat.elim

/-! ### The backlog -/

/-- The retries that the attempts at a job have used. -/
def Db.retries (db : Db) (id : Uuid) : ℕ := ((db.job id).map ImportJob.retryCount).getD 0

/-- How often an entry can still be handled: not at all once it is acknowledged, else once more than
its job has retries left. -/
def World.weight (w : World) (e : ℕ) : ℕ :=
  w.stream[e]?.elim 0 fun x =>
    if x.delivery = .acked then 0 else 1 + (maxRetries - w.db.retries x.importJobId)

/-- How often the entries of the stream can still be handled. -/
def World.backlog (w : World) : ℕ := ∑ e ∈ Finset.range w.stream.length, w.weight e

/-- The jobs of the entries. -/
def World.enqueued (w : World) : List Uuid := w.stream.map StreamEntry.importJobId

/-- The files of the entries that are not acknowledged fit. -/
def Storing (py : Python) (files : String → Option Csv) (w : World) : Prop :=
  ∀ (e : ℕ) id y, w.stream[e]? = some ⟨id, y⟩ → y ≠ .acked →
    ∀ job, w.db.job id = some job → FileStores py files job

/-- What handling entries does to the stream: acknowledged entries and their jobs stay as they are,
an entry that gets acknowledged has a finished job, the backlog does not grow, a job that can be
imported does not fail, and no file is exchanged. -/
structure Drains (py : Python) (files : String → Option Csv) (w w' : World) : Prop where
  length : w'.stream.length = w.stream.length
  entry : ∀ (e : ℕ) (id : Uuid) (y : Delivery), w.stream[e]? = some ⟨id, y⟩ →
    ∃ y' : Delivery, w'.stream[e]? = some ⟨id, y'⟩ ∧
    (y = .acked → y' = .acked ∧ w'.db.job id = w.db.job id) ∧
    (y ≠ .acked → y' = .acked → ∀ job, w'.db.job id = some job → job.status.terminal = true)
  exists_job : ∀ id, (∃ row, w.db.job id = some row) → ∃ row, w'.db.job id = some row
  backlog : w'.backlog ≤ w.backlog
  viable : ∀ id job, w.db.job id = some job → Viable py files job →
    ∃ job', w'.db.job id = some job' ∧ Viable py files job'
  storing : Storing py files w → Storing py files w'

theorem Drains.refl (w : World) : Drains py files w w :=
  ⟨rfl, fun _ _ y h => ⟨y, h, fun hy => ⟨hy, rfl⟩, fun hy hy' => absurd hy' hy⟩, fun _ h => h,
    Nat.le_refl _, fun _ job h hv => ⟨job, h, hv⟩, id⟩

theorem Drains.trans {w w' w'' : World} (h : Drains py files w w') (h' : Drains py files w' w'') :
    Drains py files w w'' := by
  refine ⟨h'.length.trans h.length, fun e id y hy => ?_,
    fun id hid => h'.exists_job id (h.exists_job id hid), h'.backlog.trans h.backlog,
    fun id job hjob hv => ?_, h'.storing ∘ h.storing⟩
  swap
  · obtain ⟨job', hjob', hv'⟩ := h.viable id job hjob hv
    exact h'.viable id job' hjob' hv'
  obtain ⟨y', hy', hacked, hopen⟩ := h.entry e id y hy
  obtain ⟨y'', hy'', hacked', hopen'⟩ := h'.entry e id y' hy'
  refine ⟨y'', hy'', fun hya => ?_, fun hyo hya => ?_⟩
  · obtain ⟨ha, hjob⟩ := hacked hya
    obtain ⟨ha', hjob'⟩ := hacked' ha
    exact ⟨ha', hjob'.trans hjob⟩
  · by_cases ha : y' = .acked
    · rw [(hacked' ha).2]
      exact hopen hyo ha
    · exact hopen' ha hya

/-- The entries keep their jobs. -/
theorem Drains.enqueued {w w' : World} (h : Drains py files w w') : w'.enqueued = w.enqueued := by
  refine List.ext_getElem? fun e => ?_
  unfold World.enqueued
  rw [List.getElem?_map, List.getElem?_map]
  cases hx : w.stream[e]? with
  | none =>
    rw [List.getElem?_eq_none_iff, ← h.length, ← List.getElem?_eq_none_iff] at hx
    rw [hx]
  | some x =>
    obtain ⟨y', hy', -, -⟩ := h.entry e x.importJobId x.delivery hx
    rw [hy']
    rfl

/-- Handing an entry out changes nothing that counts. -/
theorem drains_claim {w : World} {e : ℕ} {s : Stream} {id : Uuid}
    (h : w.stream.claim e = some (s, id)) : Drains py files w { w with stream := s } := by
  obtain ⟨⟨x, hx, hxa⟩, hs, hother⟩ := Stream.claim_eq_some h
  have hlen : s.length = w.stream.length := by
    unfold Stream.claim at h
    split at h
    · cases h
      exact List.length_set
    · cases h
      rfl
    · cases h
  refine ⟨hlen, fun e' id' y hy => ?_, fun _ hid => hid, ?_, fun _ job hjob hv => ⟨job, hjob, hv⟩,
    fun hstoring e' id' y hy hya => ?_⟩
  · by_cases he : e' = e
    · subst he
      rw [hx] at hy
      cases hy
      exact ⟨.pending, hs, fun ha => absurd ha hxa, fun _ ha => by cases ha⟩
    · exact ⟨y, (hother e' he).trans hy, fun ha => ⟨ha, rfl⟩, fun hne ha => absurd ha hne⟩
  · unfold World.backlog
    rw [hlen]
    refine Finset.sum_le_sum fun e' _ => ?_
    unfold World.weight
    by_cases he : e' = e
    · subst he
      simp only [hs, hx, Option.elim_some, if_neg hxa]
      exact Nat.le_refl _
    · simp only [hother e' he]
      exact Nat.le_refl _
  · by_cases he : e' = e
    · subst he
      rw [hs] at hy
      cases hy
      exact hstoring e' id x hx hxa
    · exact hstoring e' id' y ((hother e' he).symm.trans hy) hya

section Handling

variable {t : Attempt} {w w' : World}

/-- The other entries stay as they are, with their jobs. -/
theorem Spares.other (h : Spares t w w') (hnodup : w.enqueued.Nodup) (hpend : PendingEntry t w)
    {e : ℕ} {x : StreamEntry} (he : e ≠ t.entry) (hx : w.stream[e]? = some x) :
    w'.stream[e]? = some x ∧ w'.db.job x.importJobId = w.db.job x.importJobId := by
  have hjob : ∀ (e : ℕ) x, w.stream[e]? = some x → w.enqueued[e]? = some x.importJobId := by
    intro e x hx
    unfold World.enqueued
    rw [List.getElem?_map, hx]
    rfl
  exact ⟨(h.entries e he).trans hx,
    h.jobs _ (importJobId_ne hnodup (hjob e x hx) (hjob t.entry _ hpend) he)⟩

/-- If the entry of the call counts less, the backlog is smaller. -/
theorem Spares.backlog_lt (h : Spares t w w') (hnodup : w.enqueued.Nodup) (hpend : PendingEntry t w)
    (hlt : w'.weight t.entry < w.weight t.entry) : w'.backlog < w.backlog := by
  obtain ⟨hmem, -⟩ := List.getElem?_eq_some_iff.mp hpend
  have hweight : ∀ e, e ≠ t.entry → w'.weight e = w.weight e := by
    intro e he
    unfold World.weight
    cases hx : w.stream[e]? with
    | none =>
      rw [h.entries e he, hx]
      rfl
    | some x =>
      obtain ⟨hx', hjob⟩ := h.other hnodup hpend he hx
      rw [hx']
      simp only [Option.elim_some, Db.retries, hjob]
  unfold World.backlog
  rw [h.length]
  refine Finset.sum_lt_sum (fun e _ => ?_) ⟨t.entry, Finset.mem_range.mpr hmem, hlt⟩
  by_cases he : e = t.entry
  · rw [he]
    exact Nat.le_of_lt hlt
  · exact Nat.le_of_eq (hweight e he)

/-- The entry of a call that has ended is acknowledged, or its job has one retry less. -/
theorem weight_lt_of_drainAt {x : Except Exn Unit} (hpend : PendingEntry t w)
    (h : DrainAt (w.db.retries t.importJobId) t w' (.ended x)) :
    w'.weight t.entry < w.weight t.entry ∧
      ∃ y, w'.stream[t.entry]? = some ⟨t.importJobId, y⟩ ∧
        (y = .acked → ∀ job, w'.db.job t.importJobId = some job → job.status.terminal = true) := by
  have hw : w.weight t.entry = 1 + (maxRetries - w.db.retries t.importJobId) := by
    unfold World.weight
    rw [hpend]
    rfl
  cases x with
  | ok u =>
    have hw' : w'.weight t.entry = 0 := by
      unfold World.weight
      rw [h.1]
      rfl
    exact ⟨by omega, .acked, h.1, fun _ => h.2⟩
  | error e =>
    obtain ⟨hp, hlt, job, hjob, hretry⟩ := h
    have hw' : w'.weight t.entry = 1 + (maxRetries - (w.db.retries t.importJobId + 1)) := by
      unfold World.weight
      rw [hp, ← hretry]
      simp only [Option.elim_some, Db.retries, hjob]
      rfl
    exact ⟨by omega, .pending, hp, nofun⟩

/-- Handling a pending entry with nothing failing reduces the backlog. -/
theorem drains_processEntry (t : Attempt) (hnodup : w.enqueued.Nodup) (hpend : PendingEntry t w)
    (hstoring : Storing py files w) :
    let u := (processEntry py t.batchSize t.entry t.importJobId).runAll (WorkerOp.exec files) .ok w
    Drains py files w u.1 ∧ u.1.backlog < w.backlog := by
  intro u
  have hstores : ∀ job, w.db.job t.importJobId = some job → FileStores py files job :=
    hstoring t.entry t.importJobId .pending hpend nofun
  obtain ⟨hdrain, hspares, hstored⟩ := processEntry_runAll t hpend
    (r := w.db.retries t.importJobId) (fun job hjob => by rw [Db.retries, hjob]; rfl) hstores
  obtain ⟨hlt, y, hy, hterm⟩ := weight_lt_of_drainAt hpend hdrain
  have hback := hspares.backlog_lt hnodup hpend hlt
  refine ⟨⟨hspares.length, fun e id z hz => ?_, hspares.exists_job, Nat.le_of_lt hback,
    fun id job hjob hv => ?_, fun _ e id z hz hza => ?_⟩, hback⟩
  · by_cases he : e = t.entry
    · subst he
      cases hpend.symm.trans hz
      exact ⟨y, hy, nofun, fun _ => hterm⟩
    · obtain ⟨hz', hjob⟩ := hspares.other hnodup hpend he hz
      exact ⟨z, hz', fun ha => ⟨ha, hjob⟩, fun hne ha => absurd ha hne⟩
  · by_cases hself : id = t.importJobId
    · subst hself
      obtain ⟨job', hjob', hv', -⟩ := processEntry_imports t hstores hjob hv
      exact ⟨job', hjob', hv'⟩
    · exact ⟨job, (hspares.jobs id hself).trans hjob, hv⟩
  · by_cases he : e = t.entry
    · subst he
      cases hy.symm.trans hz
      exact hstored
    · have hz₀ := (hspares.entries e he).symm.trans hz
      obtain ⟨-, hjob⟩ := hspares.other hnodup hpend he hz₀
      intro job hjob'
      exact hstoring e id z hz₀ hza job (hjob.symm.trans hjob')

end Handling

/-! ### A fresh worker -/

/-- Only the `n`-th worker takes steps, all of them succeed, and time passes. -/
def OnlyHealthy (n : ℕ) (_ : Fleet) : FleetEvent → Prop
  | .step i f => i = n ∧ f = .ok
  | .tick _ => True
  | _ => False

section Fresh

variable {pre : List WorkerProcess} {s : WorkerSettings}

/-- A step of the last worker. -/
theorem reaches_step {b b' : Backend} {ctl ctl' : Control}
    (h : WorkerProcess.step py files ⟨s, false, ctl⟩ .ok b = some (b', ctl')) :
    (fleet py files).Reaches (OnlyHealthy pre.length) ⟨b, pre ++ [⟨s, false, ctl⟩]⟩
      ⟨b', pre ++ [⟨s, false, ctl'⟩]⟩ := by
  refine Machine.Reaches.single (e := .step pre.length .ok) ⟨rfl, rfl⟩ ?_
  have hget : (pre ++ [⟨s, false, ctl⟩])[pre.length]? = some ⟨s, false, ctl⟩ :=
    List.getElem?_concat_length
  simp only [fleet, Fleet.next, hget, Option.bind_some, h, Option.map_some]
  rw [List.set_append_right _ _ (Nat.le_refl _), Nat.sub_self]
  rfl

variable (py files pre s)

/-- A call of `process_entry` in which nothing fails, on the backend. -/
theorem reaches_call (src : Source) (t : Attempt) (rest : List (ℕ × Uuid)) (p : EntryCall)
    (b : Backend) :
    ∃ b', (fleet py files).Reaches (OnlyHealthy pre.length)
        ⟨b, pre ++ [⟨s, false, .process src t p rest⟩]⟩
        ⟨b', pre ++ [⟨s, false,
          .process src t (.done (p.runAll (WorkerOp.exec files) .ok b.world).2) rest⟩]⟩ ∧
      b'.world = (p.runAll (WorkerOp.exec files) .ok b.world).1 ∧
      b'.stream.created = b.stream.created := by
  induction p generalizing b with
  | done r => exact ⟨b, .refl, rfl, rfl⟩
  | call o k ih =>
    obtain ⟨hworld, hans⟩ := b.world_exec files o .ok
    have hcreated : (b.exec files o .ok).1.stream.created = b.stream.created := by
      cases o <;> rfl
    obtain ⟨b', hreach, hw, hc⟩ := ih (b.exec files o .ok).2 (b.exec files o .ok).1
    rw [hworld, hans] at hreach hw
    refine ⟨b', (reaches_step ?_).trans hreach, hw, hc.trans hcreated⟩
    rw [← hans]
    rfl

/-- A `for` loop of the worker over pending entries, with nothing failing in Postgres, Redis and the
worker: it ends, at its end or with an exception, and reduces the backlog. -/
theorem loop_drains (src : Source) (xs : List (ℕ × Uuid)) {b : Backend}
    (hnodup : b.world.enqueued.Nodup) (hstoring : Storing py files b.world)
    (hdistinct : (xs.map Prod.fst).Nodup)
    (hxs : ∀ x ∈ xs, b.world.stream[x.1]? = some ⟨x.2, .pending⟩) :
    ∃ b' ctl, (fleet py files).Reaches (OnlyHealthy pre.length)
        ⟨b, pre ++ [⟨s, false, s.loop py src xs⟩]⟩ ⟨b', pre ++ [⟨s, false, ctl⟩]⟩ ∧
      (ctl = s.loop py src [] ∨ ctl = .sleep) ∧ Drains py files b.world b'.world ∧
      b'.stream.created = b.stream.created ∧
      (xs ≠ [] → b'.world.backlog < b.world.backlog) := by
  induction xs generalizing b with
  | nil => exact ⟨b, _, .refl, .inl rfl, .refl _, rfl, fun h => absurd rfl h⟩
  | cons x rest ih =>
    obtain ⟨hx, hrest⟩ := List.nodup_cons.mp hdistinct
    have hpend : PendingEntry (s.attempt x) b.world := hxs x List.mem_cons_self
    obtain ⟨hdrains, hlt⟩ := drains_processEntry (s.attempt x) hnodup hpend hstoring
    obtain ⟨-, hspares, -⟩ := processEntry_runAll (s.attempt x) hpend
      (r := b.world.db.retries x.2) (fun job hjob => by
        have hjob' : b.world.db.job x.2 = some job := hjob
        rw [Db.retries, hjob']
        rfl) (hstoring x.1 x.2 .pending hpend nofun)
    obtain ⟨b₁, hreach, hworld, hcreated⟩ := reaches_call py files pre s src (s.attempt x) rest
      (processEntry py s.workerBatchSize x.1 x.2) b
    change Drains py files b.world (Program.runAll (WorkerOp.exec files) .ok
      (processEntry py s.workerBatchSize x.1 x.2) b.world).1 at hdrains
    rw [← hworld] at hdrains
    have hlt' : b₁.world.backlog < b.world.backlog := by
      rw [hworld]
      exact hlt
    cases hres : ((processEntry py s.workerBatchSize x.1 x.2).runAll (WorkerOp.exec files) .ok
      b.world).2 with
    | error e =>
      rw [hres] at hreach
      exact ⟨b₁, .sleep, hreach.trans (reaches_step rfl), .inr rfl, hdrains, hcreated,
        fun _ => hlt'⟩
    | ok u =>
      rw [hres] at hreach
      -- the other entries are still pending
      have hxs' : ∀ y ∈ rest, b₁.world.stream[y.1]? = some ⟨y.2, .pending⟩ := by
        intro y hy
        have hne : y.1 ≠ x.1 := fun heq => hx (heq ▸ List.mem_map_of_mem hy)
        rw [hworld]
        exact (hspares.entries y.1 hne).trans (hxs y (List.mem_cons_of_mem _ hy))
      obtain ⟨b₂, ctl, hreach₂, hctl, hdrains₂, hcreated₂, -⟩ :=
        ih (b := b₁) (by rw [hdrains.enqueued]; exact hnodup) (hdrains.storing hstoring) hrest hxs'
      refine ⟨b₂, ctl, (hreach.trans (reaches_step rfl)).trans hreach₂, hctl,
        hdrains.trans hdrains₂, hcreated₂.trans hcreated, fun _ => ?_⟩
      exact hdrains₂.backlog.trans_lt hlt'

/-- Back to the head of `while`, from the end of the second `for` loop or from the `except` block. -/
theorem reaches_test {b : Backend} {ctl : Control} (h : ctl = s.loop py .new [] ∨ ctl = .sleep) :
    (fleet py files).Reaches (OnlyHealthy pre.length) ⟨b, pre ++ [⟨s, false, ctl⟩]⟩
      ⟨b, pre ++ [⟨s, false, .test⟩]⟩ := by
  rcases h with rfl | rfl
  · exact .refl
  · exact reaches_step rfl

/-- The second half of an iteration: a new entry is handled, or there is none. -/
theorem read_drains {b : Backend} (hcreated : b.stream.created = true)
    (hnodup : b.world.enqueued.Nodup) (hstoring : Storing py files b.world) :
    ∃ b', (fleet py files).Reaches (OnlyHealthy pre.length) ⟨b, pre ++ [⟨s, false, .read⟩]⟩
        ⟨b', pre ++ [⟨s, false, .test⟩]⟩ ∧
      Drains py files b.world b'.world ∧ b'.stream.created = true ∧
      (b'.world.backlog < b.world.backlog ∨
        (b'.stream.pending = b.stream.pending ∧ b'.stream.delivered = b'.stream.entries.length)) := by
  obtain ⟨g, es, hread⟩ : ∃ g es, b.stream.xreadgroup s.consumerName 1 b.redisTime = some (g, es) :=
    ⟨_, _, dif_pos hcreated⟩
  obtain ⟨-, hes, hentries, hcreated', hdelivered, hpending⟩ := Group.xreadgroup_eq_some hread
  have hstep : WorkerProcess.step py files ⟨s, false, .read⟩ .ok b =
      some ({ b with stream := g }, s.loop py .new (g.fetch es)) := by
    simp only [WorkerProcess.step, Backend.readNewJobs, hread]
    rw [Backend.receive_ok]
    rfl
  rcases streamOf_xreadgroup hread with ⟨rfl, hsame⟩ | ⟨id, rfl, hid, hclaim⟩
  · refine ⟨{ b with stream := g }, reaches_step hstep, ?_, hcreated'.trans hcreated, .inr ⟨?_, ?_⟩⟩
    · have hworld : ({ b with stream := g } : Backend).world = b.world :=
        congrArg (World.mk b.db · b.cache b.clock) hsame
      rw [hworld]
      exact .refl _
    · rw [hpending]
      exact List.append_nil _
    · have hlen := congrArg List.length hes
      rw [Group.length_news, List.length_nil] at hlen
      have := b.stream.delivered_le
      rw [hdelivered, hentries, List.length_nil]
      omega
  · have hfetch : g.fetch [b.stream.delivered] = [(b.stream.delivered, id)] := by
      simp only [Group.fetch, List.filterMap_cons, hentries, hid, Option.map_some,
        List.filterMap_nil]
    have hdrains : Drains py files b.world ({ b with stream := g } : Backend).world :=
      drains_claim hclaim
    obtain ⟨-, hpend, -⟩ := Stream.claim_eq_some hclaim
    have hnodup' : ({ b with stream := g } : Backend).world.enqueued.Nodup := by
      rw [hdrains.enqueued]
      exact hnodup
    obtain ⟨b', ctl, hreach, hctl, hdrains', hc, hlt⟩ := loop_drains py files pre s .new
      [(b.stream.delivered, id)] hnodup' (hdrains.storing hstoring) (List.nodup_singleton _)
      (fun x hx => by rw [List.mem_singleton.mp hx]; exact hpend)
    rw [hfetch] at hstep
    refine ⟨b', ((reaches_step hstep).trans hreach).trans (reaches_test py files pre s hctl),
      hdrains.trans hdrains', hc.trans (hcreated'.trans hcreated), .inl ?_⟩
    exact (hlt (List.cons_ne_nil _ _)).trans_le hdrains.backlog

/-- The claim at the head of an iteration, when every pending entry has been idle long enough: the
worker gets pending entries, or none is pending. -/
theorem reaches_reclaimed {b : Backend} (hcreated : b.stream.created = true) :
    ∃ (b₁ : Backend) (xs : List (ℕ × Uuid)), (fleet py files).Reaches (OnlyHealthy pre.length)
        ⟨b, pre ++ [⟨s, false, .test⟩]⟩ ⟨b₁, pre ++ [⟨s, false, s.loop py .reclaimed xs⟩]⟩ ∧
      b₁.world = b.world ∧ b₁.stream.created = true ∧ (xs.map Prod.fst).Nodup ∧
      (∀ x ∈ xs, b₁.world.stream[x.1]? = some ⟨x.2, .pending⟩) ∧
      (xs = [] → b₁.stream.pending = []) := by
  -- wait until every pending entry has been idle long enough
  obtain ⟨ms, hms⟩ : ∃ ms, ms = s.workerClaimIdleMs +
    (b.stream.pending.map Pending.deliveryTime).sum := ⟨_, rfl⟩
  have hidle : ∀ x ∈ b.stream.pending,
      s.workerClaimIdleMs ≤ b.redisTime + ms - x.deliveryTime := by
    intro x hx
    have hle : x.deliveryTime ≤ (b.stream.pending.map Pending.deliveryTime).sum :=
      List.single_le_sum (fun _ _ => Nat.zero_le _) _ (List.mem_map_of_mem hx)
    omega
  have htick : (fleet py files).Reaches (OnlyHealthy pre.length) ⟨b, pre ++ [⟨s, false, .test⟩]⟩
      ⟨{ b with redisTime := b.redisTime + ms }, pre ++ [⟨s, false, .test⟩]⟩ :=
    Machine.Reaches.single (e := .tick ms) trivial rfl
  obtain ⟨g, es, hclaim⟩ : ∃ g es, b.stream.xautoclaim s.consumerName s.workerClaimIdleMs 50
      (b.redisTime + ms) = some (g, es) := ⟨_, _, if_pos hcreated⟩
  obtain ⟨-, hes, hg⟩ := Group.xautoclaim_eq_some hclaim
  rw [scan_of_idle _ _ _ _ _ _ hidle] at hes
  obtain ⟨b₁, hb₁⟩ : ∃ b₁ : Backend, b₁ = { b with stream := g, redisTime := b.redisTime + ms } :=
    ⟨_, rfl⟩
  have hworld : b₁.world = b.world := by
    rw [hb₁, hg]
    exact congrArg (World.mk b.db · b.cache b.clock) (streamOf_claimIdle _ _ _ _ _)
  have hstep : WorkerProcess.step py files ⟨s, false, .reclaim⟩ .ok
      { b with redisTime := b.redisTime + ms } =
      some (b₁, s.loop py .reclaimed (g.fetch es)) := by
    simp only [WorkerProcess.step, Backend.reclaimStaleJobs, hclaim]
    rw [Backend.receive_ok, hb₁]
    rfl
  have hhead : (fleet py files).Reaches (OnlyHealthy pre.length)
      ⟨{ b with redisTime := b.redisTime + ms }, pre ++ [⟨s, false, .test⟩]⟩
      ⟨{ b with redisTime := b.redisTime + ms }, pre ++ [⟨s, false, .reclaim⟩]⟩ := reaches_step rfl
  refine ⟨b₁, g.fetch es, (htick.trans hhead).trans (reaches_step hstep), hworld, ?_, ?_,
    fun x hx => ?_, fun hnil => ?_⟩
  · rw [hb₁, hg]
    exact hcreated
  · rw [Group.fetch_xautoclaim hclaim]
    exact Group.nodup_of_xautoclaim hclaim
  · obtain ⟨he, hid⟩ := Group.mem_fetch.mp hx
    rw [hworld]
    refine getElem?_streamOf_pending (Group.isPending_of_xautoclaim hclaim he) ?_
    rw [hg] at hid
    exact hid
  · have hfst := Group.fetch_xautoclaim hclaim
    rw [hnil, hes] at hfst
    have hempty : b.stream.pending.map Pending.entry = [] := by
      cases hmap : b.stream.pending.map Pending.entry with
      | nil => rfl
      | cons x l =>
        rw [hmap] at hfst
        cases hfst
    rw [List.map_eq_nil_iff] at hempty
    rw [hb₁, hg]
    simp only [Group.claimIdle, hempty]
    rfl

/-- One iteration of the loop, after a while: the backlog has become smaller, or nothing is left. -/
theorem iteration_drains {b : Backend} (hcreated : b.stream.created = true)
    (hnodup : b.world.enqueued.Nodup) (hstoring : Storing py files b.world) :
    ∃ b', (fleet py files).Reaches (OnlyHealthy pre.length) ⟨b, pre ++ [⟨s, false, .test⟩]⟩
        ⟨b', pre ++ [⟨s, false, .test⟩]⟩ ∧
      Drains py files b.world b'.world ∧ b'.stream.created = true ∧
      (b'.world.backlog < b.world.backlog ∨
        (b'.stream.pending = [] ∧ b'.stream.delivered = b'.stream.entries.length)) := by
  obtain ⟨b₁, xs, hreach₁, hworld, hcreated₁, hdistinct, hpend, hempty⟩ :=
    reaches_reclaimed py files pre s hcreated
  rw [← hworld] at hnodup hstoring ⊢
  cases xs with
  | nil =>
    obtain ⟨b₂, hreach₂, hdrains, hc, hres⟩ := read_drains py files pre s hcreated₁ hnodup hstoring
    refine ⟨b₂, hreach₁.trans hreach₂, hdrains, hc, hres.imp_right fun h => ⟨?_, h.2⟩⟩
    rw [h.1]
    exact hempty rfl
  | cons x xs =>
    obtain ⟨b₂, ctl, hreach₂, hctl, hdrains, hc, hlt⟩ := loop_drains py files pre s .reclaimed
      (x :: xs) hnodup hstoring hdistinct hpend
    have hlt' := hlt (List.cons_ne_nil _ _)
    rcases hctl with rfl | rfl
    · obtain ⟨b₃, hreach₃, hdrains₃, hc₃, -⟩ := read_drains py files pre s (hc.trans hcreated₁)
        (by rw [hdrains.enqueued]; exact hnodup) (hdrains.storing hstoring)
      exact ⟨b₃, (hreach₁.trans hreach₂).trans hreach₃, hdrains.trans hdrains₃, hc₃,
        .inl (hdrains₃.backlog.trans_lt hlt')⟩
    · exact ⟨b₂, (hreach₁.trans hreach₂).trans (reaches_test py files pre s (.inr rfl)), hdrains,
        hc.trans hcreated₁, .inl hlt'⟩

/-- The loop goes on until nothing is left. -/
theorem test_drains {b : Backend} (hcreated : b.stream.created = true)
    (hnodup : b.world.enqueued.Nodup) (hstoring : Storing py files b.world) :
    ∃ b', (fleet py files).Reaches (OnlyHealthy pre.length) ⟨b, pre ++ [⟨s, false, .test⟩]⟩
        ⟨b', pre ++ [⟨s, false, .test⟩]⟩ ∧
      Drains py files b.world b'.world ∧ b'.stream.pending = [] ∧
      b'.stream.delivered = b'.stream.entries.length := by
  -- by induction on the backlog
  induction hn : b.world.backlog using Nat.strong_induction_on generalizing b with
  | _ n ih =>
    subst hn
    obtain ⟨b₁, hreach, hdrains, hcreated₁, hlt | ⟨hpending, hdelivered⟩⟩ :=
      iteration_drains py files pre s hcreated hnodup hstoring
    · obtain ⟨b₂, hreach₂, hdrains₂, hdone⟩ :=
        ih _ hlt hcreated₁ (by rw [hdrains.enqueued]; exact hnodup) (hdrains.storing hstoring) rfl
      exact ⟨b₂, hreach.trans hreach₂, hdrains.trans hdrains₂, hdone⟩
    · exact ⟨b₁, hreach, hdrains, hpending, hdelivered⟩

end Fresh

theorem Backend.enqueued_world (b : Backend) : b.world.enqueued = b.stream.entries := by
  refine List.ext_getElem? fun e => ?_
  unfold World.enqueued Backend.world
  rw [List.getElem?_map, getElem?_streamOf, Option.map_map]
  exact Option.map_id'

/-- When everything has been handed out and nothing is pending, everything is acknowledged. -/
theorem acked_of_drained {b : Backend} (hpending : b.stream.pending = [])
    (hdelivered : b.stream.delivered = b.stream.entries.length) {e : ℕ} {id : Uuid} {y : Delivery}
    (h : b.world.stream[e]? = some ⟨id, y⟩) : y = .acked := by
  rw [Backend.world, getElem?_streamOf] at h
  obtain ⟨id', hid', heq⟩ := Option.map_eq_some_iff.mp h
  obtain ⟨hlt, -⟩ := List.getElem?_eq_some_iff.mp hid'
  have hacked : deliveryOf b.stream e = .acked := by
    refine deliveryOf_of_acked (by rw [hdelivered]; exact hlt) ?_
    unfold Group.IsPending
    rw [hpending]
    exact List.not_mem_nil
  exact (congrArg StreamEntry.delivery heq).symm.trans hacked

/-- From every state of a fleet, reachable or not, a fresh worker for which nothing fails drains the
stream while the other workers do nothing, if the client and the columns take the rows of the files
behind the entries that are not acknowledged: all entries are acknowledged in the end, and the jobs
of those that were not acknowledged before are completed or failed. -/
theorem healthy_worker_drains (py : Python) (files : String → Option Csv) (c : Fleet)
    (hnodup : c.backend.stream.entries.Nodup)
    (hstores : ∀ (e : ℕ) id job, c.backend.stream.entries[e]? = some id →
      (c.backend.stream.delivered ≤ e ∨ c.backend.stream.IsPending e) →
      c.backend.db.job id = some job → FileStores py files job) (s : WorkerSettings) :
    ∃ c', (fleet py files).Reaches (OnlyHealthy c.workers.length)
        ⟨c.backend, c.workers ++ [⟨s, false, .starting⟩]⟩ c' ∧
      c'.backend.stream.entries = c.backend.stream.entries ∧
      c'.backend.stream.delivered = c'.backend.stream.entries.length ∧
      c'.backend.stream.pending = [] ∧
      ∀ (e : ℕ) id job, c.backend.stream.entries[e]? = some id →
        (c.backend.stream.delivered ≤ e ∨ c.backend.stream.IsPending e) →
        c.backend.db.job id = some job →
        ∃ job', c'.backend.db.job id = some job' ∧ job'.status.terminal = true := by
  have hstart : (fleet py files).Reaches (OnlyHealthy c.workers.length)
      ⟨c.backend, c.workers ++ [⟨s, false, .starting⟩]⟩
      ⟨{ c.backend with stream := c.backend.stream.create },
        c.workers ++ [⟨s, false, .test⟩]⟩ := reaches_step rfl
  have hnodup' :
      ({ c.backend with stream := c.backend.stream.create } : Backend).world.enqueued.Nodup := by
    rw [Backend.enqueued_world]
    exact hnodup
  have hstoring : Storing py files
      ({ c.backend with stream := c.backend.stream.create } : Backend).world := by
    intro e id y hy hya job hjob
    obtain ⟨id', hid', heq⟩ := Option.map_eq_some_iff.mp ((getElem?_streamOf _ e).symm.trans hy)
    cases heq
    exact hstores e id job hid' (deliveryOf_ne_acked_iff.mp hya) hjob
  obtain ⟨b', hreach, hdrains, hpending, hdelivered⟩ :=
    test_drains py files c.workers s rfl hnodup' hstoring
  have hentries := hdrains.enqueued
  rw [Backend.enqueued_world, Backend.enqueued_world] at hentries
  refine ⟨_, hstart.trans hreach, hentries, hdelivered, hpending, fun e id job hid hopen hjob => ?_⟩
  have hstream : (streamOf c.backend.stream)[e]? = some ⟨id, deliveryOf c.backend.stream e⟩ := by
    rw [getElem?_streamOf, hid]
    rfl
  obtain ⟨y', hy', -, hterm⟩ := hdrains.entry e id _ hstream
  obtain ⟨job', hjob'⟩ := hdrains.exists_job id ⟨job, hjob⟩
  exact ⟨job', hjob', hterm (deliveryOf_ne_acked_iff.mpr hopen)
    (acked_of_drained hpending hdelivered hy') job' hjob'⟩

/-- The sample file fits. -/
theorem fileStores_sampleJob : FileStores .ascii (sampleFiles sampleCsv) sampleJob := by
  intro csv hcsv row hrow
  cases hcsv
  have hall : ∀ row ∈ sampleCsv.rows, stores .ascii sampleId row = true := by decide +kernel
  exact hall row hrow

/-- The stream of the sample job is drained. -/
theorem sample_healthy_worker_drains :
    sampleBackend.stream.entries.Nodup ∧ FileStores .ascii (sampleFiles sampleCsv) sampleJob ∧
    ∃ c' job', (fleet .ascii (sampleFiles sampleCsv)).Reaches (OnlyHealthy 0)
        ⟨sampleBackend, [⟨sampleSettings, false, .starting⟩]⟩ c' ∧
      c'.backend.stream.pending = [] ∧ c'.backend.db.job sampleId = some job' ∧
      job'.status.terminal = true := by
  refine ⟨List.nodup_singleton sampleId, fileStores_sampleJob, ?_⟩
  have hfind : ∀ id job, sampleBackend.db.job id = some job → job = sampleJob := fun id job hjob =>
    List.mem_singleton.mp (List.mem_of_find?_eq_some hjob)
  obtain ⟨c', hreach, -, -, hpending, hjobs⟩ := healthy_worker_drains .ascii (sampleFiles sampleCsv)
    ⟨sampleBackend, []⟩ (List.nodup_singleton sampleId)
    (fun e id job _ _ hjob => hfind id job hjob ▸ fileStores_sampleJob) sampleSettings
  obtain ⟨job', hjob', hterm⟩ :=
    hjobs 0 sampleId sampleJob rfl (.inl (Nat.le_refl 0)) (by decide +kernel)
  exact ⟨c', job', hreach, hpending, hjob', hterm⟩

end TransactionPlatform
