import TransactionPlatform.Upload.Rows
import TransactionPlatform.Worker.Walk

/-!
# What an attempt touches

An attempt commits to the row of its own job, where it leaves the columns of the upload alone, adds
records that refer to this job, and opens the file of this job.  This holds in every run of the
workers, whatever fails: a statement that is left in a session is about the same job.
-/

namespace TransactionPlatform

open Interleaved KeyedTable

/-! ### The effect of a transaction -/

/-- The statement inserts nothing but records of the job. -/
def Stmt.About (id : Uuid) : Stmt → Prop
  | .insertTransactions rows => ∀ x ∈ rows, x.importJobId = some id
  | .insertErrors rows => ∀ x ∈ rows, x.importJobId = id
  | _ => True

/-- Nothing but the row of the job is changed, except for the columns of its upload, and nothing but
records of the job is inserted. -/
structure Db.Touched (id : Uuid) (db db' : Db) : Prop where
  jobs : ∃ g : ImportJob → ImportJob, (∀ row, (g row).upload = row.upload) ∧
    db'.jobs = updateKey ImportJob.id id g db.jobs
  transactions : ∀ x ∈ db'.transactions, x ∈ db.transactions ∨ x.importJobId = some id
  errors : ∀ x ∈ db'.errors, x ∈ db.errors ∨ x.importJobId = id

/-- Rows stay, with the columns of their uploads. -/
def Db.UploadsStay (db db' : Db) : Prop :=
  ∀ id row, db.job id = some row → ∃ row', db'.job id = some row' ∧ row'.upload = row.upload

/-- The columns of the upload contain the id. -/
theorem id_of_upload {job job' : ImportJob} (h : job.upload = job'.upload) : job.id = job'.id :=
  congrArg (fun u => u.1) h

/-- The columns of the upload contain the path. -/
theorem storagePath_of_upload {job job' : ImportJob} (h : job.upload = job'.upload) :
    job.storagePath = job'.storagePath :=
  congrArg (fun u => u.2.2.2.1) h

variable {py : Python} {files : String → Option Csv} {t : Attempt} {id id' : Uuid}
variable {db db' db'' : Db}

/-- Only records are inserted. -/
theorem Db.Touched.of_jobs (hjobs : db'.jobs = db.jobs)
    (htransactions : ∀ x ∈ db'.transactions, x ∈ db.transactions ∨ x.importJobId = some id)
    (herrors : ∀ x ∈ db'.errors, x ∈ db.errors ∨ x.importJobId = id) : db.Touched id db' := by
  refine ⟨⟨fun row => row, fun _ => rfl, ?_⟩, htransactions, herrors⟩
  simp [hjobs, updateKey]

/-- One row is updated, but not its upload. -/
theorem Db.Touched.of_updateJob {g : ImportJob → ImportJob}
    (hg : ∀ row, (g row).upload = row.upload) :
    db.Touched id (db.updateJob id g) :=
  ⟨⟨g, hg, rfl⟩, fun _ => .inl, fun _ => .inl⟩

theorem Db.Touched.refl : db.Touched id db := .of_jobs rfl (fun _ => .inl) fun _ => .inl

/-- One change after the other. -/
theorem Db.Touched.trans (h : db.Touched id db') (h' : db'.Touched id db'') :
    db.Touched id db'' := by
  obtain ⟨g, hg, hjobs⟩ := h.jobs
  obtain ⟨g', hg', hjobs'⟩ := h'.jobs
  refine ⟨⟨fun row => g' (g row), fun row => (hg' _).trans (hg row), ?_⟩, fun x hx => ?_,
    fun x hx => ?_⟩
  · rw [hjobs', hjobs, updateKey_updateKey fun row => id_of_upload (hg row)]
  · exact (h'.transactions x hx).elim (h.transactions x) .inr
  · exact (h'.errors x hx).elim (h.errors x) .inr

/-- The other rows stay as they are, and the row of the job keeps its upload. -/
theorem Db.Touched.uploadsStay (h : db.Touched id db') : db.UploadsStay db' := by
  intro id' row hrow
  obtain ⟨g, hg, hjobs⟩ := h.jobs
  have hid : ∀ row, (g row).id = row.id := fun row => id_of_upload (hg row)
  unfold Db.job at hrow ⊢
  rw [hjobs]
  by_cases heq : id' = id
  · subst heq
    rw [find?_updateKey_self hid, hrow]
    exact ⟨g row, rfl, hg row⟩
  · rw [find?_updateKey_of_ne hid heq, hrow]
    exact ⟨row, rfl, rfl⟩

/-- A flush of an object whose upload has not been assigned to. -/
theorem upload_flush {saved current : ImportJob} (h : saved.upload = current.upload)
    (row : ImportJob) : (ImportJob.flush saved current row).upload = row.upload := by
  simp only [ImportJob.upload, Prod.mk.injEq] at h
  obtain ⟨-, h1, h2, h3, h4⟩ := h
  simp only [ImportJob.upload, ImportJob.flush, h1, h2, h3, h4, flushed_self]

/-- The job object of a transaction has the columns of the upload, and has had them when it was
saved. -/
structure Tx.Holds (u : Uuid × Uuid × String × String × String) (x : Tx) : Prop where
  current : x.current.upload = u
  saved : x.saved.upload = u

/-- The flush of the object. -/
theorem Tx.Holds.flush {u : Uuid × Uuid × String × String × String} {x : Tx} (h : x.Holds u) :
    x.flush.Holds u ∧ x.db.Touched u.1 x.flush.db := by
  refine ⟨⟨h.current, h.current⟩, ?_⟩
  have hid : x.current.id = u.1 := congrArg (fun u => u.1) h.current
  rw [← hid]
  exact .of_updateJob (upload_flush (h.saved.trans h.current.symm))

/-- One statement. -/
theorem Tx.Holds.run {u : Uuid × Uuid × String × String × String} {x : Tx} (h : x.Holds u)
    {stmt : Stmt} (hstmt : stmt.About u.1) :
    (x.run stmt).Holds u ∧ x.db.Touched u.1 (x.run stmt).db := by
  cases stmt with
  | insertTransactions rows =>
    exact ⟨⟨h.current, h.saved⟩, .of_jobs rfl
      (fun y hy => (mem_insertAbsent hy).imp_right (hstmt y)) fun _ => .inl⟩
  | insertErrors rows =>
    exact ⟨⟨h.current, h.saved⟩, .of_jobs rfl (fun _ => .inl)
      fun y hy => (List.mem_append.mp hy).imp_right (hstmt y)⟩
  | advance valid errors upTo => exact ⟨⟨h.current, h.saved⟩, .refl⟩
  | updateProgress =>
    obtain ⟨hholds, htouched⟩ := h.flush
    have hid : x.flush.current.id = u.1 := congrArg (fun u => u.1) hholds.current
    refine ⟨⟨hholds.current, hholds.saved⟩, htouched.trans ?_⟩
    rw [← hid]
    exact .of_updateJob fun _ => rfl

/-- The statements of a transaction. -/
theorem Tx.Holds.foldl {u : Uuid × Uuid × String × String × String} {x : Tx} (h : x.Holds u)
    {work : List Stmt} (hwork : ∀ stmt ∈ work, stmt.About u.1) :
    (work.foldl Tx.run x).Holds u ∧ x.db.Touched u.1 (work.foldl Tx.run x).db := by
  induction work generalizing x with
  | nil => exact ⟨h, .refl⟩
  | cons stmt work ih =>
    obtain ⟨hfirst, htouched⟩ := h.run (hwork stmt List.mem_cons_self)
    obtain ⟨hrest, htouched'⟩ := ih hfirst fun s hs => hwork s (List.mem_cons_of_mem _ hs)
    exact ⟨hrest, htouched.trans htouched'⟩

/-! ### The sessions of an attempt -/

/-- The row of the job of an attempt has the columns of the upload that the object has. -/
def RowOf (t : Attempt) (db : Db) (job : ImportJob) : Prop :=
  ∃ row, db.job t.importJobId = some row ∧ row.upload = job.upload

/-- The object is that of the job of the attempt. -/
theorem RowOf.id_eq {job : ImportJob} (h : RowOf t db job) : job.id = t.importJobId := by
  obtain ⟨row, hrow, hup⟩ := h
  rw [← id_of_upload hup]
  exact Db.id_of_job hrow

/-- What an attempt knows about its row survives what the others do. -/
theorem RowOf.mono {job : ImportJob} (h : RowOf t db job) (hdb : db.UploadsStay db') :
    RowOf t db' job := by
  obtain ⟨row, hrow, hup⟩ := h
  obtain ⟨row', hrow', hup'⟩ := hdb _ row hrow
  exact ⟨row', hrow', hup'.trans hup⟩

/-- A session that commits to the row of its job only. -/
structure Session.Proper (t : Attempt) (db : Db) (s : Session) : Prop where
  row : RowOf t db s.current
  saved : s.saved.upload = s.current.upload
  work : ∀ stmt ∈ s.work, stmt.About t.importJobId

/-- What the commit of such a session does. -/
theorem Session.Proper.commit {s : Session} (h : s.Proper t db) :
    db.Touched t.importJobId (s.commitDb db) ∧ (s.commitJob db).upload = s.current.upload := by
  have hid : s.current.upload.1 = t.importJobId := h.row.id_eq
  have hstart : Tx.Holds s.current.upload ⟨db, s.current, s.saved, 0⟩ := ⟨rfl, h.saved⟩
  have hwork : ∀ stmt ∈ s.work, stmt.About s.current.upload.1 := by
    rw [hid]
    exact h.work
  obtain ⟨hholds, htouched⟩ := hstart.foldl hwork
  obtain ⟨hholds', htouched'⟩ := hholds.flush
  have hboth := htouched.trans htouched'
  rw [hid] at hboth
  exact ⟨hboth, hholds'.current⟩

/-- The inserts of a batch. -/
theorem about_inserts {valid : List Transaction} {errors : List ImportError}
    (hvalid : ∀ x ∈ valid, x.importJobId = some id) (herrors : ∀ x ∈ errors, x.importJobId = id) :
    ∀ stmt ∈ inserts valid errors, stmt.About id := by
  intro stmt hstmt
  unfold inserts at hstmt
  rcases List.mem_append.mp hstmt with hstmt | hstmt
  · cases hv : valid.isEmpty with
    | true => simp [hv] at hstmt
    | false =>
      simp only [hv, Bool.not_false, cond_true, List.mem_singleton] at hstmt
      rw [hstmt]
      exact hvalid
  · cases he : errors.isEmpty with
    | true => simp [he] at hstmt
    | false =>
      simp only [he, Bool.not_false, cond_true, List.mem_singleton] at hstmt
      rw [hstmt]
      exact herrors

/-- The session of the `except` block when nothing was executed. -/
theorem Session.Proper.opened {job : ImportJob} (h : RowOf t db job) :
    (Session.opened job).requeue.Proper t db :=
  ⟨h, rfl, fun stmt hstmt => by cases hstmt⟩

/-! ### The phases -/

/-- What an attempt knows about the row of its job. -/
def FootprintAt (t : Attempt) (db : Db) : Phase → Prop
  | .giveUp job => RowOf t db job
  | .start job => RowOf t db job
  | .scan job _ => RowOf t db job
  | .ackTry job => RowOf t db job
  | .handle s _ => s.Proper t db
  | _ => True

/-- The same for every phase. -/
theorem FootprintAt.mono {a : Phase} (h : FootprintAt t db a) (hdb : db.UploadsStay db') :
    FootprintAt t db' a := by
  cases a with
  | giveUp job => exact RowOf.mono h hdb
  | start job => exact RowOf.mono h hdb
  | scan job base => exact RowOf.mono h hdb
  | ackTry job => exact RowOf.mono h hdb
  | handle s e => exact ⟨h.row.mono hdb, h.saved, h.work⟩
  | _ => trivial

/-- Every session an attempt commits is proper. -/
theorem Commits.proper {a : Phase} {s : Session} {cont : ImportJob → Phase}
    (h : Commits py files t a s cont) (ha : FootprintAt t db a) : s.Proper t db := by
  cases h with
  | giveUp hid => exact ⟨ha, rfl, fun stmt hstmt => by cases hstmt⟩
  | start hid => exact ⟨ha, rfl, fun stmt hstmt => by cases hstmt⟩
  | batch hid hcsv hcol hb hlt hfits =>
    refine ⟨ha, rfl, fun stmt hstmt => ?_⟩
    rw [← hid]
    rcases List.mem_append.mp hstmt with hstmt | hstmt
    · exact about_inserts hb.job_valid (fun x hx => (hb.job_errors x hx).1) stmt hstmt
    · rcases List.mem_cons.mp hstmt with rfl | hstmt
      · trivial
      · rw [List.mem_singleton.mp hstmt]
        trivial
  | finish hid hcsv hcol hlen hend => exact ⟨ha, rfl, fun stmt hstmt => by cases hstmt⟩
  | reject hid hcsv hcol => exact ⟨ha, rfl, fun stmt hstmt => by cases hstmt⟩
  | handle hid => exact ha

/-- Behind a commit the object is that of the row again. -/
theorem FootprintAt.commit {a : Phase} {s : Session} {cont : ImportJob → Phase}
    (ha : FootprintAt t db a) (h : Commits py files t a s cont) :
    FootprintAt t (s.commitDb db) (cont (s.commitJob db)) := by
  obtain ⟨htouched, hup⟩ := (h.proper ha).commit
  have hrow : RowOf t (s.commitDb db) (s.commitJob db) := by
    obtain ⟨row, hrow, hrowup⟩ := (h.proper ha).row.mono htouched.uploadsStay
    exact ⟨row, hrow, hrowup.trans hup.symm⟩
  cases h with
  | start hid => exact hrow
  | batch hid hcsv hcol hb hlt hfits => exact hrow
  | finish hid hcsv hcol hlen hend => exact hrow
  | reject hid hcsv hcol => exact hrow
  | _ => trivial

/-- The moves without effect on the tables. -/
theorem FootprintAt.quiet {a a' : Phase} {o : WorkerOp} {f : Fault} (ha : FootprintAt t db a)
    (h : Quiet py files t o f db a a') : FootprintAt t db a' := by
  cases h with
  | load =>
    rcases Phase.loaded_cases (db.job t.importJobId) with ⟨ha', -⟩ | ⟨job, ha', hjob, -⟩ |
      ⟨job, ha', hjob, -⟩
    · rw [ha']
      trivial
    · rw [ha']
      exact ⟨job, hjob, rfl⟩
    · rw [ha']
      exact ⟨job, hjob, rfl⟩
  | stay => exact ha
  | fail hr =>
    cases hr with
    | load hf => trivial
    | server => trivial
    | insert hid hcsv hb hmem hvalid hout =>
      refine ⟨ha, rfl, about_inserts (fun x hx => ?_) fun x hx => by cases hx⟩
      rcases hvalid with rfl | rfl
      · cases hx
      · rw [← hid]
        exact hb.job_valid x hx
    | update hid hcsv hb hout =>
      refine ⟨ha, rfl, fun stmt hstmt => ?_⟩
      rw [← hid]
      rcases List.mem_append.mp hstmt with hstmt | hstmt
      · exact about_inserts hb.job_valid (fun x hx => (hb.job_errors x hx).1) stmt hstmt
      · rw [List.mem_singleton.mp hstmt]
        trivial
    | openCsv hid hwhy => exact .opened ha
    | readRow hid hwhy => exact .opened ha
  | finish => trivial
  | unacked hid hf => exact .opened ha

/-! ### All runs -/

/-- The primary key of `import_jobs`, and the foreign keys that refer to it. -/
structure JobKeys (db : Db) : Prop where
  primary : (db.jobs.map ImportJob.id).Nodup
  transactions : ∀ x ∈ db.transactions, ∀ id, x.importJobId = some id →
    ∃ row, db.job id = some row
  errors : ∀ x ∈ db.errors, ∃ row, db.job x.importJobId = some row

/-- New records refer to jobs that exist. -/
theorem JobKeys.mono (h : JobKeys db) (hdb : db.UploadsStay db')
    (hprimary : (db'.jobs.map ImportJob.id).Nodup)
    (htransactions : ∀ x ∈ db'.transactions, x ∈ db.transactions ∨
      ∃ id row, x.importJobId = some id ∧ db.job id = some row)
    (herrors : ∀ x ∈ db'.errors, x ∈ db.errors ∨ ∃ row, db.job x.importJobId = some row) :
    JobKeys db' := by
  have hjob : ∀ {id'}, (∃ row, db.job id' = some row) → ∃ row, db'.job id' = some row := by
    rintro id' ⟨row, hrow⟩
    obtain ⟨row', hrow', -⟩ := hdb id' row hrow
    exact ⟨row', hrow'⟩
  refine ⟨hprimary, ?_, ?_⟩
  · intro x hx id' hid'
    rcases htransactions x hx with hx | ⟨id, row, heq, hrow⟩
    · exact hjob (h.transactions x hx id' hid')
    · rw [heq] at hid'
      cases hid'
      exact hjob ⟨row, hrow⟩
  · intro x hx
    exact hjob ((herrors x hx).elim (h.errors x) id)

/-- A commit of an attempt inserts records of its own job only. -/
theorem JobKeys.touched (h : JobKeys db) (hdb : db.Touched id db') {row : ImportJob}
    (hrow : db.job id = some row) : JobKeys db' := by
  refine h.mono hdb.uploadsStay ?_
    (fun x hx => (hdb.transactions x hx).imp_right fun heq => ⟨id, row, heq, hrow⟩)
    fun x hx => (hdb.errors x hx).imp_right fun heq => ⟨row, by rw [heq]; exact hrow⟩
  obtain ⟨g, hg, hjobs⟩ := hdb.jobs
  rw [hjobs, map_key_updateKey fun row => id_of_upload (hg row)]
  exact h.primary

/-- The outline of the footprints. -/
def footprintOutline : Outline World Attempt Phase where
  Inv w := JobKeys w.db
  Loc t a w := FootprintAt t w.db a
  Guar w w' := w.db.UploadsStay w'.db

/-- Every move of an attempt stays within its footprint. -/
theorem footprintOutline_sound (py : Python) (files : String → Option Csv) :
    footprintOutline.Sound (workers py files) (fun _ _ => True) (Move py files)
      fun _ r a => a = .ended r := by
  refine workers_sound ?_ ?_
  · intro c ph i t o k f a' h _ hi hmove _
    have hinv : JobKeys c.world.db := h.inv
    have hat : FootprintAt t c.world.db (ph i) := h.loc i t _ hi
    rcases hmove.db_cases with ⟨hdb, hq⟩ | ⟨s, cont, -, hc, hdb, hnext⟩
    · simp only [footprintOutline, hdb]
      exact ⟨hinv, hat.quiet hq, fun id row hrow => ⟨row, hrow, rfl⟩,
        fun j t' p' _ hj => h.loc j t' p' hj⟩
    · obtain ⟨htouched, -⟩ := (hc.proper hat).commit
      obtain ⟨row, hrow, -⟩ := (hc.proper hat).row
      simp only [footprintOutline, hdb]
      refine ⟨hinv.touched htouched hrow, ?_, htouched.uploadsStay,
        fun j t' p' _ hj => FootprintAt.mono (h.loc j t' p' hj) htouched.uploadsStay⟩
      rcases hnext with ⟨-, rfl⟩ | ⟨-, e, rfl⟩
      · exact hat.commit hc
      · trivial
  · intro c ph x w r h _ hx
    have hinv : JobKeys c.world.db := h.inv
    rcases Arrival.apply_cases hx with ⟨id, client, name, path, key, -, hunused, rfl, rfl⟩ |
      ⟨id, -, -, -, rfl, rfl⟩ | ⟨entry, size, stream, id, -, -, rfl, rfl⟩
    · have hstay : c.world.db.UploadsStay { c.world.db with
          jobs := c.world.db.jobs ++ [ImportJob.queued id client name path key] } :=
        fun id' row hrow => ⟨row, Db.job_append_of_some hrow, rfl⟩
      have hprimary : ((c.world.db.jobs ++
          [ImportJob.queued id client name path key]).map ImportJob.id).Nodup := by
        rw [List.map_append]
        refine List.nodup_append.mpr ⟨hinv.primary, List.nodup_singleton id, fun a ha b hb => ?_⟩
        rw [List.mem_singleton.mp hb]
        obtain ⟨row, hrow, rfl⟩ := List.mem_map.mp ha
        exact (World.unused_iff.mp hunused).1 row hrow
      exact ⟨hinv.mono hstay hprimary (fun _ => .inl) fun _ => .inl, hstay,
        fun j t p hj => FootprintAt.mono (h.loc j t p hj) hstay, fun t p hr => by cases hr⟩
    · exact ⟨hinv, fun id row hrow => ⟨row, hrow, rfl⟩, h.loc, fun t p hr => by cases hr⟩
    · exact ⟨hinv, fun id row hrow => ⟨row, hrow, rfl⟩, h.loc, fun t p _ => trivial⟩

/-! ### The file an attempt opens -/

section Opens

variable {α β : Type} {path : String}

/-- The path an attempt knows: none before the job is loaded, and that of the row afterwards. -/
inductive PathMove (t : Attempt) :
    WorkerOp → Fault → World → Option String → World → Option String → Prop where
  | load {f : Fault} {w w' : World} :
      PathMove t (.selectJob t.importJobId) f w none w'
        ((w.db.job t.importJobId).map ImportJob.storagePath)
  | openCsv {path : String} {f : Fault} {w w' : World} :
      PathMove t (.openCsv path) f w (some path) w' (some path)
  | other {o : WorkerOp} {f : Fault} {w w' : World} {a : Option String}
      (h : ∀ path, o ≠ .openCsv path) : PathMove t o f w a w' a

/-- The routine opens no file but the one of the job, and keeps the path of the job. -/
def WorkerM.Opens (files : String → Option Csv) (t : Attempt) (path : String) (m : WorkerM α) :
    Prop :=
  ∀ s : Session, s.current.storagePath = path →
    Routine.Follows (WorkerOp.exec files) (PathMove t)
      (fun _ s a => a = some path ∧ s.current.storagePath = path) m s (some path)

theorem opens_pure (x : α) : (pure x : WorkerM α).Opens files t path := fun _ hs => ⟨rfl, hs⟩

theorem opens_raise (e : Exn) : WorkerM.Opens files t path (Routine.raise e : WorkerM α) :=
  fun _ hs => ⟨rfl, hs⟩

/-- One routine behind the other. -/
theorem WorkerM.Opens.bind {m : WorkerM α} {f : α → WorkerM β} (hm : m.Opens files t path)
    (hf : ∀ x, (f x).Opens files t path) : (m >>= f).Opens files t path := by
  intro s hs
  refine Routine.Follows.bind (Routine.Follows.mono (hm s hs) ?_)
  rintro (e | x) s' a ⟨rfl, hs'⟩
  · exact ⟨rfl, hs'⟩
  · exact hf x s' hs'

/-- A routine with its handler. -/
theorem WorkerM.Opens.tryExcept {m : WorkerM α} {handler : Exn → WorkerM α}
    (hm : m.Opens files t path) (hh : ∀ e, (handler e).Opens files t path) :
    WorkerM.Opens files t path (Routine.tryExcept m handler) := by
  intro s hs
  refine Routine.Follows.tryExcept (Routine.Follows.mono (hm s hs) ?_)
  rintro (e | x) s' a ⟨rfl, hs'⟩
  · exact hh e s' hs'
  · exact ⟨rfl, hs'⟩

/-- The routine behind a look at the session. -/
theorem opens_get {f : Session → WorkerM β}
    (hf : ∀ s, s.current.storagePath = path → (f s).Opens files t path) :
    WorkerM.Opens files t path (Routine.get >>= f) :=
  fun s hs => Routine.Follows.bind (Routine.follows_get (hf s hs s hs))

/-- An assignment to anything but the path. -/
theorem opens_modify {g : Session → Session}
    (hg : ∀ s, (g s).current.storagePath = s.current.storagePath) :
    WorkerM.Opens files t path (Routine.modify g) :=
  fun s hs => Routine.follows_modify ⟨rfl, (hg s).trans hs⟩

theorem opens_runIf {c : Bool} {m : WorkerM Unit} (hm : m.Opens files t path) :
    WorkerM.Opens files t path (Routine.runIf c m) := by
  cases c with
  | false => exact opens_pure ()
  | true => exact hm

/-- Every operation but `open`. -/
theorem opens_ask {o : WorkerOp} (ho : ∀ path, o ≠ .openCsv path) :
    WorkerM.Opens files t path (Routine.ask o) :=
  fun _ hs => Routine.follows_ask fun _ _ => ⟨_, .other ho, rfl, hs⟩

/-- The path of the object is the one that is opened. -/
theorem opens_openCsv : (WorkerM.openCsv path).Opens files t path :=
  fun _ hs _ _ => ⟨_, .openCsv, rfl, hs⟩

theorem opens_readRow : WorkerM.readRow.Opens files t path :=
  fun _ hs _ _ => ⟨_, .other (fun _ h => by cases h), rfl, hs⟩

theorem opens_ackJob (entry : ℕ) : (WorkerM.ackJob entry).Opens files t path :=
  fun _ hs _ _ => ⟨_, .other (fun _ h => by cases h), rfl, hs⟩

/-- A statement does not assign to the object. -/
theorem opens_execute (stmt : Stmt) : (WorkerM.execute stmt).Opens files t path := by
  intro s hs f w
  have hcurrent := s.executed_current stmt (WorkerOp.exec files (.execute stmt) f w).2
  exact ⟨_, .other (fun _ h => by cases h), rfl, (congrArg ImportJob.storagePath hcurrent).trans hs⟩

theorem opens_commit : WorkerM.commit.Opens files t path := by
  intro s hs
  unfold Routine.Follows WorkerM.commit
  cases s.broken with
  | true => exact ⟨rfl, hs⟩
  | false =>
    intro f w
    refine ⟨_, .other (fun _ h => by cases h), ?_⟩
    cases f with
    | ok => exact ⟨rfl, (s.storagePath_commitJob w.db).trans hs⟩
    | _ => exact ⟨rfl, hs⟩

theorem opens_assign {g : ImportJob → ImportJob}
    (hg : ∀ job, (g job).storagePath = job.storagePath) :
    (WorkerM.assign g).Opens files t path :=
  opens_modify fun s => hg s.current

theorem opens_currentTime : WorkerM.currentTime.Opens files t path :=
  opens_ask fun _ h => by cases h

theorem opens_invalidateSummaries (accounts : List String) :
    (invalidateSummaries accounts).Opens files t path := by
  induction accounts with
  | nil => exact opens_pure ()
  | cons a accounts ih => exact (opens_ask fun _ h => by cases h).bind fun _ => ih

/-- `_commit_batch`. -/
theorem opens_commitBatch (valid : List Transaction) (errors : List ImportError) (upTo : ℕ) :
    (commitBatch valid errors upTo).Opens files t path :=
  (opens_runIf (opens_execute _)).bind fun _ => (opens_runIf (opens_execute _)).bind fun _ =>
    WorkerM.Opens.bind (opens_modify (by intro _; rfl)) fun _ => (opens_execute _).bind fun _ =>
      opens_commit.bind fun _ => opens_invalidateSummaries _

/-- The loop of `_run_import`, by induction on the rows that are left. -/
theorem opens_importRows (batchSize : ℕ) (raises : Bool) (rows : List Row) (b : Batch) :
    (importRows py batchSize raises rows b).Opens files t path := by
  induction rows generalizing b with
  | nil => exact opens_readRow.bind fun _ => (opens_runIf (opens_raise _)).bind fun _ => opens_pure _
  | cons row rows ih =>
    refine opens_readRow.bind fun _ => opens_get fun s _ => ?_
    split
    · exact ih _
    · split
      · exact opens_raise _
      · split
        · exact (opens_commitBatch _ _ _).bind fun _ => ih _
        · exact ih _

theorem opens_importFile (batchSize : ℕ) (csv : Csv) :
    (importFile py batchSize csv).Opens files t path :=
  (opens_importRows _ _ _ _).bind fun _ => (opens_runIf (opens_commitBatch _ _ _)).bind fun _ =>
    opens_currentTime.bind fun _ => (opens_assign (by intro _; rfl)).bind fun _ => opens_commit

theorem opens_rejectFile (csv : Csv) : (rejectFile py csv).Opens files t path :=
  opens_currentTime.bind fun _ => (opens_assign (by intro _; rfl)).bind fun _ => opens_commit

/-- `_run_import` opens the path that the object has. -/
theorem opens_runImport (batchSize : ℕ) : (runImport py batchSize).Opens files t path := by
  refine opens_get fun s _ => (opens_runIf ?_).bind fun _ =>
    (opens_assign (by intro _; rfl)).bind fun _ =>
    opens_commit.bind fun _ => opens_get fun s' hs' => ?_
  · exact opens_currentTime.bind fun _ => opens_assign (by intro _; rfl)
  · rw [hs']
    refine opens_openCsv.bind fun csv => ?_
    split
    · exact opens_rejectFile csv
    · exact opens_importFile batchSize csv

/-- The body of `process_entry` behind `_load_job`. -/
theorem opens_processJob (batchSize entry : ℕ) :
    (processJob py batchSize entry).Opens files t path := by
  refine opens_get fun s _ => ?_
  split
  · exact opens_ackJob entry
  · split
    · exact opens_currentTime.bind fun _ => (opens_assign (by intro _; rfl)).bind fun _ =>
        opens_commit.bind fun _ => opens_ackJob entry
    · refine WorkerM.Opens.tryExcept ((opens_runImport batchSize).bind fun _ => opens_ackJob entry)
        fun e => ?_
      exact (opens_assign (by intro _; rfl)).bind fun _ => opens_commit.bind fun _ => opens_raise e

/-- `process_entry` opens no file but the one of the row it has loaded. -/
theorem processEntry_opens (py : Python) (files : String → Option Csv) (t : Attempt) :
    (processEntry py t.batchSize t.entry t.importJobId).Follows (WorkerOp.exec files) (PathMove t)
      (fun _ _ => True) none := by
  intro f w
  cases f with
  | ok =>
    refine ⟨_, .load, ?_⟩
    have hans : (WorkerOp.exec files (.selectJob t.importJobId) .ok w).2 =
      .ok (w.db.job t.importJobId) := rfl
    rw [hans]
    cases hjob : w.db.job t.importJobId with
    | none => exact fun _ _ => ⟨_, .other (fun _ h => by cases h), trivial⟩
    | some job =>
      refine Program.Follows.bind (Program.Follows.mono
        (opens_processJob t.batchSize t.entry (Session.opened job) rfl) ?_)
      exact fun _ _ _ => trivial
  | rejected => exact ⟨_, .load, trivial⟩
  | failed => exact ⟨_, .load, trivial⟩
  | lost => exact ⟨_, .load, trivial⟩

end Opens

/-- The path that an attempt knows is that of the row of its job. -/
def pathOutline : Outline World Attempt (Option String) where
  Inv _ := True
  Loc t a w := ∀ path, a = some path →
    ∃ row, w.db.job t.importJobId = some row ∧ row.storagePath = path
  Guar _ _ := True

/-- A row keeps its path. -/
theorem pathOutline_mono {w w' : World} {a : Option String} (hstay : w.db.UploadsStay w'.db)
    (h : pathOutline.Loc t a w) : pathOutline.Loc t a w' := by
  intro path ha
  obtain ⟨row, hrow, hpath⟩ := h path ha
  obtain ⟨row', hrow', hup⟩ := hstay _ row hrow
  exact ⟨row', hrow', (storagePath_of_upload hup).trans hpath⟩

/-- The path stays that of the row, next to the footprints. -/
theorem pathOutline_sound (py : Python) (files : String → Option Csv) :
    pathOutline.Sound (workers py files)
      (fun c _ => ∃ ph, footprintOutline.Holds (workers py files) (Move py files)
        (fun _ r a => a = .ended r) c ph)
      PathMove fun _ _ _ => True where
  run c ph i t o k f a' h hc hi hmove _ := by
    obtain ⟨ph₀, h₀⟩ := hc
    obtain ⟨a₀, hmove₀, hk⟩ := h₀.follows i t _ hi f c.world
    obtain ⟨-, -, hstay, -⟩ :=
      (footprintOutline_sound py files).run c ph₀ i t o k f a₀ h₀ trivial hi hmove₀ hk
    refine ⟨trivial, ?_, trivial, fun j t' p' _ hj => pathOutline_mono hstay (h.loc j t' p' hj)⟩
    have hloc := h.loc i t _ hi
    generalize ph i = a at hmove hloc
    cases hmove with
    | load =>
      intro path hpath
      obtain ⟨row, hrow, hrowpath⟩ := Option.map_eq_some_iff.mp hpath
      obtain ⟨row', hrow', hup⟩ := hstay _ row hrow
      exact ⟨row', hrow', (storagePath_of_upload hup).trans hrowpath⟩
    | openCsv => exact pathOutline_mono hstay hloc
    | other _ => exact pathOutline_mono hstay hloc
  arrive c ph x w r h hc hx := by
    obtain ⟨ph₀, h₀⟩ := hc
    obtain ⟨-, hstay, -, -⟩ := (footprintOutline_sound py files).arrive c ph₀ x w r h₀ trivial hx
    refine ⟨trivial, trivial, fun i t p hi => pathOutline_mono hstay (h.loc i t p hi), ?_⟩
    rintro t p rfl
    obtain ⟨stream, -, -, -, rfl⟩ := Arrival.deliver_of_apply hx
    exact ⟨none, processEntry_opens py files t, fun path hpath => by cases hpath⟩

/-- An attempt opens the file of the row of its job. -/
theorem opens_own_file {C : WorkerPool → WorkerEvent → Prop} {w : World} {c : WorkerPool}
    (hw : JobKeys w.db) (hc : (workers py files).Reaches C ⟨w, []⟩ c) {i : ℕ} {path : String}
    {k : (WorkerOp.openCsv path).Ans → Program WorkerOp WorkerOp.Ans (Except Exn Unit)}
    (hi : c.procs[i]? = some ⟨t, some (.call (.openCsv path) k)⟩) :
    ∃ row, c.world.db.job t.importJobId = some row ∧ row.storagePath = path := by
  obtain ⟨hreach, -⟩ := (footprintOutline_sound py files).strengthen (Q := fun _ => True)
    (Outline.holds_empty hw fun _ => .unread) trivial (fun _ _ _ _ _ _ _ _ _ _ => trivial)
    (hc.mono fun _ _ _ => trivial)
  obtain ⟨⟨ph, h⟩, -⟩ := (pathOutline_sound py files).reaches
    (Outline.holds_empty trivial fun _ => none) (hreach.mono fun _ _ h => h.2.2)
  obtain ⟨a', hmove, -⟩ := h.follows i t _ hi .ok c.world
  refine h.loc i t _ hi path ?_
  generalize ph i = a at hmove
  cases hmove with
  | openCsv => rfl
  | other hne => exact absurd rfl (hne path)

end TransactionPlatform
