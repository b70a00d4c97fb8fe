import TransactionPlatform.Worker.Phases

/-!
# `process_entry` follows the phases

The text of `process_entry` against the machine of `Worker.Phases`.  `processEntry_follows` shows
that the program follows the machine whatever its environment does, so that invariants of any number
of workers are proved from the moves alone; `workers_sound` and `workers_reaches` are the rules for
such proofs.
-/

namespace TransactionPlatform

open Interleaved KeyedTable

/-! ### The operations -/

section Walk

variable {py : Python} {files : String → Option Csv} {t : Attempt} {α : Type}

/-- The program of a worker follows the machine of its attempt. -/
abbrev WorkerM.Runs (py : Python) (files : String → Option Csv) (t : Attempt) (m : WorkerM α)
    (post : Except Exn α → Session → Phase → Prop) (s : Session) (a : Phase) : Prop :=
  Routine.Follows (WorkerOp.exec files) (Move py files t) post m s a

theorem runs_currentTime {post : Except Exn ℕ → Session → Phase → Prop} {s : Session} {a : Phase}
    (ha : ∀ r, a ≠ .ended r) (h : ∀ time, post (.ok time) s a) :
    WorkerM.currentTime.Runs py files t post s a :=
  Routine.follows_ask fun _ w => ⟨a, .stay rfl rfl ha, h w.clock⟩

/-- The rule for a commit; `e` is what the call will raise if the commit fails. -/
theorem runs_commit {post : Except Exn Unit → Session → Phase → Prop} {s : Session} {a : Phase}
    {cont : ImportJob → Phase} (e : Exn) (hs : s.broken = false) (hc : Commits py files t a s cont)
    (hok : ∀ db j, j = s.commitJob db → j.id = s.current.id → post (.ok ()) (.opened j) (cont j))
    (herr : post (.error .DBAPIError) { s with broken := true } (.ended (.error e))) :
    WorkerM.commit.Runs py files t post s a := by
  simp only [WorkerM.Runs, Routine.Follows, WorkerM.commit, hs, cond_false]
  intro f w
  refine ⟨_, .commit (e := e) hc, ?_⟩
  cases f with
  | ok => exact hok w.db _ rfl (s.commitJob_id w.db)
  | rejected => exact herr
  | failed => exact herr
  | lost => exact herr

/-- The rule for a statement of a batch. -/
theorem runs_execute {post : Except Exn Unit → Session → Phase → Prop} {stmt : Stmt} {s : Session}
    {job : ImportJob} {base : ℕ} {csv : Csv} {b : Batch} (hid : job.id = t.importJobId)
    (hcsv : files job.storagePath = some csv)
    (hb : Buffered py job.id csv.rows base job.lastCommittedRow b) (hmem : stmt ∈ b.work)
    (hok : stmt.taken = true →
      post (.ok ()) { s with work := s.work ++ [stmt] } (.scan job base))
    (hserver : post (.error .DBAPIError) { s with broken := true } (.ended (.error .DBAPIError)))
    (hclient : ∀ f, stmt.outcome f = .error .ClientError →
      ∃ a, Raises py files t (.execute stmt) f (.scan job base) a ∧
        post (.error .ClientError) s a) :
    (WorkerM.execute stmt).Runs py files t post s (.scan job base) := by
  intro f w
  have hans : (WorkerOp.exec files (.execute stmt) f w).2 = stmt.outcome f := rfl
  rw [hans]
  rcases stmt.outcome_cases f with ⟨hout, -, htaken⟩ | hout | hout
  · rw [hout]
    exact ⟨_, .stay rfl rfl (by simp), hok htaken⟩
  · obtain ⟨a, ha, hpost⟩ := hclient f hout
    rw [hout]
    exact ⟨a, .fail ha, hpost⟩
  · rw [hout]
    exact ⟨_, .fail (.server hid hcsv hb hmem hout), hserver⟩

/-- The rule for the next row, on which the body of the loop may raise. -/
theorem runs_readRow {post : Except Exn Unit → Session → Phase → Prop} {job : ImportJob} {base : ℕ}
    (hid : job.id = t.importJobId)
    (herr : post (.error .ReadError) (.opened job)
      (.handle (Session.opened job).requeue .ReadError))
    (hok : post (.ok ()) (.opened job) (.scan job base) ∨
      PoisonFile py files job ∧
        ∃ e, post (.ok ()) (.opened job) (.handle (Session.opened job).requeue e)) :
    WorkerM.readRow.Runs py files t post (.opened job) (.scan job base) := by
  intro f w
  cases f with
  | ok =>
    rcases hok with hok | ⟨hpoison, e, hok⟩
    · exact ⟨_, .stay rfl rfl (by simp), hok⟩
    · exact ⟨_, .fail (.readRow hid (.inr hpoison)), hok⟩
  | rejected => exact ⟨_, .fail (.readRow hid (.inl (by simp))), herr⟩
  | failed => exact ⟨_, .fail (.readRow hid (.inl (by simp))), herr⟩
  | lost => exact ⟨_, .fail (.readRow hid (.inl (by simp))), herr⟩

/-- The rule for opening the file of the job. -/
theorem runs_openCsv {post : Except Exn Csv → Session → Phase → Prop} {job : ImportJob} {base : ℕ}
    (hid : job.id = t.importJobId)
    (herr : post (.error .OSError) (.opened job) (.handle (Session.opened job).requeue .OSError))
    (hok : ∀ csv, files job.storagePath = some csv →
      post (.ok csv) (.opened job) (.scan job base)) :
    (WorkerM.openCsv job.storagePath).Runs py files t post (.opened job) (.scan job base) := by
  intro f w
  cases f with
  | ok =>
    have hans : (WorkerOp.exec files (.openCsv job.storagePath) .ok w).2 =
        (files job.storagePath).elim (.error .OSError) .ok := by
      unfold WorkerOp.exec
      dsimp only
      cases files job.storagePath <;> rfl
    cases hcsv : files job.storagePath with
    | none =>
      refine ⟨_, .fail (.openCsv (e := .OSError) hid (.inr hcsv)), ?_⟩
      rw [hans, hcsv]
      exact herr
    | some csv =>
      refine ⟨_, .stay rfl rfl (by simp), ?_⟩
      rw [hans, hcsv]
      exact hok csv hcsv
  | rejected => exact ⟨_, .fail (.openCsv hid (.inl (by simp))), herr⟩
  | failed => exact ⟨_, .fail (.openCsv hid (.inl (by simp))), herr⟩
  | lost => exact ⟨_, .fail (.openCsv hid (.inl (by simp))), herr⟩

/-! ### `_commit_batch` -/

/-- The phase of an attempt that has raised `e` inside the `try`. -/
def Raised (t : Attempt) (e : Exn) (s : Session) (a : Phase) : Prop :=
  a = .raised s e ∧ s.current.id = t.importJobId

/-- Nothing in the loop changes what identifies the job and its file. -/
def SameJob (job j : ImportJob) : Prop := j.id = job.id ∧ j.storagePath = job.storagePath

theorem runs_invalidateSummaries {post : Except Exn Unit → Session → Phase → Prop} {s : Session}
    {a : Phase} (ha : ∀ r, a ≠ .ended r) (h : post (.ok ()) s a) (accounts : List String) :
    (invalidateSummaries accounts).Runs py files t post s a := by
  induction accounts with
  | nil => exact h
  | cons x accounts ih =>
    refine Routine.Follows.bind fun f w => ⟨a, .stay ?_ ?_ ha, ih⟩
    · cases f <;> rfl
    · cases f <;> rfl

/-- `_commit_batch` commits the batch, or raises. -/
theorem runs_commitBatch {job : ImportJob} {base : ℕ} {csv : Csv} {b : Batch}
    (hid : job.id = t.importJobId) (hcsv : files job.storagePath = some csv)
    (hcol : csv.missingColumns = [])
    (hb : Buffered py job.id csv.rows base job.lastCommittedRow b)
    (hlt : job.lastCommittedRow < b.rowNumber) :
    (commitBatch b.valid b.errors b.rowNumber).Runs py files t
      (fun r s a =>
        match r with
        | .ok _ => ∃ j, s = .opened j ∧ a = .scan j base ∧ SameJob job j ∧
            j.lastCommittedRow = b.rowNumber
        | .error e => Raised t e s a)
      (.opened job) (.scan job base) := by
  unfold commitBatch
  -- the insert of the transactions
  refine Routine.Follows.bind (Routine.Follows.mono
    (P := fun r s a =>
      match r with
      | .ok _ => s = ⟨job, job, inserts b.valid [], false⟩ ∧ a = .scan job base ∧
          ∀ stmt ∈ inserts b.valid [], stmt.taken = true
      | .error e => Raised t e s a) ?_ ?_)
  · cases hv : b.valid with
    | nil => exact ⟨rfl, rfl, nofun⟩
    | cons v vs =>
      have hmem : Stmt.insertTransactions (v :: vs) ∈ b.work := by simp [Batch.work, inserts, hv]
      refine runs_execute hid hcsv hb hmem (fun htaken => ⟨rfl, rfl, fun stmt hstmt => ?_⟩)
        ⟨rfl, hid⟩ fun f hout => ⟨_, .insert hid hcsv hb hmem (.inl rfl) hout, rfl, hid⟩
      rw [List.mem_singleton.mp hstmt]
      exact htaken
  rintro (e | _) s a hr
  · exact hr
  obtain ⟨rfl, rfl, hvalid⟩ := hr
  -- the insert of the errors
  refine Routine.Follows.bind (Routine.Follows.mono
    (P := fun r s a =>
      match r with
      | .ok _ => s = ⟨job, job, inserts b.valid b.errors, false⟩ ∧ a = .scan job base ∧
          ∀ stmt ∈ inserts b.valid b.errors, stmt.taken = true
      | .error e => Raised t e s a) ?_ ?_)
  · cases he : b.errors with
    | nil => exact ⟨rfl, rfl, hvalid⟩
    | cons x xs =>
      have happend : inserts b.valid (x :: xs) =
          inserts b.valid [] ++ [.insertErrors (x :: xs)] := by simp [inserts]
      have hmem : Stmt.insertErrors (x :: xs) ∈ b.work := by simp [Batch.work, inserts, he]
      refine runs_execute hid hcsv hb hmem (fun htaken => ⟨?_, rfl, fun stmt hstmt => ?_⟩)
        ⟨rfl, hid⟩ fun f hout => ⟨_, .insert hid hcsv hb hmem (.inr rfl) hout, rfl, hid⟩
      · rw [happend]
      · rw [happend, List.mem_append, List.mem_singleton] at hstmt
        rcases hstmt with hstmt | rfl
        · exact hvalid stmt hstmt
        · exact htaken
  rintro (e | _) s a hr
  · exact hr
  obtain ⟨rfl, rfl, hinserts⟩ := hr
  -- the counters and the update of the job
  refine Routine.Follows.bind (Routine.follows_modify ?_)
  refine Routine.Follows.bind (runs_execute hid hcsv hb
    (by simp [Batch.work]) (fun _ => ?_) ⟨rfl, hid⟩
    fun f hout => ⟨_, .update hid hcsv hb hout, rfl, hid⟩)
  have hcommit : Commits py files t (.scan job base)
      ⟨job, job, (inserts b.valid b.errors ++
        [.advance b.valid.length b.errors.length b.rowNumber]) ++ [.updateProgress], false⟩
      fun j => .scan j base := by
    rw [List.append_assoc]
    exact .batch hid hcsv hcol hb hlt (hb.taken_iff.mp hinserts)
  refine Routine.Follows.bind (runs_commit .DBAPIError rfl hcommit ?_ ?_)
  · intro db j hj _
    simp only [Session.commitJob, List.append_assoc, List.cons_append, List.nil_append,
      Session.transaction_batch] at hj
    subst hj
    exact runs_invalidateSummaries (by simp) ⟨_, rfl, rfl, ⟨rfl, rfl⟩, rfl⟩ _
  · exact ⟨rfl, hid⟩

/-! ### The loop of `_run_import` -/

/-- The loop variables: rows up to the checkpoint are being skipped, or the buffers hold the rows
since the last commit. -/
def Pending (py : Python) (jobId : Uuid) (rows : List Row) (base last : ℕ) (b : Batch) : Prop :=
  (base = last ∧ b.rowNumber ≤ last ∧ b.rowNumber ≤ rows.length ∧ b.valid = [] ∧ b.errors = [] ∧
    b.seenInFile = []) ∨ Buffered py jobId rows base last b

section Pending

variable {jobId : Uuid} {rows : List Row} {base last : ℕ} {b : Batch}

theorem Pending.rowNumber_le (h : Pending py jobId rows base last b) :
    b.rowNumber ≤ rows.length := by
  rcases h with ⟨-, -, h, -⟩ | h
  · exact h
  · exact h.rowNumber_le

/-- A skipped row. -/
theorem Pending.skip {row : Row} (h : Pending py jobId rows base last b)
    (hrow : rows[b.rowNumber]? = some row) (hle : b.rowNumber + 1 ≤ last) :
    Pending py jobId rows base last { b with rowNumber := b.rowNumber + 1 } := by
  obtain ⟨hlt, -⟩ := List.getElem?_eq_some_iff.mp hrow
  rcases h with ⟨h1, -, -, h4⟩ | h
  · exact .inl ⟨h1, hle, hlt, h4⟩
  · have := h.last_le
    omega

/-- Behind the checkpoint the buffers are in use. -/
theorem Pending.buffered (h : Pending py jobId rows base last b) (hle : ¬ b.rowNumber + 1 ≤ last) :
    Buffered py jobId rows base last b := by
  rcases h with ⟨rfl, h2, h3, h4, h5, h6⟩ | h
  · obtain ⟨n, valid, errors, seen⟩ := b
    simp only at h2 h3 h4 h5 h6 hle
    subst h4 h5 h6
    have hn : n = base := by omega
    subst hn
    exact .start h3
  · exact h

/-- At the end of the file either something is buffered or everything is committed. -/
theorem Pending.le_last (h : Pending py jobId rows base last b) (hv : b.valid = [])
    (he : b.errors = []) : b.rowNumber ≤ last := by
  rcases h with ⟨-, h, -⟩ | h
  · exact h
  · have := h.length_eq
    rw [hv, he] at this
    simp only [List.length_nil] at this
    omega

end Pending

theorem SameJob.trans {job j k : ImportJob} (h : SameJob job j) (h' : SameJob j k) :
    SameJob job k :=
  ⟨h'.1.trans h.1, h'.2.trans h.2⟩

/-- A row of the reader, taken apart from the rest of the file. -/
theorem drop_eq_cons {l rest : List Row} {n : ℕ} {row : Row} (h : l.drop n = row :: rest) :
    l[n]? = some row ∧ l.drop (n + 1) = rest := by
  constructor
  · rw [← Nat.add_zero n, ← List.getElem?_drop, h]
    rfl
  · rw [← List.drop_drop, h]
    rfl

/-- The loop ends with all rows read and the last ones possibly still in the buffers, or raises. -/
theorem runs_importRows {batchSize base : ℕ} {csv : Csv} (hcol : csv.missingColumns = [])
    (rows : List Row) {job : ImportJob} {b : Batch} (hid : job.id = t.importJobId)
    (hcsv : files job.storagePath = some csv)
    (hb : Pending py job.id csv.rows base job.lastCommittedRow b)
    (hrows : csv.rows.drop b.rowNumber = rows) :
    (importRows py batchSize csv.raises rows b).Runs py files t
      (fun r s a =>
        match r with
        | .ok b' => ∃ j, s = .opened j ∧ a = .scan j base ∧ SameJob job j ∧
            b'.rowNumber = csv.rows.length ∧
            Pending py j.id csv.rows base j.lastCommittedRow b' ∧ csv.raises = false
        | .error e => Raised t e s a)
      (.opened job) (.scan job base) := by
  induction rows generalizing job b with
  | nil =>
    have hend : b.rowNumber = csv.rows.length :=
      Nat.le_antisymm hb.rowNumber_le (List.drop_eq_nil_iff.mp hrows)
    refine Routine.Follows.bind (runs_readRow hid ⟨rfl, hid⟩ ?_)
    cases hraises : csv.raises with
    | true =>
      -- the reader raises behind the last row
      exact .inr ⟨⟨csv, hcsv, .inl hraises⟩, .ReadError, rfl, hid⟩
    | false => exact .inl ⟨job, rfl, rfl, ⟨rfl, rfl⟩, hend, hb, rfl⟩
  | cons row rows ih =>
    obtain ⟨hrow, hrest⟩ := drop_eq_cons hrows
    refine Routine.Follows.bind (runs_readRow hid ⟨rfl, hid⟩ ?_)
    by_cases hskip : b.rowNumber + 1 ≤ job.lastCommittedRow
    · refine .inl (Routine.Follows.bind (Routine.follows_get ?_))
      simp only [Session.opened, hskip, if_true]
      exact ih hid hcsv (hb.skip hrow hskip) hrest
    · have hbuf := hb.buffered hskip
      cases hc : classify py job.id row b with
      | error e =>
        -- `validate_row` raises on the row that was just read
        obtain ⟨name, hname⟩ := classify_error hc
        refine .inr ⟨⟨csv, hcsv, .inr ⟨b.rowNumber, row, name, hbuf.last_le, hrow, hname⟩⟩, e,
          Routine.Follows.bind (Routine.follows_get ?_)⟩
        simp only [Session.opened, hskip, if_false, hc]
        exact ⟨rfl, hid⟩
      | ok b' =>
        obtain ⟨hbuf', hnum⟩ := hbuf.classify hrow hc
        have hlt : job.lastCommittedRow < b'.rowNumber := by
          rw [hnum]
          exact Nat.lt_succ_of_le hbuf.last_le
        rw [← hnum] at hrest
        refine .inl (Routine.Follows.bind (Routine.follows_get ?_))
        simp only [Session.opened, hskip, if_false, hc]
        split
        · refine Routine.Follows.bind
            (Routine.Follows.mono (runs_commitBatch hid hcsv hcol hbuf' hlt) ?_)
          rintro (e | _) s a hr
          · exact hr
          obtain ⟨j, rfl, rfl, hsame, hlast⟩ := hr
          have hj : Pending py j.id csv.rows base j.lastCommittedRow
              { b' with valid := [], errors := [] } := by
            rw [hsame.1, hlast]
            exact .inr hbuf'.flush
          refine Routine.Follows.mono
            (ih (hsame.1.trans hid) (by rw [hsame.2]; exact hcsv) hj hrest) ?_
          rintro (e | _) s a hr
          · exact hr
          obtain ⟨k, rfl, rfl, hsame', hk⟩ := hr
          exact ⟨k, rfl, rfl, hsame.trans hsame', hk⟩
        · exact ih hid hcsv (.inr hbuf') hrest

/-! ### `_run_import` and `process_entry` -/

/-- How `_run_import` ends: with a committed terminal status, or with an exception. -/
def Imported (t : Attempt) : Except Exn Unit → Session → Phase → Prop
  | .ok _, s, a => ∃ j, s = .opened j ∧ a = .ackTry j ∧ j.id = t.importJobId
  | .error e, s, a => Raised t e s a

/-- The part behind the check of the header. -/
theorem runs_importFile {batchSize : ℕ} {csv : Csv} {job : ImportJob}
    (hid : job.id = t.importJobId) (hcsv : files job.storagePath = some csv)
    (hcol : csv.missingColumns = []) :
    (importFile py batchSize csv).Runs py files t (Imported t) (.opened job)
      (.scan job job.lastCommittedRow) := by
  have hstart : Pending py job.id csv.rows job.lastCommittedRow job.lastCommittedRow .empty :=
    .inl ⟨rfl, Nat.zero_le _, Nat.zero_le _, rfl, rfl, rfl⟩
  refine Routine.Follows.bind
    (Routine.Follows.mono (runs_importRows hcol csv.rows hid hcsv hstart rfl) ?_)
  rintro (e | b) s a hr
  · exact hr
  obtain ⟨j, rfl, rfl, hsame, hnum, hb, hend⟩ := hr
  have hidj : j.id = t.importJobId := hsame.1.trans hid
  have hcsvj : files j.storagePath = some csv := by rw [hsame.2]; exact hcsv
  -- the last, partial batch
  refine Routine.Follows.bind (Routine.Follows.mono
    (P := fun r s a =>
      match r with
      | .ok _ => ∃ k, s = .opened k ∧ a = .scan k job.lastCommittedRow ∧ SameJob j k ∧
          csv.rows.length ≤ k.lastCommittedRow
      | .error e => Raised t e s a) ?_ ?_)
  · by_cases hempty : b.valid = [] ∧ b.errors = []
    · rw [hempty.1, hempty.2]
      refine ⟨j, rfl, rfl, ⟨rfl, rfl⟩, ?_⟩
      rw [← hnum]
      exact hb.le_last hempty.1 hempty.2
    · have hbuf : Buffered py j.id csv.rows job.lastCommittedRow j.lastCommittedRow b := by
        rcases hb with ⟨-, -, -, h4, h5, -⟩ | hb
        · exact absurd ⟨h4, h5⟩ hempty
        · exact hb
      have hcond : (!b.valid.isEmpty || !b.errors.isEmpty) = true := by
        rw [← Bool.not_and, Bool.not_eq_true']
        by_contra h
        simp only [Bool.not_eq_false, Bool.and_eq_true, List.isEmpty_iff] at h
        exact hempty h
      rw [hcond]
      have hlt : j.lastCommittedRow < b.rowNumber := by
        rcases Nat.lt_or_ge j.lastCommittedRow b.rowNumber with hlt | hge
        · exact hlt
        · have hlen := hbuf.length_eq
          rw [Nat.sub_eq_zero_of_le hge, Nat.add_eq_zero_iff, List.length_eq_zero_iff,
            List.length_eq_zero_iff] at hlen
          exact absurd hlen hempty
      refine Routine.Follows.mono (runs_commitBatch hidj hcsvj hcol hbuf hlt) ?_
      rintro (e | _) s a hr
      · exact hr
      obtain ⟨k, rfl, rfl, hsame', hlast⟩ := hr
      exact ⟨k, rfl, rfl, hsame', by omega⟩
  rintro (e | _) s a hr
  · exact hr
  obtain ⟨k, rfl, rfl, hsame', hlen⟩ := hr
  have hidk : k.id = t.importJobId := hsame'.1.trans hidj
  -- the final commit
  refine Routine.Follows.bind (runs_currentTime (by simp) fun time => ?_)
  refine Routine.Follows.bind (Routine.follows_modify ?_)
  rw [hnum]
  refine runs_commit .DBAPIError rfl
    (.finish hidk (by rw [hsame'.2]; exact hcsvj) hcol hlen hend) ?_ ⟨rfl, hidk⟩
  exact fun db j _ hj => ⟨j, rfl, rfl, hj.trans hidk⟩

/-- The branch for a file without the required columns. -/
theorem runs_rejectFile {csv : Csv} {job : ImportJob} {base : ℕ} (hid : job.id = t.importJobId)
    (hcsv : files job.storagePath = some csv) (hcol : csv.missingColumns ≠ []) :
    (rejectFile py csv).Runs py files t (Imported t) (.opened job) (.scan job base) := by
  refine Routine.Follows.bind (runs_currentTime (by simp) fun time => ?_)
  refine Routine.Follows.bind (Routine.follows_modify ?_)
  refine runs_commit .DBAPIError rfl (.reject hid hcsv hcol) ?_ ⟨rfl, hid⟩
  exact fun db j _ hj => ⟨j, rfl, rfl, hj.trans hid⟩

/-- `_run_import`. -/
theorem runs_runImport {batchSize : ℕ} {job : ImportJob} (hid : job.id = t.importJobId) :
    (runImport py batchSize).Runs py files t (Imported t) (.opened job) (.start job) := by
  refine Routine.Follows.bind (Routine.follows_get ?_)
  refine Routine.Follows.bind (Routine.Follows.mono
    (P := fun r s a =>
      match r with
      | .ok _ => ∃ startedAt, s = ⟨{ job with startedAt := startedAt }, job, [], false⟩ ∧
          a = .start job
      | .error _ => False) ?_ ?_)
  · cases hst : (Session.opened job).current.startedAt.isNone with
    | true =>
      refine Routine.Follows.bind (runs_currentTime (by simp) fun time => ?_)
      exact Routine.follows_modify ⟨_, rfl, rfl⟩
    | false => exact ⟨job.startedAt, rfl, rfl⟩
  rintro (e | _) s a hr
  · exact hr.elim
  obtain ⟨startedAt, rfl, rfl⟩ := hr
  refine Routine.Follows.bind (Routine.follows_modify ?_)
  refine Routine.Follows.bind (runs_commit .DBAPIError rfl (.start hid) ?_ ⟨rfl, hid⟩)
  intro db j _ hj
  have hid' : j.id = t.importJobId := hj.trans hid
  refine Routine.Follows.bind (Routine.follows_get ?_)
  refine Routine.Follows.bind (runs_openCsv hid' ⟨rfl, hid'⟩ fun csv hcsv => ?_)
  by_cases hcol : csv.missingColumns = []
  · simp only [hcol, ne_eq, not_true_eq_false, if_false]
    exact runs_importFile hid' hcsv hcol
  · simp only [hcol, ne_eq, not_false_eq_true, if_true]
    exact runs_rejectFile hid' hcsv hcol

/-- The `except` block. -/
theorem runs_handleFailure {e : Exn} {s : Session} {a : Phase} (h : Raised t e s a) :
    (handleFailure e).Runs py files t (fun r _ a => a = .ended r) s a := by
  obtain ⟨rfl, hid⟩ := h
  refine Routine.Follows.bind (Routine.follows_modify ?_)
  refine Routine.Follows.bind ?_
  obtain ⟨current, saved, work, broken⟩ := s
  cases broken with
  | true => exact rfl
  | false =>
    refine runs_commit .DBAPIError rfl (.handle (e := e) hid) ?_ rfl
    exact fun db j _ _ => rfl

/-- The branch for a job without retries left. -/
theorem runs_giveUp {job : ImportJob} (hid : job.id = t.importJobId) :
    (giveUp t.entry).Runs py files t (fun r _ a => a = .ended r) (.opened job) (.giveUp job) := by
  refine Routine.Follows.bind (runs_currentTime (by simp) fun time => ?_)
  refine Routine.Follows.bind (Routine.follows_modify ?_)
  refine Routine.Follows.bind (runs_commit .DBAPIError rfl (.giveUp hid) ?_ rfl)
  exact fun db j _ _ f w => ⟨_, .ack, rfl⟩

/-- `process_entry` behind `_load_job`. -/
theorem runs_processJob {batchSize : ℕ} {job : ImportJob} (hid : job.id = t.importJobId) :
    (processJob py batchSize t.entry).Runs py files t (fun r _ a => a = .ended r) (.opened job)
      (.loaded (some job)) := by
  refine Routine.Follows.bind (Routine.follows_get ?_)
  change Routine.Follows _ _ _ (if job.status = .COMPLETED then _ else
    if maxRetries ≤ job.retryCount then _ else _) _ (if job.status = .COMPLETED then _ else
    if maxRetries ≤ job.retryCount then _ else _)
  by_cases hdone : job.status = .COMPLETED
  · rw [if_pos hdone, if_pos hdone]
    exact fun f w => ⟨_, .ack, rfl⟩
  by_cases hretry : maxRetries ≤ job.retryCount
  · rw [if_neg hdone, if_pos hretry, if_neg hdone, if_pos hretry]
    exact runs_giveUp hid
  · rw [if_neg hdone, if_neg hretry, if_neg hdone, if_neg hretry]
    refine Routine.Follows.tryExcept (Routine.Follows.bind
      (Routine.Follows.mono (runs_runImport hid) ?_))
    rintro (e | _) s a hr
    · exact runs_handleFailure hr
    obtain ⟨j, rfl, rfl, hidj⟩ := hr
    intro f w
    refine ⟨_, .ackTry hidj, ?_⟩
    cases f with
    | ok => exact rfl
    | rejected => exact runs_handleFailure ⟨rfl, hidj⟩
    | failed => exact runs_handleFailure ⟨rfl, hidj⟩
    | lost => exact runs_handleFailure ⟨rfl, hidj⟩

/-- A call of `process_entry` follows the machine. -/
theorem processEntry_follows (py : Python) (files : String → Option Csv) (t : Attempt) :
    (processEntry py t.batchSize t.entry t.importJobId).Follows (WorkerOp.exec files)
      (Move py files t) (fun r a => a = .ended r) .unread := by
  intro f w
  cases f with
  | ok =>
    refine ⟨_, .load, ?_⟩
    have hans : (WorkerOp.exec files (.selectJob t.importJobId) .ok w).2 =
      .ok (w.db.job t.importJobId) := rfl
    rw [hans]
    cases hjob : w.db.job t.importJobId with
    | none => exact fun f w => ⟨_, .ack, rfl⟩
    | some job => exact Program.Follows.bind (runs_processJob (Db.id_of_job hjob))
  | rejected => exact ⟨_, .fail (.load (by simp)), rfl⟩
  | failed => exact ⟨_, .fail (.load (by simp)), rfl⟩
  | lost => exact ⟨_, .fail (.load (by simp)), rfl⟩

/-- From the last phase there is no move: the call has returned. -/
theorem done_of_ended {p : Program WorkerOp WorkerOp.Ans (Except Exn Unit)} {r : Except Exn Unit}
    (h : p.Follows (WorkerOp.exec files) (Move py files t) (fun r a => a = .ended r) (.ended r))
    (w : World) : p = .done r := by
  cases p with
  | done x =>
    cases h
    rfl
  | call o k =>
    obtain ⟨a', hmove, -⟩ := h .ok w
    exact absurd rfl (hmove.ne_ended r)

end Walk

/-! ### Any number of attempts -/

section System

variable {py : Python} {files : String → Option Csv}

/-- What an arrival does: it creates a job, enqueues one, or starts an attempt. -/
theorem Arrival.apply_cases {x : Arrival} {w w' : World}
    {r : Option (Attempt × Program WorkerOp WorkerOp.Ans (Except Exn Unit))}
    (h : x.apply py w = some (w', r)) :
    (∃ id clientId filename path key, x = .create id clientId filename path key ∧
      w.unused id = true ∧ r = none ∧ w' = { w with db := { w.db with
        jobs := w.db.jobs ++ [ImportJob.queued id clientId filename path key] } }) ∨
    (∃ id, x = .enqueue id ∧ (w.db.job id).isSome ∧ ¬ w.stream.Enqueued id ∧ r = none ∧
      w' = { w with stream := w.stream.xadd id }) ∨
    (∃ entry batchSize stream id, x = .deliver entry batchSize ∧
      w.stream.claim entry = some (stream, id) ∧ w' = { w with stream := stream } ∧
      r = some (⟨id, entry, batchSize⟩, processEntry py batchSize entry id)) := by
  cases x with
  | create id clientId filename path key =>
    simp only [apply] at h
    cases hu : w.unused id with
    | false => simp [hu] at h
    | true =>
      simp only [hu, cond_true, Option.some.injEq, Prod.mk.injEq] at h
      exact .inl ⟨id, clientId, filename, path, key, rfl, hu, h.2.symm, h.1.symm⟩
  | enqueue id =>
    simp only [apply] at h
    split at h
    · next hcond =>
      simp only [Option.some.injEq, Prod.mk.injEq] at h
      exact .inr (.inl ⟨id, rfl, hcond.1, hcond.2, h.2.symm, h.1.symm⟩)
    · cases h
  | deliver entry batchSize =>
    simp only [apply, Option.map_eq_some_iff, Prod.mk.injEq] at h
    obtain ⟨⟨stream, id⟩, hclaim, hw, hr⟩ := h
    exact .inr (.inr ⟨entry, batchSize, stream, id, rfl, hclaim, hw.symm, hr.symm⟩)

/-- Only a delivery starts an attempt. -/
theorem Arrival.deliver_of_apply {x : Arrival} {w w' : World} {t : Attempt}
    {p : Program WorkerOp WorkerOp.Ans (Except Exn Unit)}
    (h : x.apply py w = some (w', some (t, p))) :
    ∃ stream, x = .deliver t.entry t.batchSize ∧
      w.stream.claim t.entry = some (stream, t.importJobId) ∧ w' = { w with stream := stream } ∧
      p = processEntry py t.batchSize t.entry t.importJobId := by
  rcases Arrival.apply_cases h with ⟨_, _, _, _, _, _, _, hr, _⟩ | ⟨_, _, _, _, hr, _⟩ |
    ⟨entry, batchSize, stream, id, hx, hclaim, hw, hr⟩
  · cases hr
  · cases hr
  · cases hr
    exact ⟨stream, hx, hclaim, hw, rfl⟩

/-- The obligations of an outline for the workers: one move of one attempt, and one arrival; an
attempt that arrives has read nothing. -/
theorem workers_sound {C : WorkerPool → WorkerEvent → Prop} {O : Outline World Attempt Phase}
    (hrun : ∀ (c : WorkerPool) (ph : ℕ → Phase) (i : ℕ) (t : Attempt) (o : WorkerOp)
      (k : o.Ans → Program WorkerOp WorkerOp.Ans (Except Exn Unit)) (f : Fault) (a' : Phase),
      O.Holds (workers py files) (Move py files) (fun _ r a => a = .ended r) c ph →
      C c (.run i f) → c.procs[i]? = some ⟨t, some (.call o k)⟩ →
      Move py files t o f c.world (ph i) (WorkerOp.exec files o f c.world).1 a' →
      (k (WorkerOp.exec files o f c.world).2).Follows (WorkerOp.exec files) (Move py files t)
        (fun r a => a = .ended r) a' →
      O.Inv (WorkerOp.exec files o f c.world).1 ∧ O.Loc t a' (WorkerOp.exec files o f c.world).1 ∧
      O.Guar c.world (WorkerOp.exec files o f c.world).1 ∧
      ∀ (j : ℕ) (t' : Attempt) (p' : Program WorkerOp WorkerOp.Ans (Except Exn Unit)), j ≠ i →
        c.procs[j]? = some ⟨t', some p'⟩ → O.Loc t' (ph j) (WorkerOp.exec files o f c.world).1)
    (harrive : ∀ (c : WorkerPool) (ph : ℕ → Phase) (x : Arrival) (w : World)
      (r : Option (Attempt × Program WorkerOp WorkerOp.Ans (Except Exn Unit))),
      O.Holds (workers py files) (Move py files) (fun _ r a => a = .ended r) c ph →
      C c (.arrive x) → x.apply py c.world = some (w, r) →
      O.Inv w ∧ O.Guar c.world w ∧
      (∀ (i : ℕ) (t : Attempt) (p : Program WorkerOp WorkerOp.Ans (Except Exn Unit)),
        c.procs[i]? = some ⟨t, some p⟩ → O.Loc t (ph i) w) ∧
      ∀ t p, r = some (t, p) → O.Loc t .unread w) :
    O.Sound (workers py files) C (Move py files) fun _ r a => a = .ended r where
  run := hrun
  arrive c ph x w r h hc hx := by
    obtain ⟨hinv, hguar, hloc, hnew⟩ := harrive c ph x w r h hc hx
    refine ⟨hinv, hguar, hloc, fun t p hr => ⟨.unread, ?_, hnew t p hr⟩⟩
    subst hr
    obtain ⟨stream, -, -, -, rfl⟩ := Arrival.deliver_of_apply hx
    exact processEntry_follows py files t

/-- The rule for runs of the workers that start without an attempt. -/
theorem workers_reaches {C : WorkerPool → WorkerEvent → Prop} {O : Outline World Attempt Phase}
    {w : World} {c : WorkerPool}
    (hO : O.Sound (workers py files) C (Move py files) fun _ r a => a = .ended r) (hw : O.Inv w)
    (hc : (workers py files).Reaches C ⟨w, []⟩ c) :
    (∃ ph, O.Holds (workers py files) (Move py files) (fun _ r a => a = .ended r) c ph) ∧
      Relation.ReflTransGen O.Guar w c.world :=
  hO.reaches (Outline.holds_empty hw fun _ => .unread) hc

/-- Every entry of the stream is about a job. -/
def Populated (w : World) : Prop := ∀ x ∈ w.stream, ∃ row, w.db.job x.importJobId = some row

/-- A move keeps the jobs and the ids of the entries. -/
theorem Move.populated {t : Attempt} {o : WorkerOp} {f : Fault} {w w' : World} {a a' : Phase}
    (hmove : Move py files t o f w a w' a') (h : Populated w) : Populated w' := by
  have hjobs : ∀ id, (∃ row, w.db.job id = some row) → ∃ row, w'.db.job id = some row := by
    intro id hid
    rcases hmove.db_cases with ⟨hdb, -⟩ | ⟨s, cont, -, -, hdb, -⟩
    · rw [hdb]
      exact hid
    · rw [hdb]
      exact s.exists_job_commitDb hid
  intro x hx
  rcases hmove.stream_cases with hstream | ⟨hstream, -, -⟩
  · rw [hstream] at hx
    exact hjobs _ (h x hx)
  · rw [hstream] at hx
    obtain ⟨x', hx', hid⟩ := Stream.mem_xack hx
    rw [← hid]
    exact hjobs _ (h x' hx')

/-- Only existing jobs are enqueued, and only entries are handed out. -/
theorem Arrival.populated {x : Arrival} {w w' : World}
    {r : Option (Attempt × Program WorkerOp WorkerOp.Ans (Except Exn Unit))}
    (hx : x.apply py w = some (w', r)) (h : Populated w) :
    Populated w' ∧ ∀ t p, r = some (t, p) → ∃ row, w'.db.job t.importJobId = some row := by
  rcases Arrival.apply_cases hx with ⟨id, client, name, path, key, -, -, rfl, rfl⟩ |
    ⟨id, -, hrow, -, rfl, rfl⟩ | ⟨entry, batchSize, stream, id, -, hclaim, rfl, rfl⟩
  · refine ⟨fun x hx => ?_, nofun⟩
    obtain ⟨row, hrow⟩ := h x hx
    exact ⟨row, Db.job_append_of_some hrow⟩
  · refine ⟨fun x hx => ?_, nofun⟩
    rcases List.mem_append.mp hx with hx | hx
    · exact h x hx
    · rw [List.mem_singleton.mp hx]
      exact Option.isSome_iff_exists.mp hrow
  · constructor
    · intro x hx
      obtain ⟨x', hx', hid⟩ := Stream.mem_claim hclaim hx
      rw [← hid]
      exact h x' hx'
    · intro t p heq
      cases heq
      obtain ⟨⟨y, hy, -⟩, -, -⟩ := Stream.claim_eq_some hclaim
      exact h _ (List.mem_of_getElem? hy)

end System

end TransactionPlatform
