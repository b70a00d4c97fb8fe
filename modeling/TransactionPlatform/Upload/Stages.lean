import Mathlib.Data.List.Nodup
import TransactionPlatform.Upload.ImportService

/-!
# The stages of a request

One call of `create_import` as an abstract machine: where the call stands (`Stage`), which operation
it asks for there (`Asks`), and where it goes when the operation succeeds (`Advance`).  An operation
that fails ends the call.  `createImport_follows` shows that the program follows the machine, and
the lemmas on `UploadMove` say what one move can do to the tables, the stream and the files.
-/

namespace TransactionPlatform

open Interleaved

/-- Where a call of `create_import` stands. -/
inductive Stage where
  /-- The file does not exist yet. -/
  | start
  /-- The file is open and holds `written`. -/
  | writing (written : List UInt8)
  /-- The upload is refused; the file is about to be removed. -/
  | reject (e : UploadExn)
  /-- The file is complete, and the key is about to be looked up. -/
  | lookup
  /-- The key has a job; the file is about to be removed. -/
  | found (job : ImportJob)
  /-- The key had no job; the row is about to be committed. -/
  | insert
  /-- The commit has lost the race: the session is rolled back, the file removed, and the winner
  looked up. -/
  | raced
  | discard
  | reselect
  /-- The row is committed and about to be refreshed. -/
  | refresh
  | announce (job : ImportJob)
  /-- The job is about to be enqueued. -/
  | enqueue (job : ImportJob)
  /-- The call has returned or raised. -/
  | ended (r : Except UploadExn (ImportJob × Bool))

/-- The stage behind the first `SELECT`. -/
def Stage.lookedUp : Option ImportJob → Stage
  | none => .insert
  | some job => .found job

section Machine

variable (svc : Service) (r : Request)

/-- The operations a call may ask for at a stage. -/
inductive Asks : Stage → UploadOp → Prop where
  | mkdir : Asks .start .mkdir
  | openWrite : Asks .start (.openWrite (svc.storagePath r.jobId))
  | readChunk {written : List UInt8} : Asks (.writing written) .readChunk
  | write {written chunk : List UInt8} :
      Asks (.writing written) (.write (svc.storagePath r.jobId) chunk)
  | reject {e : UploadExn} : Asks (.reject e) (.unlink (svc.storagePath r.jobId))
  | lookup : Asks .lookup (.selectByKey (svc.idempotencyKey r))
  | found {job : ImportJob} : Asks (.found job) (.unlink (svc.storagePath r.jobId))
  | insert : Asks .insert (.commitJob (svc.newJob r))
  | raced : Asks .raced .rollback
  | discard : Asks .discard (.unlink (svc.storagePath r.jobId))
  | reselect : Asks .reselect (.selectByKey (svc.idempotencyKey r))
  | refresh : Asks .refresh (.refresh r.jobId)
  | announce {job : ImportJob} (hid : job.id = r.jobId) : Asks (.announce job) .ensureGroup
  | enqueue {job : ImportJob} (hid : job.id = r.jobId) : Asks (.enqueue job) (.xadd r.jobId)

/-- Where a call goes when its operation succeeds in the state `w`. -/
inductive Advance : UploadOp → UploadWorld → Stage → Stage → Prop where
  | mkdir {w : UploadWorld} : Advance .mkdir w .start .start
  | openWrite {w : UploadWorld} :
      Advance (.openWrite (svc.storagePath r.jobId)) w .start (.writing [])
  | read {w : UploadWorld} {written : List UInt8} :
      Advance .readChunk w (.writing written) (.writing written)
  | tooLarge {w : UploadWorld} {written : List UInt8}
      (h : svc.uploadMaxBytes < r.content.length) :
      Advance .readChunk w (.writing written)
        (.reject (.HTTPException 413 "File exceeds maximum allowed size"))
  | empty {w : UploadWorld} {written : List UInt8} (h : r.content = []) :
      Advance .readChunk w (.writing written)
        (.reject (.HTTPException 400 "Uploaded file is empty"))
  | complete {w : UploadWorld} (h : svc.Passes r) :
      Advance .readChunk w (.writing r.content) .lookup
  | write {w : UploadWorld} {written chunk : List UInt8} :
      Advance (.write (svc.storagePath r.jobId) chunk) w (.writing written)
        (.writing (written ++ chunk))
  | reject {w : UploadWorld} {e : UploadExn} :
      Advance (.unlink (svc.storagePath r.jobId)) w (.reject e) (.ended (.error e))
  | lookup {w : UploadWorld} :
      Advance (.selectByKey (svc.idempotencyKey r)) w .lookup
        (.lookedUp (w.jobByKey (svc.idempotencyKey r)))
  | found {w : UploadWorld} {job : ImportJob} :
      Advance (.unlink (svc.storagePath r.jobId)) w (.found job) (.ended (.ok (job, true)))
  | inserted {w : UploadWorld} (h : w.accepts (svc.newJob r) = true) :
      Advance (.commitJob (svc.newJob r)) w .insert .refresh
  | conflict {w : UploadWorld} (hstore : (svc.newJob r).storable = true)
      (h : w.conflicts (svc.newJob r) = true) :
      Advance (.commitJob (svc.newJob r)) w .insert .raced
  | refused {w : UploadWorld} (h : (svc.newJob r).storable = false) :
      Advance (.commitJob (svc.newJob r)) w .insert (.ended (.error .DBAPIError))
  | rollback {w : UploadWorld} : Advance .rollback w .raced .discard
  | unlink {w : UploadWorld} : Advance (.unlink (svc.storagePath r.jobId)) w .discard .reselect
  | winner {w : UploadWorld} {job : ImportJob}
      (h : w.jobByKey (svc.idempotencyKey r) = some job) :
      Advance (.selectByKey (svc.idempotencyKey r)) w .reselect (.ended (.ok (job, true)))
  | noWinner {w : UploadWorld} (h : w.jobByKey (svc.idempotencyKey r) = none) :
      Advance (.selectByKey (svc.idempotencyKey r)) w .reselect (.ended (.error .NoResultFound))
  | refresh {w : UploadWorld} {job : ImportJob} (h : w.db.job r.jobId = some job) :
      Advance (.refresh r.jobId) w .refresh (.announce job)
  | missing {w : UploadWorld} (h : w.db.job r.jobId = none) :
      Advance (.refresh r.jobId) w .refresh (.ended (.error .InvalidRequestError))
  | ensureGroup {w : UploadWorld} {job : ImportJob} :
      Advance .ensureGroup w (.announce job) (.enqueue job)
  | xadd {w : UploadWorld} {job : ImportJob} :
      Advance (.xadd r.jobId) w (.enqueue job) (.ended (.ok (job, false)))

/-- The moves of a call: its operation succeeds, or fails and ends the call. -/
inductive UploadMove :
    UploadOp → Fault → UploadWorld → Stage → UploadWorld → Stage → Prop where
  | ok {o : UploadOp} {w : UploadWorld} {a a' : Stage} (hask : Asks svc r a o)
      (h : Advance svc r o w a a') : UploadMove o .ok w a (o.exec .ok w).1 a'
  | fail {o : UploadOp} {f : Fault} {w : UploadWorld} {a : Stage} {e : UploadExn}
      (hask : Asks svc r a o) (hf : f ≠ .ok) :
      UploadMove o f w a (o.exec f w).1 (.ended (.error e))

variable {svc r}

theorem UploadWorld.accepts_iff {job : ImportJob} {w : UploadWorld} :
    w.accepts job = true ↔ job.storable = true ∧ w.conflicts job = false := by
  rw [accepts, Bool.and_eq_true_iff, Bool.not_eq_true']

theorem Fault.commitJob_of_accepts {f : Fault} {job : ImportJob} {w : UploadWorld}
    (h : w.accepts job = true) :
    f.commitJob job w = f.apply .DBAPIError (fun w => w.insert job) w := by
  unfold Fault.commitJob
  rw [if_pos h]

theorem Fault.commitJob_of_not_accepts {f : Fault} {job : ImportJob} {w : UploadWorld}
    (h : w.accepts job = false) :
    f.commitJob job w =
      (w, .error (if f = .ok ∧ job.storable = true then .IntegrityError else .DBAPIError)) := by
  unfold Fault.commitJob
  rw [if_neg (by rw [h]; nofun)]

/-- A commit that conflicts changes nothing. -/
theorem UploadWorld.exec_commitJob_of_conflicts {f : Fault} {job : ImportJob} {w : UploadWorld}
    (h : w.conflicts job = true) : ((UploadOp.commitJob job).exec f w).1 = w := by
  refine congrArg Prod.fst (Fault.commitJob_of_not_accepts ?_)
  rw [accepts, h, Bool.not_true, Bool.and_false]

/-- A commit of a row that does not fit changes nothing. -/
theorem UploadWorld.exec_commitJob_of_not_storable {f : Fault} {job : ImportJob} {w : UploadWorld}
    (h : job.storable = false) : ((UploadOp.commitJob job).exec f w).1 = w := by
  refine congrArg Prod.fst (Fault.commitJob_of_not_accepts ?_)
  rw [accepts, h, Bool.false_and]

/-- An operation that fails raises. -/
theorem UploadOp.exec_fails (o : UploadOp) {f : Fault} (hf : f ≠ .ok) (w : UploadWorld) :
    ∃ e, (o.exec f w).2 = .error e := by
  have happly : ∀ (e : UploadExn) (g : UploadWorld → UploadWorld),
      ∃ e', (f.apply e g w).2 = .error e' := by
    intro e g
    cases f with
    | ok => exact absurd rfl hf
    | rejected => exact ⟨e, rfl⟩
    | failed => exact ⟨e, rfl⟩
    | lost => exact ⟨e, rfl⟩
  have hquery : ∀ (β : Type) (e : UploadExn) (g : UploadWorld → Except UploadExn β),
      ∃ e', (f.query e g w).2 = .error e' := by
    intro β e g
    cases f with
    | ok => exact absurd rfl hf
    | rejected => exact ⟨e, rfl⟩
    | failed => exact ⟨e, rfl⟩
    | lost => exact ⟨e, rfl⟩
  cases o with
  | mkdir => exact happly _ _
  | openWrite path => exact happly _ _
  | readChunk => exact happly _ _
  | write path chunk => exact happly _ _
  | unlink path => exact happly _ _
  | selectByKey key => exact hquery _ _ _
  | commitJob job =>
    change ∃ e, (f.commitJob job w).2 = .error e
    cases hacc : w.accepts job with
    | false =>
      rw [Fault.commitJob_of_not_accepts hacc]
      exact ⟨_, rfl⟩
    | true =>
      rw [Fault.commitJob_of_accepts hacc]
      exact happly _ _
  | rollback => exact happly _ _
  | refresh id => exact hquery _ _ _
  | ensureGroup => exact happly _ _
  | xadd id => exact happly _ _

end Machine

/-! ### `create_import` follows the stages -/

section Walk

variable {svc : Service} {r : Request} {β : Type}

/-- The program of a request follows the machine. -/
abbrev UploadM.Runs (svc : Service) (r : Request) (m : UploadM β)
    (post : Except UploadExn β → Unit → Stage → Prop) (a : Stage) : Prop :=
  Routine.Follows UploadOp.exec (UploadMove svc r) post m () a

/-- The rule for an operation. -/
theorem runs_perform {o : UploadOp} {post : Except UploadExn o.Out → Unit → Stage → Prop}
    {a : Stage} (hask : Asks svc r a o)
    (hok : ∀ w, ∃ a', Advance svc r o w a a' ∧ post (o.exec .ok w).2 () a')
    (herr : ∀ e, post (.error e) () (.ended (.error e))) :
    (UploadM.perform o).Runs svc r post a := by
  intro f w
  by_cases hf : f = .ok
  · subst hf
    obtain ⟨a', hadv, hpost⟩ := hok w
    exact ⟨a', .ok hask hadv, hpost⟩
  · obtain ⟨e, he⟩ := o.exec_fails hf w
    refine ⟨.ended (.error e), .fail hask hf, ?_⟩
    change post (o.exec f w).2 () _
    rw [he]
    exact herr e

/-- The rule for the commit inside the `try`. -/
theorem runs_tryCommit {post : Except UploadExn Bool → Unit → Stage → Prop}
    (hwon : post (.ok true) () .refresh) (hlost : post (.ok false) () .raced)
    (herr : ∀ e, post (.error e) () (.ended (.error e))) :
    (UploadM.tryCommit (svc.newJob r)).Runs svc r post .insert := by
  intro f w
  by_cases hf : f = .ok
  · subst hf
    cases hacc : w.accepts (svc.newJob r) with
    | true =>
      refine ⟨.refresh, .ok .insert (.inserted hacc), ?_⟩
      have hans : ((UploadOp.commitJob (svc.newJob r)).exec .ok w).2 = .ok () :=
        congrArg Prod.snd (Fault.commitJob_of_accepts hacc)
      rw [hans]
      exact hwon
    | false =>
      have hans : ((UploadOp.commitJob (svc.newJob r)).exec .ok w).2 = .error
          (if Fault.ok = .ok ∧ (svc.newJob r).storable = true then .IntegrityError
            else .DBAPIError) :=
        congrArg Prod.snd (Fault.commitJob_of_not_accepts hacc)
      rw [hans]
      cases hstore : (svc.newJob r).storable with
      | true =>
        have hconf : w.conflicts (svc.newJob r) = true := by
          rw [UploadWorld.accepts, hstore, Bool.true_and, Bool.not_eq_false'] at hacc
          exact hacc
        exact ⟨.raced, .ok .insert (.conflict hstore hconf), hlost⟩
      | false => exact ⟨_, .ok .insert (.refused hstore), herr .DBAPIError⟩
  · -- `IntegrityError` is the answer of a commit that reached the server
    have herr' : ∃ e, ((UploadOp.commitJob (svc.newJob r)).exec f w).2 = .error e ∧
        e ≠ .IntegrityError := by
      change ∃ e, (f.commitJob (svc.newJob r) w).2 = .error e ∧ e ≠ .IntegrityError
      cases hacc : w.accepts (svc.newJob r) with
      | false =>
        rw [Fault.commitJob_of_not_accepts hacc, if_neg (fun h => hf h.1)]
        exact ⟨_, rfl, nofun⟩
      | true =>
        rw [Fault.commitJob_of_accepts hacc]
        cases f with
        | ok => exact absurd rfl hf
        | rejected => exact ⟨_, rfl, nofun⟩
        | failed => exact ⟨_, rfl, nofun⟩
        | lost => exact ⟨_, rfl, nofun⟩
    obtain ⟨e, he, hne⟩ := herr'
    refine ⟨.ended (.error e), .fail .insert hf, ?_⟩
    rw [he]
    cases e with
    | IntegrityError => exact absurd rfl hne
    | HTTPException status detail => exact herr _
    | OSError => exact herr _
    | DBAPIError => exact herr _
    | InvalidRequestError => exact herr _
    | NoResultFound => exact herr _
    | RedisError => exact herr _

/-- The loop over the chunks, with `written` on disk and `rest` to come. -/
theorem runs_writeChunks (rest : List (List UInt8)) {written : List UInt8} {n : ℕ}
    (hcontent : written ++ rest.flatten = r.content) (hn : n = written.length)
    (hcsv : r.isCsv = true) (hsize : n ≤ svc.uploadMaxBytes) :
    (writeChunks svc (svc.storagePath r.jobId) rest n).Runs svc r
      (fun x _ a =>
        match x with
        | .ok m => (m = 0 ∧ a = .reject (.HTTPException 400 "Uploaded file is empty")) ∨
            (m ≠ 0 ∧ a = .lookup)
        | .error e => a = .ended (.error e))
      (.writing written) := by
  induction rest generalizing written n with
  | nil =>
    rw [List.flatten_nil, List.append_nil] at hcontent
    subst hcontent
    refine Routine.Follows.bind (runs_perform .readChunk (fun w => ?_) fun e => rfl)
    by_cases hzero : n = 0
    · have hnil : r.content = [] := List.length_eq_zero_iff.mp (hn.symm.trans hzero)
      exact ⟨_, .empty hnil, .inl ⟨hzero, rfl⟩⟩
    · have hpasses : svc.Passes r := by
        refine ⟨hcsv, fun hnil => hzero ?_, Nat.le_trans (Nat.le_of_eq hn.symm) hsize⟩
        rw [hn, hnil, List.length_nil]
      exact ⟨_, .complete hpasses, .inr ⟨hzero, rfl⟩⟩
  | cons chunk rest ih =>
    refine Routine.Follows.bind (runs_perform .readChunk (fun w => ?_) fun e => rfl)
    have hle : n + chunk.length ≤ r.content.length := by
      rw [← hcontent, hn, List.flatten_cons, List.length_append, List.length_append]
      omega
    by_cases hlarge : svc.uploadMaxBytes < n + chunk.length
    · refine ⟨_, .tooLarge (Nat.lt_of_lt_of_le hlarge hle), ?_⟩
      change Routine.Follows _ _ _ (if svc.uploadMaxBytes < n + chunk.length then _ else _) _ _
      rw [if_pos hlarge]
      exact Routine.Follows.bind (runs_perform .reject (fun w => ⟨_, .reject, rfl⟩) fun e => rfl)
    · refine ⟨_, .read, ?_⟩
      change Routine.Follows _ _ _ (if svc.uploadMaxBytes < n + chunk.length then _ else _) _ _
      rw [if_neg hlarge]
      refine Routine.Follows.bind (runs_perform .write (fun w => ⟨_, .write, ?_⟩) fun e => rfl)
      refine ih ?_ ?_ (Nat.le_of_not_lt hlarge)
      · rw [List.append_assoc, ← List.flatten_cons]
        exact hcontent
      · rw [List.length_append, hn]

/-- The end of `create_import` behind a commit. -/
theorem runs_announceJob :
    (announceJob r).Runs svc r (fun x _ a => a = .ended x) .refresh := by
  refine Routine.Follows.bind (runs_perform .refresh (fun w => ?_) fun e => rfl)
  cases hjob : w.db.job r.jobId with
  | none =>
    refine ⟨_, .missing hjob, ?_⟩
    have hans : ((UploadOp.refresh r.jobId).exec .ok w).2 = .error .InvalidRequestError := by
      simp only [UploadOp.exec, Fault.query, hjob]
    rw [hans]
  | some job =>
    refine ⟨_, .refresh hjob, ?_⟩
    have hid : job.id = r.jobId := Db.id_of_job hjob
    have hans : ((UploadOp.refresh r.jobId).exec .ok w).2 = .ok job := by
      simp only [UploadOp.exec, Fault.query, hjob]
    rw [hans]
    refine Routine.Follows.bind
      (runs_perform (.announce hid) (fun w => ⟨_, .ensureGroup, ?_⟩) fun e => rfl)
    rw [hid]
    exact Routine.Follows.bind (runs_perform (.enqueue hid) (fun w => ⟨_, .xadd, rfl⟩) fun e => rfl)

/-- The branch of a lost race. -/
theorem runs_returnWinner :
    (returnWinner svc r).Runs svc r (fun x _ a => a = .ended x) .raced := by
  refine Routine.Follows.bind (runs_perform .raced (fun w => ⟨_, .rollback, ?_⟩) fun e => rfl)
  refine Routine.Follows.bind (runs_perform .discard (fun w => ⟨_, .unlink, ?_⟩) fun e => rfl)
  refine Routine.Follows.bind (runs_perform .reselect (fun w => ?_) fun e => rfl)
  have hans : ((UploadOp.selectByKey (svc.idempotencyKey r)).exec .ok w).2 =
      .ok (w.jobByKey (svc.idempotencyKey r)) := rfl
  rw [hans]
  cases hjob : w.jobByKey (svc.idempotencyKey r) with
  | none => exact ⟨_, .noWinner hjob, rfl⟩
  | some job => exact ⟨_, .winner hjob, rfl⟩

theorem runs_registerJob :
    (registerJob svc r).Runs svc r (fun x _ a => a = .ended x) .lookup := by
  refine Routine.Follows.bind (runs_perform .lookup (fun w => ⟨_, .lookup, ?_⟩) fun e => rfl)
  have hans : ((UploadOp.selectByKey (svc.idempotencyKey r)).exec .ok w).2 =
      .ok (w.jobByKey (svc.idempotencyKey r)) := rfl
  rw [hans]
  cases w.jobByKey (svc.idempotencyKey r) with
  | some job =>
    exact Routine.Follows.bind (runs_perform .found (fun w => ⟨_, .found, rfl⟩) fun e => rfl)
  | none =>
    exact Routine.Follows.bind (runs_tryCommit runs_announceJob runs_returnWinner fun e => rfl)

theorem runs_storeUpload (hcsv : r.isCsv = true) :
    (storeUpload svc r).Runs svc r (fun x _ a => a = .ended x) .start := by
  refine Routine.Follows.bind (runs_perform .mkdir (fun w => ⟨_, .mkdir, ?_⟩) fun e => rfl)
  refine Routine.Follows.bind (runs_perform .openWrite (fun w => ⟨_, .openWrite, ?_⟩) fun e => rfl)
  refine Routine.Follows.bind (Routine.Follows.mono
    (runs_writeChunks r.chunks rfl rfl hcsv (Nat.zero_le _)) ?_)
  rintro (e | m) s a hm
  · exact hm
  · rcases hm with ⟨hzero, rfl⟩ | ⟨hpos, rfl⟩
    · change Routine.Follows _ _ _ (if m = 0 then _ else _) _ _
      rw [if_pos hzero]
      exact Routine.Follows.bind (runs_perform .reject (fun w => ⟨_, .reject, rfl⟩) fun e => rfl)
    · change Routine.Follows _ _ _ (if m = 0 then _ else _) _ _
      rw [if_neg hpos]
      exact runs_registerJob

/-- A call of `create_import` follows the machine: it starts, or it is over at once because of its
filename. -/
theorem createImport_follows (svc : Service) (r : Request) :
    (r.program svc).Follows UploadOp.exec (UploadMove svc r) (fun x a => a = .ended x)
      (if r.isCsv = true then .start
        else .ended (.error (.HTTPException 400 "File must be a .csv file"))) := by
  refine Program.Follows.bind ?_
  unfold createImport
  by_cases hcsv : r.isCsv = true
  · rw [if_pos hcsv, if_pos hcsv]
    exact runs_storeUpload hcsv
  · rw [if_neg hcsv, if_neg hcsv]
    exact rfl

end Walk

/-! ### What a move does to the shared state -/

section Effects

variable {svc : Service} {r : Request} {o : UploadOp} {f : Fault} {w w' : UploadWorld}
variable {a a' : Stage}

/-- The shared state after an operation with an effect is the state before it, or the effect. -/
theorem Fault.apply_cases (f : Fault) (e : UploadExn) (g : UploadWorld → UploadWorld)
    (w : UploadWorld) :
    (f.apply e g w).1 = w ∨ ((f = .ok ∨ f = .lost) ∧ (f.apply e g w).1 = g w) := by
  cases f with
  | ok => exact .inr ⟨.inl rfl, rfl⟩
  | rejected => exact .inl rfl
  | failed => exact .inl rfl
  | lost => exact .inr ⟨.inr rfl, rfl⟩

theorem Fault.query_fst {β : Type} (f : Fault) (e : UploadExn)
    (g : UploadWorld → Except UploadExn β) (w : UploadWorld) : (f.query e g w).1 = w := by
  cases f <;> rfl

/-- An operation leaves the shared state as it is or has its one effect. -/
theorem UploadOp.exec_cases (o : UploadOp) (f : Fault) (w : UploadWorld) :
    (o.exec f w).1 = w ∨
    (∃ path content, (o.exec f w).1 = w.setFile path content ∧
      (o = .openWrite path ∨ o = .unlink path ∨ ∃ chunk, o = .write path chunk)) ∨
    (∃ job, o = .commitJob job ∧ w.accepts job = true ∧ (f = .ok ∨ f = .lost) ∧
      (o.exec f w).1 = w.insert job) ∨
    (∃ id, o = .xadd id ∧ (f = .ok ∨ f = .lost) ∧
      (o.exec f w).1 = { w with stream := w.stream.xadd id }) := by
  -- operations without an effect
  have hid : ∀ e, (f.apply e id w).1 = w := by
    intro e
    rcases f.apply_cases e id w with h | ⟨-, h⟩
    · exact h
    · exact h
  cases o with
  | mkdir => exact .inl (hid _)
  | openWrite path =>
    rcases f.apply_cases .OSError (fun w => w.setFile path (some [])) w with h | ⟨-, h⟩
    · exact .inl h
    · exact .inr (.inl ⟨path, _, h, .inl rfl⟩)
  | readChunk => exact .inl (hid _)
  | write path chunk =>
    rcases f.apply_cases .OSError
      (fun w => w.setFile path (some ((w.files path).getD [] ++ chunk))) w with h | ⟨-, h⟩
    · exact .inl h
    · exact .inr (.inl ⟨path, _, h, .inr (.inr ⟨chunk, rfl⟩)⟩)
  | unlink path =>
    rcases f.apply_cases .OSError (fun w => w.setFile path none) w with h | ⟨-, h⟩
    · exact .inl h
    · exact .inr (.inl ⟨path, _, h, .inr (.inl rfl)⟩)
  | selectByKey key => exact .inl (f.query_fst _ _ w)
  | commitJob job =>
    have hexec : (UploadOp.commitJob job).exec f w = f.commitJob job w := rfl
    rw [hexec]
    cases hacc : w.accepts job with
    | false =>
      rw [Fault.commitJob_of_not_accepts hacc]
      exact .inl rfl
    | true =>
      rw [Fault.commitJob_of_accepts hacc]
      rcases f.apply_cases .DBAPIError (fun w => w.insert job) w with h | ⟨hf, h⟩
      · exact .inl h
      · exact .inr (.inr (.inl ⟨job, rfl, hacc, hf, h⟩))
  | rollback => exact .inl (hid _)
  | refresh id => exact .inl (f.query_fst _ _ w)
  | ensureGroup => exact .inl (hid _)
  | xadd id =>
    rcases f.apply_cases .RedisError (fun w => { w with stream := w.stream.xadd id }) w with
      h | ⟨hf, h⟩
    · exact .inl h
    · exact .inr (.inr (.inr ⟨id, rfl, hf, h⟩))

/-- A move is made with an operation the call asks for. -/
theorem UploadMove.asks (h : UploadMove svc r o f w a w' a') : Asks svc r a o := by
  cases h with
  | ok hask hadv => exact hask
  | fail hask hf => exact hask

/-- What a move can do: nothing, a change of its own file, the insert of its own row, or the entry
for its own job. -/
theorem UploadMove.effect (h : UploadMove svc r o f w a w' a') :
    w' = w ∨
    (∃ content, w' = w.setFile (svc.storagePath r.jobId) content) ∨
    (a = .insert ∧ o = .commitJob (svc.newJob r) ∧ w.accepts (svc.newJob r) = true ∧
      (f = .ok ∨ f = .lost) ∧ w' = w.insert (svc.newJob r)) ∨
    ((∃ job, a = .enqueue job) ∧ o = .xadd r.jobId ∧ (f = .ok ∨ f = .lost) ∧
      w' = { w with stream := w.stream.xadd r.jobId }) := by
  have hask := h.asks
  obtain rfl : w' = (o.exec f w).1 := by
    cases h with
    | ok hask hadv => rfl
    | fail hask hf => rfl
  rcases o.exec_cases f w with hw | ⟨path, content, hw, ho⟩ | ⟨job, rfl, hacc, hf, hw⟩ |
    ⟨id, rfl, hf, hw⟩
  · exact .inl hw
  · have hpath : path = svc.storagePath r.jobId := by
      rcases ho with rfl | rfl | ⟨chunk, rfl⟩
      · cases hask
        rfl
      · cases hask <;> rfl
      · cases hask
        rfl
    rw [hpath] at hw
    exact .inr (.inl ⟨content, hw⟩)
  · cases hask
    exact .inr (.inr (.inl ⟨rfl, rfl, hacc, hf, hw⟩))
  · cases hask with
    | enqueue hid => exact .inr (.inr (.inr ⟨⟨_, rfl⟩, rfl, hf, hw⟩))

end Effects

/-! ### Any number of requests -/

section System

variable {svc : Service} {c d : UploadPool}

/-- The stage in which a call begins. -/
def Stage.initial (r : Request) : Stage :=
  if r.isCsv = true then .start
  else .ended (.error (.HTTPException 400 "File must be a .csv file"))

theorem UploadWorld.unused_iff {w : UploadWorld} {id : Uuid} :
    w.unused svc id = true ↔ (∀ row ∈ w.db.jobs, row.id ≠ id) ∧ ¬ w.stream.Enqueued id ∧
      w.files (svc.storagePath id) = none ∧ ∀ r ∈ w.requests, r.jobId ≠ id := by
  simp only [unused, Bool.and_eq_true, List.all_eq_true, decide_eq_true_eq, Option.isNone_iff_eq_none,
    Stream.Enqueued, not_exists, not_and, and_assoc, ne_eq]

/-- What an arrival does: it starts a call, or lets a worker change the stream or a row. -/
theorem UploadArrival.apply_cases {x : UploadArrival} {w w' : UploadWorld}
    {p : Option (Request × Program UploadOp UploadOp.Ans (Except UploadExn (ImportJob × Bool)))}
    (h : x.apply svc w = some (w', p)) :
    (∃ r, x = .request r ∧ w.unused svc r.jobId = true ∧ p = some (r, r.program svc) ∧
      w' = { w with requests := w.requests ++ [r] }) ∨
    (∃ stream, p = none ∧ w' = { w with stream := stream } ∧
      ((∃ entry id, x = .claim entry ∧ w.stream.claim entry = some (stream, id)) ∨
        ∃ entry, x = .ack entry ∧ stream = w.stream.xack entry)) ∨
    (∃ row, x = .work row ∧ w.stream.Enqueued row.id ∧ p = none ∧
      w' = { w with db := w.db.updateJob row.id fun old => old.overwrite row }) := by
  cases x with
  | request r =>
    simp only [apply] at h
    cases hu : w.unused svc r.jobId with
    | false => simp [hu] at h
    | true =>
      simp only [hu, cond_true, Option.some.injEq, Prod.mk.injEq] at h
      exact .inl ⟨r, rfl, hu, h.2.symm, h.1.symm⟩
  | claim entry =>
    simp only [apply, Option.map_eq_some_iff, Prod.mk.injEq] at h
    obtain ⟨⟨stream, id⟩, hclaim, hw, hp⟩ := h
    exact .inr (.inl ⟨stream, hp.symm, hw.symm, .inl ⟨entry, id, rfl, hclaim⟩⟩)
  | ack entry =>
    simp only [apply, Option.some.injEq, Prod.mk.injEq] at h
    exact .inr (.inl ⟨_, h.2.symm, h.1.symm, .inr ⟨entry, rfl, rfl⟩⟩)
  | work row =>
    simp only [apply] at h
    split at h
    · next hcond =>
      simp only [Option.some.injEq, Prod.mk.injEq] at h
      exact .inr (.inr ⟨row, rfl, hcond, h.2.symm, h.1.symm⟩)
    · cases h

/-- Only a request starts a call. -/
theorem UploadArrival.request_of_apply {x : UploadArrival} {w w' : UploadWorld} {r : Request}
    {p : Program UploadOp UploadOp.Ans (Except UploadExn (ImportJob × Bool))}
    (h : x.apply svc w = some (w', some (r, p))) :
    x = .request r ∧ w.unused svc r.jobId = true ∧ p = r.program svc ∧
      w' = { w with requests := w.requests ++ [r] } := by
  rcases UploadArrival.apply_cases h with ⟨r', hx, hu, hp, hw⟩ | ⟨_, hp, -, -⟩ | ⟨_, -, -, hp, -⟩
  · cases hp
    exact ⟨hx, hu, rfl, hw⟩
  · cases hp
  · cases hp

/-- The history of the shared state is the history of the pool, and no two requests have the same
id. -/
structure Logged (c : UploadPool) : Prop where
  requests : c.world.requests = c.procs.map Proc.tag
  nodup : (c.world.requests.map Request.jobId).Nodup

/-- An operation does not change the history. -/
theorem UploadOp.exec_requests (o : UploadOp) (f : Fault) (w : UploadWorld) :
    (o.exec f w).1.requests = w.requests := by
  rcases o.exec_cases f w with h | ⟨path, content, h, -⟩ | ⟨job, -, -, -, h⟩ | ⟨id, -, -, h⟩
  all_goals
    rw [h]
    try rfl

theorem Logged.next {e : UploadEvent} (h : Logged c) (hn : (uploads svc).next c e = some d) :
    Logged d := by
  have hset : ∀ (w : UploadWorld) (i : ℕ) (t : Request)
      (p q : Option (Program UploadOp UploadOp.Ans (Except UploadExn (ImportJob × Bool)))),
      w.requests = c.world.requests → c.procs[i]? = some ⟨t, p⟩ →
      Logged ⟨w, c.procs.set i ⟨t, q⟩⟩ := by
    intro w i t p q hw hi
    refine ⟨?_, by rw [hw]; exact h.nodup⟩
    exact (hw.trans h.requests).trans (map_tag_set hi q).symm
  rcases System.next_cases hn with ⟨i, f, t, o, k, -, hi, rfl⟩ | ⟨i, t, o, k, -, hi, rfl⟩ |
    ⟨x, w, -, hx, rfl⟩ | ⟨x, w, t, p, -, hx, rfl⟩
  · exact hset _ i t _ _ (o.exec_requests f c.world) hi
  · exact hset _ i t _ _ rfl hi
  · rcases UploadArrival.apply_cases hx with ⟨r, -, -, hp, -⟩ | ⟨stream, -, rfl, -⟩ |
      ⟨row, -, -, -, rfl⟩
    · cases hp
    · exact ⟨h.requests, h.nodup⟩
    · exact ⟨h.requests, h.nodup⟩
  · obtain ⟨-, hu, -, rfl⟩ := UploadArrival.request_of_apply hx
    obtain ⟨-, -, -, hnew⟩ := UploadWorld.unused_iff.mp hu
    refine ⟨by simp [h.requests], ?_⟩
    simp only [List.map_append, List.map_singleton, List.nodup_append, List.nodup_singleton,
      true_and]
    refine ⟨h.nodup, ?_⟩
    rintro id hid _ hid' rfl
    obtain ⟨r', hr', rfl⟩ := List.mem_map.mp hid
    exact hnew r' hr' (List.mem_singleton.mp hid')

theorem Logged.mem_requests (h : Logged c) {i : ℕ} {r : Request}
    {q : Option (Program UploadOp UploadOp.Ans (Except UploadExn (ImportJob × Bool)))}
    (hi : c.procs[i]? = some ⟨r, q⟩) : r ∈ c.world.requests := by
  rw [h.requests]
  exact List.mem_map.mpr ⟨_, List.mem_of_getElem? hi, rfl⟩

/-- Two requests with the same id are the same request. -/
theorem Logged.request_eq (h : Logged c) {r r' : Request} (hr : r ∈ c.world.requests)
    (hr' : r' ∈ c.world.requests) (hid : r.jobId = r'.jobId) : r = r' :=
  List.inj_on_of_nodup_map h.nodup hr hr' hid

/-- Two calls with the same id are the same call. -/
theorem Logged.index_eq (h : Logged c) {i j : ℕ}
    {p q : Proc Request UploadOp UploadOp.Ans (Except UploadExn (ImportJob × Bool))}
    (hi : c.procs[i]? = some p) (hj : c.procs[j]? = some q) (heq : p.tag.jobId = q.tag.jobId) :
    i = j := by
  have hids : c.world.requests.map Request.jobId = c.procs.map fun p => p.tag.jobId := by
    rw [h.requests, List.map_map]
    rfl
  have hnodup := h.nodup
  rw [hids] at hnodup
  obtain ⟨hlt, -⟩ := List.getElem?_eq_some_iff.mp hi
  refine (List.getElem?_inj (by rw [List.length_map]; exact hlt) hnodup).mp ?_
  rw [List.getElem?_map, List.getElem?_map, hi, hj]
  exact congrArg some heq

/-- Along a run that starts without a call the history is kept. -/
theorem Logged.reaches {C : UploadPool → UploadEvent → Prop} {w : UploadWorld}
    (hw : w.requests = []) (hc : (uploads svc).Reaches C ⟨w, []⟩ c) :
    (uploads svc).Reaches (fun c e => C c e ∧ Logged c) ⟨w, []⟩ c ∧ Logged c := by
  refine hc.strengthen ⟨by rw [hw]; rfl, by rw [hw]; exact List.nodup_nil⟩ ?_
  exact fun c e d h _ hn => h.next hn

/-- The outline holds of a pool of requests, with every call in its stage. -/
abbrev UploadsHold (svc : Service) (O : Outline UploadWorld Request Stage) (c : UploadPool)
    (ph : ℕ → Stage) : Prop :=
  O.Holds (uploads svc) (UploadMove svc) (fun _ x a => a = .ended x) c ph

/-- The obligations of an outline for the requests: one move of one call, one arrival, and a call
that begins. -/
theorem uploads_sound {C : UploadPool → UploadEvent → Prop} {O : Outline UploadWorld Request Stage}
    (hrun : ∀ (c : UploadPool) (ph : ℕ → Stage) (i : ℕ) (r : Request) (o : UploadOp)
      (k : o.Ans → Program UploadOp UploadOp.Ans (Except UploadExn (ImportJob × Bool))) (f : Fault)
      (a' : Stage), UploadsHold svc O c ph → C c (.run i f) → c.procs[i]? = some ⟨r, some (.call o k)⟩ →
      UploadMove svc r o f c.world (ph i) (o.exec f c.world).1 a' →
      O.Inv (o.exec f c.world).1 ∧ O.Loc r a' (o.exec f c.world).1 ∧
      O.Guar c.world (o.exec f c.world).1 ∧
      ∀ (j : ℕ) (r' : Request)
        (p' : Program UploadOp UploadOp.Ans (Except UploadExn (ImportJob × Bool))), j ≠ i →
        c.procs[j]? = some ⟨r', some p'⟩ → O.Loc r' (ph j) (o.exec f c.world).1)
    (harrive : ∀ (c : UploadPool) (ph : ℕ → Stage) (x : UploadArrival) (w : UploadWorld)
      (p : Option (Request × Program UploadOp UploadOp.Ans (Except UploadExn (ImportJob × Bool)))),
      UploadsHold svc O c ph → C c (.arrive x) → x.apply svc c.world = some (w, p) →
      O.Inv w ∧ O.Guar c.world w ∧
      (∀ (i : ℕ) (r : Request)
        (p : Program UploadOp UploadOp.Ans (Except UploadExn (ImportJob × Bool))),
        c.procs[i]? = some ⟨r, some p⟩ → O.Loc r (ph i) w) ∧
      ∀ r q, p = some (r, q) → O.Loc r (.initial r) w) :
    O.Sound (uploads svc) C (UploadMove svc) fun _ x a => a = .ended x where
  run c ph i r o k f a' h hC hi hstep _ := hrun c ph i r o k f a' h hC hi hstep
  arrive c ph x w p h hC hx := by
    obtain ⟨hinv, hguar, hloc, hnew⟩ := harrive c ph x w p h hC hx
    refine ⟨hinv, hguar, hloc, fun r q hp => ⟨.initial r, ?_, hnew r q hp⟩⟩
    subst hp
    obtain ⟨-, -, rfl, -⟩ := UploadArrival.request_of_apply hx
    exact createImport_follows svc r

end System

end TransactionPlatform
