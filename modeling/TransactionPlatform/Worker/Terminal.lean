import TransactionPlatform.Worker.Exclusive

/-!
# Terminal statuses

A completed or failed job should stay completed or failed.  Two steps of `process_entry` break this
even when attempts do not overlap: the acknowledgement behind `_run_import` is inside the `try`
whose handler requeues the job, and a job that failed for its header is loaded like one that never
ran.  `terminal_status_final` shows that there is no third way.
-/

namespace TransactionPlatform

open Interleaved

/-- No acknowledgement inside the `try` of `process_entry` raises: if the next operation of a worker
is an `XACK` that fails, then the call ends there. -/
def AckInTrySucceeds (c : WorkerPool) : WorkerEvent → Prop
  | .run i f => f ≠ .ok → ∀ p ∈ c.procs[i]?, ∀ entry k, p.prog = some (.call (.xack entry) k) →
      (k (.error .RedisError)).isDone = true
  | _ => True

/-- No attempt loads a failed job that has retries left.  A query that fails loads nothing. -/
def NoFailedReload (c : WorkerPool) : WorkerEvent → Prop
  | .run i f => f = .ok → ∀ p ∈ c.procs[i]?, ∀ id k, p.prog = some (.call (.selectJob id) k) →
      ∀ job, c.world.db.job id = some job → job.status = .FAILED → maxRetries ≤ job.retryCount
  | _ => True

/-- The events of a run in which both steps are avoided. -/
def TerminalSafe (c : WorkerPool) (e : WorkerEvent) : Prop :=
  OneAtATime c e ∧ AckInTrySucceeds c e ∧ NoFailedReload c e

/-- `completed_at` is set exactly in the terminal statuses. -/
def CompletedAtSet (_ : Db) (job : ImportJob) : Prop :=
  job.completedAt.isSome = true ↔ job.status.terminal = true

/-- A terminal status stays. -/
def StatusKept (job job' : ImportJob) : Prop :=
  job.status.terminal = true → job'.status = job.status

/-- What an attempt knows about the status of its object. -/
def TerminalAt (_ : Attempt) : Phase → Prop
  | .giveUp job => job.status ≠ .COMPLETED
  | .start job => job.status.terminal = false
  | .scan job _ => job.status.terminal = false
  | .handle s _ => s.saved.status.terminal = false ∧ ∀ db,
      (s.commitJob db).status = .QUEUED ∧ (s.commitJob db).completedAt = s.saved.completedAt
  | _ => True

/-- What `TerminalSafe` says about a move. -/
def TerminalAllowed (t : Attempt) (o : WorkerOp) (f : Fault) (db : Db) (a : Phase) : Prop :=
  (∀ job, a = .ackTry job → o = .xack t.entry → f = .ok) ∧
  ∀ job, o = .selectJob t.importJobId → f = .ok → db.job t.importJobId = some job →
    job.status = .FAILED → maxRetries ≤ job.retryCount

variable {py : Python} {files : String → Option Csv} {t : Attempt} {db : Db} {job : ImportJob}

theorem terminal_loaded (hload : ∀ job, db.job t.importJobId = some job →
    job.status = .FAILED → maxRetries ≤ job.retryCount) :
    TerminalAt t (.loaded (db.job t.importJobId)) := by
  rcases Phase.loaded_cases (db.job t.importJobId) with ⟨ha, -⟩ | ⟨job, ha, -, hne, -⟩ |
    ⟨job, ha, hrow, hne, hretry⟩
  · rw [ha]
    trivial
  · rw [ha]
    exact hne
  · rw [ha]
    -- neither completed nor failed
    have hfailed : job.status ≠ .FAILED := fun hf => Nat.not_le.mpr hretry (hload job hrow hf)
    change job.status.terminal = false
    rw [← Bool.not_eq_true, ImportStatus.terminal_iff]
    exact not_or_intro hne hfailed

theorem terminal_quiet {o : WorkerOp} {f : Fault} {a a' : Phase}
    (hallow : TerminalAllowed t o f db a) (hq : Quiet py files t o f db a a')
    (hfact : TerminalAt t a) : TerminalAt t a' := by
  cases hq with
  | load => exact terminal_loaded fun job hjob => hallow.2 job rfl rfl hjob
  | stay => exact hfact
  | fail hr =>
    cases hr with
    | load hf => trivial
    | server => trivial
    | insert hid hcsv hb hmem hvalid hout =>
      refine ⟨hfact, fun db => ?_⟩
      simp only [Session.commitJob, Session.transaction_inserts]
      exact ⟨rfl, rfl⟩
    | update hid hcsv hb hout =>
      refine ⟨hfact, fun db => ?_⟩
      simp only [Session.commitJob, Session.transaction_advance]
      exact ⟨rfl, rfl⟩
    | openCsv hid hwhy => exact ⟨hfact, fun db => ⟨rfl, rfl⟩⟩
    | readRow hid hwhy => exact ⟨hfact, fun db => ⟨rfl, rfl⟩⟩
  | finish => trivial
  | unacked hid hf => exact absurd (hallow.1 _ rfl rfl) hf

/-- A commit of an attempt whose object is not in a terminal status. -/
theorem terminal_commit {a : Phase} {s : Session} {cont : ImportJob → Phase}
    (hc : Commits py files t a s cont) (h : CompletedAtSet db s.saved) (hfact : TerminalAt t a) :
    CompletedAtSet (s.commitDb db) (s.commitJob db) ∧ StatusKept s.saved (s.commitJob db) ∧
      TerminalAt t (cont (s.commitJob db)) := by
  cases hc with
  | @giveUp job time hid =>
    refine ⟨⟨fun _ => rfl, fun _ => rfl⟩, fun hterm => ?_, trivial⟩
    exact ((ImportStatus.terminal_iff.mp hterm).resolve_left hfact).symm
  | @start job startedAt hid =>
    have hnone : job.completedAt.isSome ≠ true := fun hc => by
      have := h.mp hc
      rw [hfact] at this
      cases this
    refine ⟨⟨fun hc => absurd hc hnone, fun hterm => by cases hterm⟩, fun hterm => ?_, rfl⟩
    rw [hfact] at hterm
    cases hterm
  | batch hid hcsv hcol hb hlt hfits =>
    simp only [Session.commitDb, Session.commitJob, Batch.work, Session.transaction_batch]
    exact ⟨h, fun _ => rfl, hfact⟩
  | finish hid hcsv hcol hlen hend =>
    refine ⟨⟨fun _ => rfl, fun _ => rfl⟩, fun hterm => ?_, trivial⟩
    rw [hfact] at hterm
    cases hterm
  | reject hid hcsv hcol =>
    refine ⟨⟨fun _ => rfl, fun _ => rfl⟩, fun hterm => ?_, trivial⟩
    rw [hfact] at hterm
    cases hterm
  | handle hid =>
    obtain ⟨hsaved, hjob⟩ := hfact
    obtain ⟨hst, hat⟩ := hjob db
    refine ⟨?_, fun hterm => ?_, trivial⟩
    · rw [CompletedAtSet, hat, hst]
      exact ⟨fun hc => hsaved.symm.trans (h.mp hc), fun hterm => by cases hterm⟩
    · rw [hsaved] at hterm
      cases hterm

/-- Where the next phase is not the last one, the program goes on. -/
theorem not_isDone_of_ackTry {k : Except Exn Unit → Program WorkerOp WorkerOp.Ans (Except Exn Unit)}
    {entry : ℕ} (h : (Program.call (.xack entry) k).Follows (WorkerOp.exec files) (Move py files t)
      (fun r a => a = .ended r) (.ackTry job)) (w : World) :
    (k (.error .RedisError)).isDone = false := by
  obtain ⟨a', hmove, hk⟩ := h .failed w
  have hne : ∀ r, a' ≠ .ended r := by
    intro r
    cases hmove with
    | stay hdb hstream ha => exact ha r
    | fail hr => cases hr
    | ackTry hid => exact fun heq => by cases heq
  change (k (.error .RedisError)).Follows _ _ _ a' at hk
  cases hp : k (.error .RedisError) with
  | done r =>
    rw [hp] at hk
    exact absurd hk (hne r)
  | call o k' => rfl

theorem terminalRule (py : Python) (files : String → Option Csv) :
    ExclusiveRule py files
      (fun c e => TerminalSafe c e ∧ System.Exclusive Attempt.importJobId c) CompletedAtSet TerminalAt
      StatusKept TerminalAllowed where
  exclusive c e hC := hC.2
  allowed c i t o k f a hC hi hfollow := by
    have hp := Option.mem_def.mpr hi
    constructor
    · rintro job rfl rfl
      by_contra hf
      have hdone := hC.1.2.1 hf _ hp t.entry k rfl
      rw [not_isDone_of_ackTry hfollow c.world] at hdone
      cases hdone
    · rintro job rfl rfl hjob hst
      exact hC.1.2.2 rfl _ hp t.importJobId k rfl job hjob hst
  quiet t o f db a a' hallow hq _ _ hfact := terminal_quiet hallow hq hfact
  commit t f db a s cont _ hc _ h hfact := terminal_commit hc h hfact
  frame t f db a s cont _ hc hfact row hne h := h
  create c id client name path key _ hunused :=
    ⟨⟨nofun, nofun⟩, fun row h => h⟩
  unread _ := trivial
  ended _ _ := trivial
  refl _ _ := rfl
  trans job job' job'' h h' hterm := by
    have h1 := h hterm
    exact (h' (by rw [h1]; exact hterm)).trans h1

/-- Terminal statuses are final in every run in which no acknowledgement inside the `try` raises and
no failed job with retries left is loaded: a terminal status never changes, and `completed_at` is
set exactly when the status is terminal. -/
theorem terminal_status_final (py : Python) (files : String → Option Csv) {w : World}
    (hw : ∀ id job, w.db.job id = some job → job.status = .QUEUED ∧ job.completedAt = none)
    {c d : WorkerPool} (hc : (workers py files).Reaches TerminalSafe ⟨w, []⟩ c)
    (hd : (workers py files).Reaches TerminalSafe c d) :
    (∀ id job, c.world.db.job id = some job → job.status.terminal = true →
      ∃ job', d.world.db.job id = some job' ∧ job'.status = job.status) ∧
    (∀ id job, d.world.db.job id = some job →
      (job.completedAt.isSome = true ↔ job.status.terminal = true)) := by
  obtain ⟨hinv, hmono⟩ := (terminalRule py files).reaches (fun _ _ he => he.1)
    (fun id job hjob => by
      obtain ⟨h1, h2⟩ := hw id job hjob
      rw [CompletedAtSet, h1, h2]
      exact ⟨nofun, nofun⟩) hc hd
  refine ⟨fun id job hjob hterm => ?_, hinv⟩
  obtain ⟨job', hjob', hkept⟩ := hmono id job hjob
  exact ⟨job', hjob', hkept hterm⟩

/-- A test for `TerminalSafe`: everything succeeds and no job has failed. -/
def TerminalSafe.test (c : WorkerPool) (e : WorkerEvent) : Bool :=
  OneAtATime.test c e &&
  match e with
  | .run _ f => decide (f = .ok) && c.world.db.jobs.all fun job => decide (job.status ≠ .FAILED)
  | _ => true

theorem TerminalSafe.of_test {c : WorkerPool} {e : WorkerEvent} (h : TerminalSafe.test c e = true) :
    TerminalSafe c e := by
  obtain ⟨h1, h2⟩ := Bool.and_eq_true_iff.mp h
  refine ⟨OneAtATime.of_test h1, ?_⟩
  cases e with
  | run i f =>
    obtain ⟨hf, hjobs⟩ := Bool.and_eq_true_iff.mp h2
    refine ⟨fun hne => absurd (of_decide_eq_true hf) hne, fun _ p _ id k _ job hjob hst => ?_⟩
    have hne := List.all_eq_true.mp hjobs job (List.mem_of_find?_eq_some hjob)
    exact absurd hst (of_decide_eq_true hne)
  | crash i => exact ⟨trivial, trivial⟩
  | arrive x => exact ⟨trivial, trivial⟩

theorem sampleEvents_terminalSafe :
    ((workers .ascii (sampleFiles sampleCsv)).perform TerminalSafe.test ⟨sampleWorld, []⟩
      sampleEvents).bind (fun d => (d.world.db.job sampleId).map ImportJob.status) =
        some .COMPLETED := by
  decide +kernel

theorem sample_terminal_status_final :
    ∃ (d : WorkerPool) (job : ImportJob),
      (workers .ascii (sampleFiles sampleCsv)).Reaches TerminalSafe ⟨sampleWorld, []⟩ d ∧
      d.world.db.job sampleId = some job ∧ job.status = .COMPLETED ∧
      job.completedAt.isSome = true := by
  obtain ⟨d, hd, hout⟩ := Option.bind_eq_some_iff.mp sampleEvents_terminalSafe
  obtain ⟨job, hjob, hst⟩ := Option.map_eq_some_iff.mp hout
  have hd' : (workers .ascii (sampleFiles sampleCsv)).Reaches TerminalSafe ⟨sampleWorld, []⟩ d :=
    System.reaches_of_perform (fun _ _ => TerminalSafe.of_test) hd
  have hw : ∀ id job, sampleWorld.db.job id = some job →
      job.status = .QUEUED ∧ job.completedAt = none := by
    intro id job hjob
    rw [List.mem_singleton.mp (List.mem_of_find?_eq_some hjob)]
    exact ⟨rfl, rfl⟩
  obtain ⟨-, hset⟩ := terminal_status_final .ascii (sampleFiles sampleCsv) hw .refl hd'
  refine ⟨d, job, hd', hjob, hst, (hset sampleId job hjob).mpr ?_⟩
  rw [hst]
  rfl

/-- A file that lacks all columns but one. -/
def badHeaderCsv : Csv := ⟨["transaction_id"], [], false⟩

/-- What the two steps do.  An import is committed as completed, the `XACK` behind it raises, and
the handler requeues the job with its `completed_at`; a job that failed for its header is delivered
again after a crash and goes back to `PROCESSING`. -/
theorem terminal_status_overwritten :
    (∃ (c d : WorkerPool) (job job' : ImportJob),
      (workers .ascii (sampleFiles sampleCsv)).Reaches OneAtATime ⟨sampleWorld, []⟩ c ∧
      (workers .ascii (sampleFiles sampleCsv)).Reaches OneAtATime c d ∧
      c.world.db.job sampleId = some job ∧ job.status = .COMPLETED ∧
      d.world.db.job sampleId = some job' ∧ job'.status = .QUEUED ∧
      job'.completedAt.isSome = true) ∧
    (∃ (c d : WorkerPool) (job job' : ImportJob),
      (workers .ascii (sampleFiles badHeaderCsv)).Reaches OneAtATime ⟨sampleWorld, []⟩ c ∧
      (workers .ascii (sampleFiles badHeaderCsv)).Reaches OneAtATime c d ∧
      c.world.db.job sampleId = some job ∧ job.status = .FAILED ∧
      d.world.db.job sampleId = some job' ∧ job'.status = .PROCESSING) := by
  have h1 : ((workers .ascii (sampleFiles sampleCsv)).perform OneAtATime.test ⟨sampleWorld, []⟩
      (.arrive (.deliver 0 1) :: runs 0 16)).bind (fun c =>
        ((workers .ascii (sampleFiles sampleCsv)).perform OneAtATime.test c
          [.run 0 .failed, .run 0 .ok]).map fun d =>
            ((c.world.db.job sampleId).map ImportJob.status,
              (d.world.db.job sampleId).map fun job => (job.status, job.completedAt.isSome))) =
      some (some .COMPLETED, some (.QUEUED, true)) := by decide +kernel
  have h2 : ((workers .ascii (sampleFiles badHeaderCsv)).perform OneAtATime.test ⟨sampleWorld, []⟩
      (.arrive (.deliver 0 1) :: (runs 0 6 ++ [.crash 0]))).bind (fun c =>
        ((workers .ascii (sampleFiles badHeaderCsv)).perform OneAtATime.test c
          (.arrive (.deliver 0 1) :: runs 1 2)).map fun d =>
            ((c.world.db.job sampleId).map ImportJob.status,
              (d.world.db.job sampleId).map ImportJob.status)) =
      some (some .FAILED, some .PROCESSING) := by decide +kernel
  constructor
  · obtain ⟨c, hc, hcd⟩ := Option.bind_eq_some_iff.mp h1
    obtain ⟨d, hd, hout⟩ := Option.map_eq_some_iff.mp hcd
    simp only [Prod.mk.injEq, Option.map_eq_some_iff] at hout
    obtain ⟨⟨job, hjob, hst⟩, job', hjob', hst', hset⟩ := hout
    exact ⟨c, d, job, job', System.reaches_of_perform (fun _ _ => OneAtATime.of_test) hc,
      System.reaches_of_perform (fun _ _ => OneAtATime.of_test) hd, hjob, hst, hjob', hst', hset⟩
  · obtain ⟨c, hc, hcd⟩ := Option.bind_eq_some_iff.mp h2
    obtain ⟨d, hd, hout⟩ := Option.map_eq_some_iff.mp hcd
    simp only [Prod.mk.injEq, Option.map_eq_some_iff] at hout
    obtain ⟨⟨job, hjob, hst⟩, job', hjob', hst'⟩ := hout
    exact ⟨c, d, job, job', System.reaches_of_perform (fun _ _ => OneAtATime.of_test) hc,
      System.reaches_of_perform (fun _ _ => OneAtATime.of_test) hd, hjob, hst, hjob', hst'⟩

end TransactionPlatform
