import TransactionPlatform.Platform.Calls
import TransactionPlatform.Platform.Platform
import TransactionPlatform.Worker.Footprint

/-!
# The platform refines its two sides

The results on uploads let workers claim and acknowledge entries and commit values into the rows of
enqueued jobs; those on workers let jobs be created and enqueued, over files that never change.  Here
both environments are discharged: every run of the platform is a run of `uploads` and a run of
`fleet`, each in the environment that the other side makes.
-/

namespace TransactionPlatform

open Interleaved ConsumerGroup KeyedTable

variable {svc : Service} {py : Python} {files files' : String → Option Csv}

/-! ### What the workers do to the API -/

section Worked

variable {C : UploadPool → UploadEvent → Prop} {w : UploadWorld} {procs : List UploadProc}
variable {b b' : Backend} {c : Fleet} {i : ℕ} {f : Fault} {p : WorkerProcess}

/-- What the API sees when the backend has changed. -/
def UploadWorld.worked (w : UploadWorld) (b : Backend) : UploadWorld :=
  { w with db := { w.db with jobs := b.db.jobs }, stream := streamOf b.stream }

theorem UploadWorld.worked_congr (hjobs : b'.db.jobs = b.db.jobs)
    (hstream : streamOf b'.stream = streamOf b.stream) : w.worked b' = w.worked b := by
  unfold worked
  rw [hjobs, hstream]

/-- Writing a row over one with the same columns of the upload. -/
theorem overwrite_of_upload {old new : ImportJob} (h : new.upload = old.upload) :
    old.overwrite new = new := by
  simp only [ImportJob.upload, Prod.mk.injEq] at h
  obtain ⟨h₁, h₂, h₃, h₄, h₅⟩ := h
  unfold ImportJob.overwrite
  rw [← h₁, ← h₂, ← h₃, ← h₄, ← h₅]

/-- A commit of a worker is one that the uploads allow. -/
theorem uploads_work (hC : ∀ d x, (∀ r, x ≠ .request r) → C d (.arrive x))
    {g : ImportJob → ImportJob} {row : ImportJob} (hprimary : (w.db.jobs.map ImportJob.id).Nodup)
    (hg : ∀ row, (g row).upload = row.upload) (hrow : row ∈ w.db.jobs)
    (henq : w.stream.Enqueued row.id) :
    (uploads svc).Reaches C ⟨w, procs⟩
      ⟨{ w with db := { w.db with jobs := updateKey ImportJob.id row.id g w.db.jobs } }, procs⟩ := by
  have hid : (g row).id = row.id := id_of_upload (hg row)
  have hcongr : updateKey ImportJob.id row.id (fun old => old.overwrite (g row)) w.db.jobs =
      updateKey ImportJob.id row.id g w.db.jobs := by
    refine updateKey_congr fun old hold heq => ?_
    rw [List.inj_on_of_nodup_map hprimary hold hrow heq, overwrite_of_upload (hg row)]
  refine System.Reaches.refl.tail (hC _ (.work (g row)) fun r h => by cases h) ?_
  have harrive : (uploads svc).arrive (.work (g row)) w =
      some ({ w with db := { w.db with
        jobs := updateKey ImportJob.id row.id g w.db.jobs } }, none) := by
    show (if w.stream.Enqueued (g row).id then some ({ w with
      db := w.db.updateJob (g row).id fun old => old.overwrite (g row) }, none) else none) = _
    rw [hid, if_pos henq, ← hcongr]
    rfl
  simp only [System.next, harrive]

/-- An acknowledgement. -/
theorem uploads_ack (hC : ∀ d x, (∀ r, x ≠ .request r) → C d (.arrive x)) (entry : ℕ) :
    (uploads svc).Reaches C ⟨w, procs⟩ ⟨{ w with stream := w.stream.xack entry }, procs⟩ :=
  System.Reaches.refl.tail (hC _ (.ack entry) fun r h => by cases h) rfl

/-- A delivery. -/
theorem uploads_claim (hC : ∀ d x, (∀ r, x ≠ .request r) → C d (.arrive x)) {entry : ℕ}
    {stream : Stream} {id : Uuid} (h : w.stream.claim entry = some (stream, id)) :
    (uploads svc).Reaches C ⟨w, procs⟩ ⟨{ w with stream := stream }, procs⟩ := by
  refine System.Reaches.refl.tail (hC _ (.claim entry) fun r h => by cases h) ?_
  have harrive : (uploads svc).arrive (.claim entry) w =
      some ({ w with stream := stream }, none) := by
    show (w.stream.claim entry).map _ = _
    rw [h]
    rfl
  simp only [System.next, harrive]

/-- The fleet with what is known about the attempts that its workers hold. -/
structure Attended (py : Python) (files : String → Option Csv) (c : Fleet) (d : WorkerPool) :
    Prop where
  mirrors : Mirrors py c d
  reaches : (workers py files).Reaches (fun _ _ => True) ⟨⟨⟨[], [], []⟩, [], [], 0⟩, []⟩ d

theorem jobKeys_empty : JobKeys ⟨[], [], []⟩ :=
  ⟨List.nodup_nil, (fun x hx => by cases hx), fun x hx => by cases hx⟩

/-- The outline of the footprints holds of the attempts. -/
theorem Attended.footprint {d : WorkerPool} (h : Attended py files c d) :
    ∃ ph, footprintOutline.Holds (workers py files) (Move py files) (fun _ r a => a = .ended r) d
      ph := by
  have hinit : footprintOutline.Inv ⟨⟨[], [], []⟩, [], [], 0⟩ := jobKeys_empty
  exact (workers_reaches (footprintOutline_sound py files) hinit h.reaches).1

/-- What a worker is processing is an attempt of the pool. -/
theorem Attended.exists_index {d : WorkerPool} (h : Attended py files c d)
    (hp : c.workers[i]? = some p) {src : Source} {t : Attempt} {q : EntryCall}
    {rest : List (ℕ × Uuid)} (hctl : p.control = .process src t q rest) :
    ∃ j : ℕ, d.procs[j]? = some ⟨t, some q⟩ ∧ t.importJobId ∈ c.backend.stream.entries := by
  have hheld : (⟨t, some q⟩ : AttemptProc) ∈ c.held py := by
    refine List.mem_flatMap.mpr ⟨p, List.mem_of_getElem? hp, ?_⟩
    unfold WorkerProcess.held
    rw [hctl]
    exact List.mem_cons_self
  obtain ⟨idle, -, hperm⟩ := h.mirrors.holds
  obtain ⟨j, hj⟩ := List.mem_iff_getElem?.mp (hperm.mem_iff.mpr (List.mem_append_left _ hheld))
  exact ⟨j, hj, List.mem_of_getElem? (h.mirrors.entry _ hheld).1⟩

/-- An operation of an attempt. -/
theorem Attended.uploads_exec (hC : ∀ d x, (∀ r, x ≠ .request r) → C d (.arrive x))
    {d : WorkerPool} (h : Attended py files c d) (hp : c.workers[i]? = some p) {src : Source}
    {t : Attempt} {o : WorkerOp} {k : o.Ans → EntryCall} {rest : List (ℕ × Uuid)}
    (hctl : p.control = .process src t (.call o k) rest) :
    (uploads svc).Reaches C ⟨w.worked c.backend, procs⟩
      ⟨w.worked (c.backend.exec files o f).1, procs⟩ := by
  obtain ⟨j, hj, hentry⟩ := h.exists_index hp hctl
  obtain ⟨ph, hold⟩ := h.footprint
  obtain ⟨a', hmove, -⟩ := hold.follows j t _ hj f d.world
  have hat : FootprintAt t d.world.db (ph j) := hold.loc j t _ hj
  have hkeys : JobKeys d.world.db := hold.inv
  have hexec : (workers py files).exec o f d.world = o.exec files f d.world := rfl
  rw [hexec, h.mirrors.world, ← (c.backend.world_exec files o f).1] at hmove
  rw [h.mirrors.world] at hat hkeys
  -- first the table of jobs, then the stream
  have hdb : (uploads svc).Reaches C ⟨w.worked c.backend, procs⟩
      ⟨{ w.worked c.backend with db := { w.db with jobs := (c.backend.exec files o f).1.db.jobs } },
        procs⟩ := by
    rcases hmove.db_cases with ⟨hdb, -⟩ | ⟨s, cont, -, hcommit, hdb, -⟩
    · have hsame : (c.backend.exec files o f).1.db = c.backend.db := hdb
      rw [hsame]
      exact .refl
    · have hproper := hcommit.proper hat
      obtain ⟨⟨g, hg, hjobs⟩, -, -⟩ := hproper.commit.1
      obtain ⟨row, hrow, -⟩ := hproper.row
      have hjobs' : (c.backend.exec files o f).1.db.jobs =
          updateKey ImportJob.id t.importJobId g c.backend.db.jobs :=
        (congrArg Db.jobs hdb).trans hjobs
      rw [hjobs', ← Db.id_of_job hrow]
      exact uploads_work hC (w := w.worked c.backend) hkeys.primary hg
        (List.mem_of_find?_eq_some hrow)
        (by rw [Db.id_of_job hrow]; exact enqueued_streamOf.mpr hentry)
  refine hdb.trans ?_
  rcases hmove.stream_cases with hstream | ⟨hstream, -, -⟩
  · have hsame : streamOf (c.backend.exec files o f).1.stream = streamOf c.backend.stream := hstream
    unfold UploadWorld.worked
    rw [hsame]
    exact .refl
  · have hack : streamOf (c.backend.exec files o f).1.stream =
        (streamOf c.backend.stream).xack t.entry := hstream
    unfold UploadWorld.worked
    rw [hack]
    exact uploads_ack hC t.entry

/-- One step of a worker. -/
theorem Attended.uploads_step (hC : ∀ d x, (∀ r, x ≠ .request r) → C d (.arrive x))
    {d : WorkerPool} (h : Attended py files c d) (hp : c.workers[i]? = some p) {ctl : Control}
    (hs : p.step py files f c.backend = some (b, ctl)) :
    (uploads svc).Reaches C ⟨w.worked c.backend, procs⟩ ⟨w.worked b, procs⟩ := by
  have hquiet : ∀ b' : Backend, b'.db = c.backend.db →
      streamOf b'.stream = streamOf c.backend.stream →
      (uploads svc).Reaches C ⟨w.worked c.backend, procs⟩ ⟨w.worked b', procs⟩ := by
    intro b' hdb hstream
    rw [UploadWorld.worked_congr (congrArg Db.jobs hdb) hstream]
    exact .refl
  obtain ⟨s, sd, pc⟩ := p
  cases pc with
  | starting =>
    have hworld := (c.backend.world_ensureGroup f).1
    simp only [WorkerProcess.step] at hs
    split at hs <;>
    · cases hs
      exact hquiet _ (congrArg World.db hworld) (congrArg World.stream hworld)
  | test =>
    cases hs
    exact .refl
  | sleep =>
    cases hs
    exact .refl
  | stopped => cases hs
  | reclaim =>
    cases hs
    rcases Backend.receive_cases c.backend (c.backend.stream.xautoclaim s.consumerName
      s.workerClaimIdleMs 50 c.backend.redisTime) f with hr | ⟨g, es, hclaim, hr⟩
    · rw [Backend.reclaimStaleJobs, hr]
      exact .refl
    · obtain ⟨-, -, hg⟩ := Group.xautoclaim_eq_some hclaim
      have hstream : streamOf g = streamOf c.backend.stream := by
        rw [hg]
        exact streamOf_claimIdle _ _ _ _ _
      rcases hr with hr | hr
      · rw [Backend.reclaimStaleJobs, hr]
        exact hquiet _ rfl hstream
      · rw [Backend.reclaimStaleJobs, hr]
        exact hquiet _ rfl hstream
  | process src t q rest =>
    cases q with
    | done r =>
      cases r with
      | ok u =>
        cases hs
        exact .refl
      | error e =>
        cases hs
        exact .refl
    | call o k =>
      cases hs
      exact h.uploads_exec hC hp rfl
  | read =>
    cases hs
    rcases Backend.receive_cases c.backend (c.backend.stream.xreadgroup s.consumerName 1
      c.backend.redisTime) f with hr | ⟨g, es, hread, hr⟩
    · rw [Backend.readNewJobs, hr]
      exact .refl
    · have hread' : (uploads svc).Reaches C ⟨w.worked c.backend, procs⟩
          ⟨w.worked { c.backend with stream := g }, procs⟩ := by
        rcases streamOf_xreadgroup hread with ⟨-, hsame⟩ | ⟨id, -, -, hclaim⟩
        · exact hquiet _ rfl hsame
        · exact uploads_claim hC hclaim
      rcases hr with hr | hr
      · rw [Backend.readNewJobs, hr]
        exact hread'
      · rw [Backend.readNewJobs, hr]
        exact hread'

end Worked

/-! ### The files that the workers read -/

section Files

variable {c : Fleet} {d : WorkerPool} {f : Fault} {b : Backend} {p : WorkerProcess}

theorem Backend.exec_openCsv_congr {path : String} (h : files' path = files path) :
    b.exec files' (.openCsv path) f = b.exec files (.openCsv path) f := by
  have hop : (WorkerOp.openCsv path).exec files' f b.world =
      (WorkerOp.openCsv path).exec files f b.world := by
    unfold WorkerOp.exec
    dsimp only
    rw [h]
  unfold Backend.exec
  dsimp only
  rw [hop]

/-- A step depends on the file that is opened in it, if any. -/
theorem WorkerProcess.step_congr (h : ∀ src t path k rest,
    p.control = .process src t (.call (.openCsv path) k) rest → files' path = files path) :
    p.step py files' f b = p.step py files f b := by
  obtain ⟨s, sd, pc⟩ := p
  cases pc with
  | process src t q rest =>
    cases q with
    | done r => cases r <;> rfl
    | call o k =>
      cases o with
      | openCsv path =>
        have hexec := Backend.exec_openCsv_congr (b := b) (f := f) (h src t path k rest rfl)
        show some ((b.exec files' (.openCsv path) f).1, Control.process src t
          (k (b.exec files' (.openCsv path) f).2) rest) = _
        rw [hexec]
        rfl
      | _ => rfl
  | _ => rfl

/-- The workers open no file but those of the rows. -/
theorem Attended.next_congr (h : Attended py files c d)
    (hfiles : ∀ row ∈ c.backend.db.jobs, files' row.storagePath = files row.storagePath)
    (e : FleetEvent) : c.next py files' e = c.next py files e := by
  cases e with
  | step i f =>
    unfold Fleet.next
    dsimp only
    cases hp : c.workers[i]? with
    | none => rfl
    | some p =>
      have hstep : p.step py files' f c.backend = p.step py files f c.backend := by
        refine WorkerProcess.step_congr fun src t path k rest hctl => ?_
        obtain ⟨j, hj, -⟩ := h.exists_index hp hctl
        obtain ⟨row, hrow, rfl⟩ := opens_own_file jobKeys_empty h.reaches hj
        rw [h.mirrors.world] at hrow
        exact hfiles row (List.mem_of_find?_eq_some hrow)
      simp only [Option.bind_some, hstep]
  | _ => rfl

end Files

/-! ### What the API does to the workers -/

section Api

variable {c : Platform} {e : Interleaved.Event Fault Request}
variable {d : Pool PlatformState Request UploadOp UploadOp.Ans (Except UploadExn (ImportJob × Bool))}

/-- An event of the API as one of the uploads. -/
def uploadEvent : Interleaved.Event Fault Request → UploadEvent
  | .run i f => .run i f
  | .crash i => .crash i
  | .arrive r => .arrive (.request r)

/-- The API sees its own events. -/
theorem uploads_api (hn : (api svc).next c.calls e = some d) :
    (uploads svc).next c.uploadView (uploadEvent e) = some ⟨d.world.uploadWorld, d.procs⟩ := by
  rcases System.next_cases hn with ⟨i, f, r, o, k, rfl, hi, rfl⟩ | ⟨i, r, o, k, rfl, hi, rfl⟩ |
    ⟨x, s, rfl, hx, rfl⟩ | ⟨x, s, r, p, rfl, hx, rfl⟩
  · obtain ⟨hworld, hans⟩ := c.calls.world.uploadWorld_exec o f
    have hi' : c.uploadView.procs[i]? = some ⟨r, some (.call o k)⟩ := hi
    simp only [uploadEvent, System.next, hi']
    have hworld' : (c.calls.world.exec o f).1.uploadWorld = (o.exec f c.uploadView.world).1 := hworld
    have hans' : (c.calls.world.exec o f).2 = (o.exec f c.uploadView.world).2 := hans
    show some _ = some (Pool.mk (c.calls.world.exec o f).1.uploadWorld
      (c.calls.procs.set i ⟨r, some (k (c.calls.world.exec o f).2)⟩))
    rw [hworld', hans']
    rfl
  · have hi' : c.uploadView.procs[i]? = some ⟨r, some (.call o k)⟩ := hi
    simp only [uploadEvent, System.next, hi']
    rfl
  · -- every request starts a call
    exfalso
    simp only [api] at hx
    cases hu : c.calls.world.uploadWorld.unused svc x.jobId with
    | false => simp [hu] at hx
    | true => simp [hu] at hx
  · simp only [api] at hx
    cases hu : c.calls.world.uploadWorld.unused svc x.jobId with
    | false => simp [hu] at hx
    | true =>
      simp only [hu, cond_true, Option.some.injEq, Prod.mk.injEq] at hx
      obtain ⟨rfl, rfl, rfl⟩ := hx
      have harrive : (uploads svc).arrive (.request x) c.uploadView.world =
          some ({ c.uploadView.world with requests := c.uploadView.world.requests ++ [x] },
            some (x, x.program svc)) := by
        show (bif c.calls.world.uploadWorld.unused svc x.jobId then _ else none) = _
        rw [hu]
        rfl
      simp only [uploadEvent, System.next, harrive]
      rfl

/-- A row that a call commits is one that the workers allow to be created. -/
theorem unused_of_accepts {s : PlatformState} {job : ImportJob} (hkeys : JobKeys s.backend.db)
    (hacc : s.uploadWorld.accepts job = true) : s.backend.world.unused job.id = true := by
  have hnew : ∀ row ∈ s.backend.db.jobs, row.id ≠ job.id := by
    intro row hrow hid
    have hconflict := (UploadWorld.accepts_iff.mp hacc).2
    exact absurd (decide_eq_true (Or.inl hid)) (List.any_eq_false.mp hconflict row hrow)
  have hnone : ∀ row, s.backend.db.job job.id ≠ some row := fun row hrow =>
    hnew row (List.mem_of_find?_eq_some hrow) (Db.id_of_job hrow)
  refine World.unused_iff.mpr ⟨hnew, fun x hx hid => ?_, fun x hx hid => ?_⟩
  · obtain ⟨row, hrow⟩ := hkeys.transactions x hx job.id hid
    exact hnone row hrow
  · obtain ⟨row, hrow⟩ := hkeys.errors x hx
    rw [hid] at hrow
    exact hnone row hrow

/-- An event of the API does nothing to the workers, or creates a job or the group, or enqueues a
job. -/
theorem fleet_api {D : Fleet → FleetEvent → Prop} (hD : ∀ c e, e.ofWorkers = false → D c e)
    (hc : (uploads svc).Reaches (fun _ _ => True) ⟨emptyUploads, []⟩ c.uploadView)
    (hkeys : JobKeys c.calls.world.backend.db) (hn : (api svc).next c.calls e = some d) :
    (fleet py files).Reaches D c.fleetView ⟨d.world.backend, c.workers⟩ := by
  rcases System.next_cases hn with ⟨i, f, r, o, k, rfl, hi, rfl⟩ | ⟨i, r, o, k, rfl, hi, rfl⟩ |
    ⟨x, s, rfl, hx, rfl⟩ | ⟨x, s, r, p, rfl, hx, rfl⟩
  · show (fleet py files).Reaches D c.fleetView
      ⟨(c.calls.world.exec o f).1.backend, c.workers⟩
    rcases c.calls.world.backend_exec o f with hb | ⟨job, rfl, hacc, hb⟩ | ⟨rfl, hb⟩ | ⟨id, rfl, hb⟩
    · rw [hb]
      exact .refl
    · rw [hb]
      obtain rfl := commit_of_call hc hi
      have hunused := unused_of_accepts hkeys hacc
      refine Machine.Reaches.single (e := .create r.jobId r.clientId (r.filename.getD "")
        (svc.storagePath r.jobId) (svc.idempotencyKey r)) (hD _ _ rfl) ?_
      show (bif c.calls.world.backend.world.unused r.jobId then _ else none) = _
      have hunused' : c.calls.world.backend.world.unused r.jobId = true := hunused
      rw [hunused']
      rfl
    · rw [hb]
      exact Machine.Reaches.single (e := .createGroup) (hD _ _ rfl) rfl
    · rw [hb]
      obtain ⟨⟨row, hrow, hid⟩, hnew⟩ := enqueue_once hc hi
      refine Machine.Reaches.single (e := .enqueue id) (hD _ _ rfl) ?_
      have hjob : (c.calls.world.backend.db.job id).isSome :=
        List.find?_isSome.mpr ⟨row, hrow, decide_eq_true hid⟩
      have hnot : id ∉ c.calls.world.backend.stream.entries :=
        fun hmem => hnew (enqueued_streamOf.mpr hmem)
      show (if (c.calls.world.backend.db.job id).isSome ∧
        id ∉ c.calls.world.backend.stream.entries then _ else none) = _
      rw [if_pos ⟨hjob, hnot⟩]
      rfl
  · exact .refl
  · simp only [api] at hx
    cases hu : c.calls.world.uploadWorld.unused svc x.jobId <;> simp [hu] at hx
  · simp only [api] at hx
    cases hu : c.calls.world.uploadWorld.unused svc x.jobId with
    | false => simp [hu] at hx
    | true =>
      simp only [hu, cond_true, Option.some.injEq, Prod.mk.injEq] at hx
      obtain ⟨rfl, -⟩ := hx
      exact .refl

end Api

/-! ### The refinement -/

/-- The condition `K` on the events of the platform gives the condition `C` on those of the uploads
and the condition `D` on those of the fleet. -/
structure Couples (K : Platform → PlatformEvent → Prop) (C : UploadPool → UploadEvent → Prop)
    (D : Fleet → FleetEvent → Prop) : Prop where
  onApi : ∀ c e, K c (.api e) → C c.uploadView (uploadEvent e)
  arrive : ∀ d x, (∀ r, x ≠ .request r) → C d (.arrive x)
  onFleet : ∀ c e, K c (.fleet e) → D c.fleetView e
  create : ∀ c e, e.ofWorkers = false → D c e

/-- Postgres and Redis before anything has happened. -/
def Backend.empty : Backend := ⟨⟨[], [], []⟩, Group.empty, [], 0, 0⟩

section Views

variable {K : Platform → PlatformEvent → Prop} {C : UploadPool → UploadEvent → Prop}
variable {D : Fleet → FleetEvent → Prop} {c c' : Platform}

/-- The files of the rows are those of the upload directory. -/
def Platform.Shows (py : Python) (c : Platform) (files : String → Option Csv) : Prop :=
  ∀ row ∈ c.calls.world.backend.db.jobs,
    files row.storagePath = c.calls.world.csvFiles py row.storagePath

/-- What the workers have read, they read again later. -/
theorem Platform.Shows.of_later (hc : (uploads svc).Reaches C ⟨emptyUploads, []⟩ c.uploadView)
    (hc' : (uploads svc).Reaches C c.uploadView c'.uploadView) (h : c'.Shows py files) :
    c.Shows py files := by
  intro row hrow
  obtain ⟨row', hrow', hup, hfile⟩ := files_stay hc hc' hrow
  have hsame : c'.calls.world.files row'.storagePath = c.calls.world.files row.storagePath := hfile
  rw [← storagePath_of_upload hup, h row' hrow', PlatformState.csvFiles,
    PlatformState.csvFiles, hsame, storagePath_of_upload hup]

/-- What is known of the workers of a platform. -/
theorem exists_attended (hc : (fleet py files).Reaches D ⟨.empty, []⟩ c.fleetView) :
    ∃ d, Attended py files c.fleetView d := by
  obtain ⟨d, hd, hmirror⟩ := (carries_true py).reaches (.start List.nodup_nil)
    (hc.mono fun _ _ _ => trivial)
  exact ⟨d, hmirror, hd⟩

/-- Every event of the platform is matched on both sides. -/
theorem Couples.next (hcouple : Couples K C D) {e : PlatformEvent} (hK : K c e)
    (hn : (platform svc py).next c e = some c')
    (hup : (uploads svc).Reaches C ⟨emptyUploads, []⟩ c.uploadView)
    (hfleet : ∀ files, c.Shows py files → (fleet py files).Reaches D ⟨.empty, []⟩ c.fleetView) :
    (uploads svc).Reaches C c.uploadView c'.uploadView ∧
      ∀ files, c.Shows py files → (fleet py files).Reaches D c.fleetView c'.fleetView := by
  obtain ⟨d, hd⟩ := exists_attended (hfleet (c.calls.world.csvFiles py) fun _ _ => rfl)
  cases e with
  | api e =>
    obtain ⟨p, hp, rfl⟩ := Option.map_eq_some_iff.mp hn
    refine ⟨System.Reaches.refl.tail (hcouple.onApi c e hK) (uploads_api hp), fun files _ => ?_⟩
    have hkeys : JobKeys d.world.db := by
      obtain ⟨ph, hold⟩ := hd.footprint
      exact hold.inv
    rw [hd.mirrors.world] at hkeys
    exact fleet_api hcouple.create (hup.mono fun _ _ _ => trivial) hkeys hp
  | fleet e =>
    simp only [platform, Platform.next] at hn
    cases hof : e.ofWorkers with
    | false =>
      rw [hof] at hn
      cases hn
    | true =>
      rw [hof, cond_true] at hn
      obtain ⟨c'', hstep, rfl⟩ := Option.map_eq_some_iff.mp hn
      refine ⟨?_, fun files hshows => ?_⟩
      · -- the uploads see a step of a worker only
        rcases Fleet.next_cases hstep with ⟨i, f, p, b, ctl, rfl, hp, hs, rfl⟩ |
          ⟨i, p, rfl, hp, rfl⟩ | ⟨i, p, rfl, hp, rfl⟩ | ⟨s, rfl, rfl⟩ | ⟨_, _, _, _, _, rfl, -, -⟩ |
          ⟨rfl, -⟩ | ⟨_, rfl, -, -, -⟩ | ⟨ms, rfl, rfl⟩
        · exact hd.uploads_step hcouple.arrive (w := c.calls.world.uploadWorld) hp hs
        · exact .refl
        · exact .refl
        · exact .refl
        · cases hof
        · cases hof
        · cases hof
        · exact .refl
      · refine Machine.Reaches.single (hcouple.onFleet c e hK) ?_
        show Fleet.next py files c.fleetView e = some c''
        rw [hd.next_congr hshows e]
        exact hstep

/-- Every run of the platform is a run of the uploads and a run of the fleet. -/
theorem Couples.views_between (hcouple : Couples K C D)
    (hup : (uploads svc).Reaches C ⟨emptyUploads, []⟩ c.uploadView)
    (hfleet : ∀ files, c.Shows py files → (fleet py files).Reaches D ⟨.empty, []⟩ c.fleetView)
    (hc : (platform svc py).Reaches K c c') :
    (uploads svc).Reaches C c.uploadView c'.uploadView ∧
      ∀ files, c'.Shows py files →
        c.Shows py files ∧ (fleet py files).Reaches D c.fleetView c'.fleetView := by
  induction hc with
  | refl => exact ⟨.refl, fun files hshows => ⟨hshows, .refl⟩⟩
  | tail _ hK hn ih =>
    obtain ⟨hup', hfleet'⟩ := ih
    have hnow : ∀ files, Platform.Shows py _ files → (fleet py files).Reaches D ⟨.empty, []⟩ _ :=
      fun files hshows => (hfleet files (hfleet' files hshows).1).trans (hfleet' files hshows).2
    obtain ⟨hup'', hfleet''⟩ := hcouple.next hK hn (hup.trans hup') hnow
    refine ⟨hup'.trans hup'', fun files hshows => ?_⟩
    have hshows' := Platform.Shows.of_later (hup.trans hup') hup'' hshows
    obtain ⟨hbefore, hreach⟩ := hfleet' files hshows'
    exact ⟨hbefore, hreach.trans (hfleet'' files hshows')⟩

/-- The same from the beginning. -/
theorem Couples.views (hcouple : Couples K C D) (hc : (platform svc py).Reaches K .empty c) :
    (uploads svc).Reaches C ⟨emptyUploads, []⟩ c.uploadView ∧
      ∀ files, c.Shows py files → (fleet py files).Reaches D ⟨.empty, []⟩ c.fleetView := by
  obtain ⟨hup, hfleet⟩ := hcouple.views_between .refl (fun _ _ => .refl) hc
  exact ⟨hup, fun files hshows => (hfleet files hshows).2⟩

/-- Without conditions. -/
theorem couples_true : Couples (fun _ _ => True) (fun _ _ => True) fun _ _ => True :=
  ⟨fun _ _ _ => trivial, fun _ _ _ => trivial, fun _ _ _ => trivial, fun _ _ _ => trivial⟩

/-- In every run of the platform, whatever calls and workers do at the same time and whatever fails:
what the API sees is a state that the calls reach in an environment that only claims and acknowledges
entries and commits values into the rows of enqueued jobs; what the workers see is a state that a
fleet reaches in an environment that only creates and enqueues jobs, over the files as they are now,
although these were written in the course of the run. -/
theorem platform_refines (svc : Service) (py : Python)
    (hc : (platform svc py).Reaches (fun _ _ => True) .empty c) :
    (uploads svc).Reaches (fun _ _ => True) ⟨emptyUploads, []⟩ c.uploadView ∧
      (fleet py (c.calls.world.csvFiles py)).Reaches (fun _ _ => True) ⟨.empty, []⟩
        c.fleetView := by
  obtain ⟨hup, hfleet⟩ := couples_true.views hc
  exact ⟨hup, hfleet _ fun _ _ => rfl⟩

/-- A client uploads the table. -/
def sampleUpload : List PlatformEvent :=
  .api (.arrive tableRequest) :: List.replicate 10 (.api (.run 0 .ok))

/-- A worker starts and imports it. -/
def sampleImport : List PlatformEvent := .fleet (.start sampleSettings) :: (steps 0 22).map .fleet

/-- Both sides see that the import is completed. -/
theorem sample_platform_refines :
    ∃ c : Platform,
      (uploads sampleService).Reaches (fun _ _ => True) ⟨emptyUploads, []⟩ c.uploadView ∧
      (fleet .ascii (c.calls.world.csvFiles .ascii)).Reaches (fun _ _ => True) ⟨.empty, []⟩
        c.fleetView ∧
      (c.uploadView.world.db.job firstJob).map ImportJob.status = some .COMPLETED ∧
      c.fleetView.backend.db.transactions.map Transaction.transactionId = ["T1"] := by
  have hrun : ((platform sampleService .ascii).perform (fun _ _ => true) .empty
      (sampleUpload ++ sampleImport)).map (fun c =>
        ((c.uploadView.world.db.job firstJob).map ImportJob.status,
          c.fleetView.backend.db.transactions.map Transaction.transactionId)) =
      some (some .COMPLETED, ["T1"]) := by
    decide +kernel
  obtain ⟨c, hc, hout⟩ := Option.map_eq_some_iff.mp hrun
  obtain ⟨hst, hids⟩ := Prod.mk.inj hout
  have hreach : (platform sampleService .ascii).Reaches (fun _ _ => True) .empty c :=
    Machine.reaches_of_perform (fun _ _ _ => trivial) hc
  obtain ⟨hup, hfleet⟩ := platform_refines sampleService .ascii hreach
  exact ⟨c, hup, hfleet, hst, hids⟩

end Views

end TransactionPlatform
