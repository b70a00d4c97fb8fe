import TransactionPlatform.Worker.CsvFile
import TransactionPlatform.Worker.Fleet
import TransactionPlatform.Upload.Stages

/-!
# The whole platform

The API and the worker processes on the Postgres, the Redis and the upload directory they share.
Calls of `create_import` and steps of `worker_loop` are interleaved in any way; nothing is assumed
about what the other side does.  `uploads` and `fleet` are the two sides alone, each with an
environment that stands for the other; `Platform.Views` shows that these environments are right.
-/

namespace TransactionPlatform

open Interleaved ConsumerGroup

/-- What the processes share.  `requests` is the history of the calls of `create_import`; the code
does not read it. -/
structure PlatformState where
  backend : Backend
  files : String → Option (List UInt8)
  requests : List Request

namespace PlatformState

/-- What the API sees. -/
def uploadWorld (s : PlatformState) : UploadWorld :=
  ⟨⟨s.backend.db.jobs, [], []⟩, streamOf s.backend.stream, s.files, s.requests⟩

/-- What `csv.DictReader` reads from the files. -/
def csvFiles (py : Python) (s : PlatformState) (path : String) : Option Csv :=
  (s.files path).bind (parseCsv py)

/-- What the operations of `create_import` do.  Those on Redis meet the consumer group, the others
the table of jobs and the upload directory. -/
def exec (s : PlatformState) : (o : UploadOp) → Fault → PlatformState × o.Ans
  | .ensureGroup, f =>
    ({ s with backend := (s.backend.ensureGroup f).1 },
      match (s.backend.ensureGroup f).2 with
      | .ok _ => .ok ()
      | .error _ => .error .RedisError)
  | .xadd id, f =>
    match f with
    | .ok => ({ s with backend := { s.backend with stream := s.backend.stream.xadd id } }, .ok ())
    | .lost =>
      ({ s with backend := { s.backend with stream := s.backend.stream.xadd id } },
        .error .RedisError)
    | _ => (s, .error .RedisError)
  | o, f =>
    ({ s with
        backend := { s.backend with db := { s.backend.db with
          jobs := (o.exec f s.uploadWorld).1.db.jobs } }
        files := (o.exec f s.uploadWorld).1.files }, (o.exec f s.uploadWorld).2)

end PlatformState

/-- The API: any number of calls of `create_import` at the same time. -/
def api (svc : Service) :
    System PlatformState Request UploadOp UploadOp.Ans Fault Request
      (Except UploadExn (ImportJob × Bool)) where
  exec o f s := s.exec o f
  arrive r s :=
    bif s.uploadWorld.unused svc r.jobId then
      some ({ s with requests := s.requests ++ [r] }, some (r, r.program svc))
    else none

/-- The calls of `create_import`, and the worker processes. -/
structure Platform where
  calls : Pool PlatformState Request UploadOp UploadOp.Ans (Except UploadExn (ImportJob × Bool))
  workers : List WorkerProcess

/-- An event of the workers, and not one by which a fleet alone stands for the API. -/
def FleetEvent.ofWorkers : FleetEvent → Bool
  | .create .. => false
  | .createGroup => false
  | .enqueue _ => false
  | _ => true

/-- What happens to the platform: a request, an operation or a crash of a call, or an event of the
workers. -/
inductive PlatformEvent where
  | api (e : Interleaved.Event Fault Request)
  | fleet (e : FleetEvent)

namespace Platform

/-- The worker processes and what they share. -/
def fleetView (c : Platform) : Fleet := ⟨c.calls.world.backend, c.workers⟩

/-- The calls on what the API sees. -/
def uploadView (c : Platform) : UploadPool := ⟨c.calls.world.uploadWorld, c.calls.procs⟩

/-- The fleet has taken a step. -/
def withFleet (c : Platform) (d : Fleet) : Platform :=
  ⟨⟨{ c.calls.world with backend := d.backend }, c.calls.procs⟩, d.workers⟩

/-- The effect of an event. -/
def next (svc : Service) (py : Python) (c : Platform) : PlatformEvent → Option Platform
  | .api e => ((api svc).next c.calls e).map fun d => ⟨d, c.workers⟩
  | .fleet e =>
    bif e.ofWorkers then (c.fleetView.next py (c.calls.world.csvFiles py) e).map c.withFleet else none

/-- Nothing has been uploaded, and no worker has started. -/
def empty : Platform :=
  ⟨⟨⟨⟨⟨[], [], []⟩, Group.empty, [], 0, 0⟩, fun _ => none, []⟩, []⟩, []⟩

end Platform

/-- The platform as a machine. -/
def platform (svc : Service) (py : Python) : Machine Platform PlatformEvent :=
  ⟨Platform.next svc py⟩

/-! ### What the API sees of its operations -/

variable {svc : Service} {py : Python} {c c' : Platform}

/-- The consumer group and its times do not matter to the API. -/
theorem PlatformState.uploadWorld_exec (s : PlatformState) (o : UploadOp) (f : Fault) :
    (s.exec o f).1.uploadWorld = (o.exec f s.uploadWorld).1 ∧
      (s.exec o f).2 = (o.exec f s.uploadWorld).2 := by
  cases o with
  | ensureGroup => cases f <;> exact ⟨rfl, rfl⟩
  | xadd id =>
    have hstream := streamOf_xadd s.backend.stream id
    cases f with
    | ok => exact ⟨congrArg (UploadWorld.mk _ · s.files s.requests) hstream, rfl⟩
    | lost => exact ⟨congrArg (UploadWorld.mk _ · s.files s.requests) hstream, rfl⟩
    | rejected => exact ⟨rfl, rfl⟩
    | failed => exact ⟨rfl, rfl⟩
  | commitJob job =>
    refine ⟨?_, rfl⟩
    change UploadWorld.mk ⟨((UploadOp.commitJob job).exec f s.uploadWorld).1.db.jobs, [], []⟩
      (streamOf s.backend.stream) ((UploadOp.commitJob job).exec f s.uploadWorld).1.files
      s.requests = _
    rcases UploadOp.exec_cases (.commitJob job) f s.uploadWorld with h | ⟨path, content, h, -⟩ |
      ⟨job', -, -, -, h⟩ | ⟨id, hop, -, -⟩
    · rw [h]
      rfl
    · rw [h]
      rfl
    · rw [h]
      rfl
    · cases hop
  | _ => cases f <;> exact ⟨rfl, rfl⟩

/-- Most operations leave Postgres and Redis as they are; the others insert a row, create the group
or add an entry. -/
theorem PlatformState.backend_exec (s : PlatformState) (o : UploadOp) (f : Fault) :
    (s.exec o f).1.backend = s.backend ∨
    (∃ job, o = .commitJob job ∧ s.uploadWorld.accepts job = true ∧
      (s.exec o f).1.backend = { s.backend with db := { s.backend.db with
        jobs := s.backend.db.jobs ++ [job] } }) ∨
    (o = .ensureGroup ∧
      (s.exec o f).1.backend = { s.backend with stream := s.backend.stream.create }) ∨
    ∃ id, o = .xadd id ∧
      (s.exec o f).1.backend = { s.backend with stream := s.backend.stream.xadd id } := by
  cases o with
  | ensureGroup =>
    cases f with
    | ok => exact .inr (.inr (.inl ⟨rfl, rfl⟩))
    | lost => exact .inr (.inr (.inl ⟨rfl, rfl⟩))
    | rejected => exact .inl rfl
    | failed => exact .inl rfl
  | xadd id =>
    cases f with
    | ok => exact .inr (.inr (.inr ⟨id, rfl, rfl⟩))
    | lost => exact .inr (.inr (.inr ⟨id, rfl, rfl⟩))
    | rejected => exact .inl rfl
    | failed => exact .inl rfl
  | commitJob job =>
    have hbackend : (s.exec (.commitJob job) f).1.backend =
        { s.backend with db := { s.backend.db with
          jobs := ((UploadOp.commitJob job).exec f s.uploadWorld).1.db.jobs } } := rfl
    rcases UploadOp.exec_cases (.commitJob job) f s.uploadWorld with h | ⟨path, content, h, -⟩ |
      ⟨job', hop, hacc, -, h⟩ | ⟨id, hop, -, -⟩
    · rw [hbackend, h]
      exact .inl rfl
    · rw [hbackend, h]
      exact .inl rfl
    · cases hop
      rw [hbackend, h]
      exact .inr (.inl ⟨job, rfl, hacc, rfl⟩)
    · cases hop
  | _ => cases f <;> exact .inl rfl

end TransactionPlatform
