import TransactionPlatform.Foundation.ConsumerGroup
import TransactionPlatform.Foundation.Machine
import TransactionPlatform.Worker.ImportWorker

/-!
# The worker processes

`worker_loop` of `app/workers/import_worker.py` and the functions of `app/redis_utils/queue.py` it
calls, over a Redis stream with its consumer group, the pending list and the idle times.  A worker is
a process that stands at some point of the loop; a fleet is any number of workers on one Postgres and
one Redis.  Workers start, are signalled and are killed at any moment, time passes, and the API
creates and enqueues jobs.

`process_entry` is the program of `Worker/ImportWorker`; its operations are those of
`WorkerOp.exec`, with `XACK` performed on the consumer group.
-/

namespace TransactionPlatform

open Interleaved ConsumerGroup

/-- A call of `process_entry` in progress. -/
abbrev EntryCall := Program WorkerOp WorkerOp.Ans (Except Exn Unit)

/-- What the processes share: Postgres, the import stream with its consumer group, the summary cache,
the clock of `datetime.now` and the clock of Redis in milliseconds. -/
structure Backend where
  db : Db
  stream : Group Uuid String
  cache : List (String × String)
  clock : ℕ
  redisTime : ℕ

/-! ### The import stream as the jobs see it -/

/-- What the consumer group knows about an entry. -/
def deliveryOf {γ : Type} (g : Group Uuid γ) (e : ℕ) : Delivery :=
  if e < g.delivered then (if g.IsPending e then .pending else .acked) else .fresh

/-- The stream without consumers and times. -/
def streamOf {γ : Type} (g : Group Uuid γ) : Stream :=
  g.entries.mapIdx fun e id => ⟨id, deliveryOf g e⟩

/-- The state of the system without the bookkeeping of the consumer group. -/
def Backend.world (b : Backend) : World := ⟨b.db, streamOf b.stream, b.cache, b.clock⟩

/-- What the operations of `process_entry` do. -/
def Backend.exec (files : String → Option Csv) (b : Backend) : (o : WorkerOp) → Fault → Backend × o.Ans
  | .xack entry, f =>
    match f with
    | .ok => ({ b with stream := b.stream.xack entry }, .ok ())
    | .lost => ({ b with stream := b.stream.xack entry }, .error .RedisError)
    | _ => (b, .error .RedisError)
  | o, f =>
    ({ b with
        db := (o.exec files f b.world).1.db
        cache := (o.exec files f b.world).1.cache
        clock := (o.exec files f b.world).1.clock }, (o.exec files f b.world).2)

/-! ### `app/redis_utils/queue.py` -/

/-- `settings.import_stream_name`. -/
def importStreamName : String := "import_jobs_stream"

/-- `_flatten`. -/
def flatten {α : Type} (resp : List (String × List α)) : List α := resp.flatMap Prod.snd

/-- `ensure_group`: an error that is not `BUSYGROUP` is raised. -/
def Backend.ensureGroup (b : Backend) : Fault → Backend × Except Exn Unit
  | .ok => ({ b with stream := b.stream.create }, .ok ())
  | .lost => ({ b with stream := b.stream.create }, .error .RedisError)
  | _ => (b, .error .RedisError)

/-- An answer of Redis with the group afterwards and the positions handed out; if it is lost, the
entries have been handed out all the same. -/
def Backend.receive (b : Backend) (answer : Option (Group Uuid String × List ℕ)) :
    Fault → Backend × Except Exn (List (ℕ × Uuid))
  | .ok =>
    match answer with
    | some (g, es) =>
      ({ b with stream := g },
        .ok (if es = [] then [] else flatten [(importStreamName, g.fetch es)]))
    | none => (b, .error .RedisError)
  | .lost =>
    match answer with
    | some (g, _) => ({ b with stream := g }, .error .RedisError)
    | none => (b, .error .RedisError)
  | _ => (b, .error .RedisError)

/-- `read_new_jobs`, at the moment it is answered: with a new entry, or with nothing at the end of
`block_ms`. -/
def Backend.readNewJobs (b : Backend) (consumerName : String) (count : ℕ) (f : Fault) :
    Backend × Except Exn (List (ℕ × Uuid)) :=
  b.receive (b.stream.xreadgroup consumerName count b.redisTime) f

/-- `reclaim_stale_jobs`. -/
def Backend.reclaimStaleJobs (b : Backend) (consumerName : String) (idleMs count : ℕ) (f : Fault) :
    Backend × Except Exn (List (ℕ × Uuid)) :=
  b.receive (b.stream.xautoclaim consumerName idleMs count b.redisTime) f

/-! ### `worker_loop` -/

/-- `CONSUMER_NAME` and the settings a worker reads. -/
structure WorkerSettings where
  consumerName : String
  workerBatchSize : ℕ
  workerClaimIdleMs : ℕ
  deriving DecidableEq

/-- Which of the two `for` loops of an iteration. -/
inductive Source where
  | reclaimed
  | new
  deriving DecidableEq

/-- Where a worker stands in `worker_loop`. -/
inductive Control where
  /-- `await ensure_group()`. -/
  | starting
  /-- `while not _shutdown`. -/
  | test
  /-- `await reclaim_stale_jobs(...)`. -/
  | reclaim
  /-- `await process_entry(...)` in one of the two loops, with the entries that are left to it. -/
  | process (src : Source) (t : Attempt) (p : EntryCall) (rest : List (ℕ × Uuid))
  /-- `await read_new_jobs(...)`. -/
  | read
  /-- `await asyncio.sleep(2)` in the `except` block. -/
  | sleep
  /-- The loop has ended, or the process has died. -/
  | stopped

/-- A worker process; `shutdown` is the flag `_shutdown`. -/
structure WorkerProcess where
  settings : WorkerSettings
  shutdown : Bool
  control : Control

section Loop

variable (py : Python) (files : String → Option Csv)

/-- The call of `process_entry` for an entry that was handed to the worker. -/
def WorkerSettings.attempt (s : WorkerSettings) (x : ℕ × Uuid) : Attempt :=
  ⟨x.2, x.1, s.workerBatchSize⟩

/-- The head of a `for` loop: the next entry, or what follows the loop. -/
def WorkerSettings.loop (s : WorkerSettings) (src : Source) : List (ℕ × Uuid) → Control
  | [] =>
    match src with
    | .reclaimed => .read
    | .new => .test
  | x :: rest => .process src (s.attempt x) (processEntry py s.workerBatchSize x.1 x.2) rest

/-- The `for` loop over what Redis has answered; an exception goes to the `except` block. -/
def WorkerSettings.handle (s : WorkerSettings) (src : Source) :
    Except Exn (List (ℕ × Uuid)) → Control
  | .ok xs => s.loop py src xs
  | .error _ => .sleep

/-- The next step of a worker. -/
def WorkerProcess.step (p : WorkerProcess) (f : Fault) (b : Backend) : Option (Backend × Control) :=
  match p.control with
  | .starting =>
    match (b.ensureGroup f).2 with
    | .ok _ => some ((b.ensureGroup f).1, .test)
    | .error _ => some ((b.ensureGroup f).1, .stopped)
  | .test => some (b, bif p.shutdown then .stopped else .reclaim)
  | .reclaim =>
    let r := b.reclaimStaleJobs p.settings.consumerName p.settings.workerClaimIdleMs 50 f
    some (r.1, p.settings.handle py .reclaimed r.2)
  | .process src t (.call o k) rest =>
    some ((b.exec files o f).1, .process src t (k (b.exec files o f).2) rest)
  | .process src _ (.done (.ok _)) rest => some (b, p.settings.loop py src rest)
  | .process _ _ (.done (.error _)) _ => some (b, .sleep)
  | .read =>
    let r := b.readNewJobs p.settings.consumerName 1 f
    some (r.1, p.settings.handle py .new r.2)
  | .sleep => some (b, .test)
  | .stopped => none

end Loop

/-! ### Fleets -/

/-- Any number of worker processes on one backend. -/
structure Fleet where
  backend : Backend
  workers : List WorkerProcess

/-- What happens to a fleet. -/
inductive FleetEvent where
  /-- The next step of the `i`-th worker, under a fault. -/
  | step (i : ℕ) (f : Fault)
  /-- `SIGTERM` or `SIGINT`: `_handle_shutdown` sets the flag. -/
  | signal (i : ℕ)
  /-- The process dies. -/
  | kill (i : ℕ)
  | start (s : WorkerSettings)
  /-- `create_import` commits a new job. -/
  | create (id clientId : Uuid) (originalFilename storagePath idempotencyKey : String)
  /-- `create_import` calls `ensure_group` before it enqueues the job. -/
  | createGroup
  /-- `create_import` enqueues a job it has committed. -/
  | enqueue (id : Uuid)
  /-- Time passes. -/
  | tick (ms : ℕ)

/-- The effect of an event on a fleet. -/
def Fleet.next (py : Python) (files : String → Option Csv) (c : Fleet) : FleetEvent → Option Fleet
  | .step i f =>
    c.workers[i]?.bind fun p => (p.step py files f c.backend).map fun r =>
      ⟨r.1, c.workers.set i { p with control := r.2 }⟩
  | .signal i => c.workers[i]?.map fun p => ⟨c.backend, c.workers.set i { p with shutdown := true }⟩
  | .kill i => c.workers[i]?.map fun p => ⟨c.backend, c.workers.set i { p with control := .stopped }⟩
  | .start s => some ⟨c.backend, c.workers ++ [⟨s, false, .starting⟩]⟩
  | .create id clientId originalFilename storagePath idempotencyKey =>
    bif c.backend.world.unused id then
      some { c with backend := { c.backend with db := { c.backend.db with
        jobs := c.backend.db.jobs ++
          [ImportJob.queued id clientId originalFilename storagePath idempotencyKey] } } }
    else none
  | .createGroup =>
    some { c with backend := { c.backend with stream := c.backend.stream.create } }
  | .enqueue id =>
    if (c.backend.db.job id).isSome ∧ id ∉ c.backend.stream.entries then
      some { c with backend := { c.backend with stream := c.backend.stream.xadd id } }
    else none
  | .tick ms => some { c with backend := { c.backend with redisTime := c.backend.redisTime + ms } }

/-- The fleet as a machine. -/
def fleet (py : Python) (files : String → Option Csv) : Machine Fleet FleetEvent :=
  ⟨Fleet.next py files⟩

/-! ### The job of `sampleWorld`, for runs that are evaluated -/

/-- The job has been created and enqueued before any worker has started. -/
def sampleBackend : Backend := ⟨sampleWorld.db, Group.empty.xadd sampleId, [], 0, 0⟩

/-- A worker with the default idle time and batches of one row. -/
def sampleSettings : WorkerSettings := ⟨"worker-a-1", 1, 30000⟩

/-- The next `n` steps of the `i`-th worker succeed. -/
def steps (i n : ℕ) : List FleetEvent := List.replicate n (.step i .ok)

end TransactionPlatform
