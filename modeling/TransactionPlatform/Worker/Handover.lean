import TransactionPlatform.Worker.Counters
import TransactionPlatform.Worker.Delivery
import TransactionPlatform.Worker.Fleet
import TransactionPlatform.Worker.Retries

/-!
# When the worker processes do not get in each other's way

Nothing refreshes the idle time of an entry while it is being processed, so a worker that takes
longer than `worker_claim_idle_ms` loses its entries to the next `XAUTOCLAIM` and goes on processing
them.  With one process at a time this cannot happen, whatever the idle time is: `XAUTOCLAIM` is only
called by a worker with empty hands.  With several of them it does not happen as long as every
`XAUTOCLAIM` finds the entries that are in somebody's hands younger than the idle time.

In both cases attempts at one job do not overlap, so that the counters add up.  With one process no
unfinished job is dropped either, unless an acknowledgement takes effect and raises.
-/

namespace TransactionPlatform

open Interleaved ConsumerGroup

/-- The process has neither ended nor died. -/
def WorkerProcess.running (p : WorkerProcess) : Bool :=
  match p.control with
  | .stopped => false
  | _ => true

/-- A worker is only started when no other one is running. -/
def Fleet.Lone (c : Fleet) : FleetEvent → Prop
  | .start _ => ∀ p ∈ c.workers, p.running = false
  | _ => True

/-- When a worker calls `XAUTOCLAIM`, no entry in the hands of a worker has been idle for the time
the call asks for. -/
def Fleet.Timely (py : Python) (c : Fleet) : FleetEvent → Prop
  | .step i _ => ∀ p ∈ c.workers[i]?, p.control = .reclaim → ∀ q ∈ c.held py,
      ∀ x ∈ c.backend.stream.pending, x.entry = q.tag.entry →
      c.backend.redisTime - x.deliveryTime < p.settings.workerClaimIdleMs
  | _ => True

/-- No statement is refused by the client library. -/
def Fleet.NoClientError (c : Fleet) : FleetEvent → Prop
  | .step i f => ∀ p ∈ c.workers[i]?, ∀ src t o k rest,
      p.control = .process src t (.call o k) rest → o.clientError f = false
  | _ => True

/-- No acknowledgement takes effect and raises all the same. -/
def Fleet.AckNotLost (c : Fleet) : FleetEvent → Prop
  | .step i .lost => ∀ p ∈ c.workers[i]?, ∀ src t entry k rest,
      p.control ≠ .process src t (.call (.xack entry) k) rest
  | _ => True

/-- No entry is in two hands. -/
def Fleet.Exclusive (py : Python) (c : Fleet) : Prop :=
  ((c.held py).map fun q => q.tag.entry).Nodup

variable {py : Python} {files : String → Option Csv} {c c' : Fleet} {e : FleetEvent}

/-! ### Who holds what -/

/-- What a worker holds after a step it has held before, or its hands were empty and Redis has handed
it entries. -/
theorem WorkerProcess.step_held {p : WorkerProcess} {f : Fault} {b b' : Backend} {ctl : Control}
    (hs : p.step py files f b = some (b', ctl)) :
    ((WorkerProcess.held py { p with control := ctl }).map Proc.tag).Sublist
      ((p.held py).map Proc.tag) ∨
    (p.held py = [] ∧ ∃ g es,
      WorkerProcess.held py { p with control := ctl } = (g.fetch es).map (p.settings.waiting py) ∧
      ((p.control = .reclaim ∧ b.stream.xautoclaim p.settings.consumerName
          p.settings.workerClaimIdleMs 50 b.redisTime = some (g, es)) ∨
        b.stream.xreadgroup p.settings.consumerName 1 b.redisTime = some (g, es))) := by
  obtain ⟨s, sd, pc⟩ := p
  cases pc with
  | starting =>
    simp only [WorkerProcess.step] at hs
    split at hs <;>
    · cases hs
      exact .inl (.refl _)
  | test =>
    cases hs
    cases sd <;> exact .inl (.refl _)
  | sleep =>
    cases hs
    exact .inl (.refl _)
  | stopped => cases hs
  | process src t q rest =>
    cases q with
    | done r =>
      cases r with
      | ok u =>
        cases hs
        simp only [held_loop]
        exact .inl (List.sublist_cons_self _ _)
      | error e =>
        cases hs
        exact .inl (List.nil_sublist _)
    | call o k =>
      cases hs
      exact .inl (.refl _)
  | reclaim =>
    cases hs
    rcases Backend.receive_cases b (b.stream.xautoclaim s.consumerName s.workerClaimIdleMs 50
      b.redisTime) f with hr | ⟨g, es, hclaim, hr | hr⟩
    · rw [Backend.reclaimStaleJobs, hr]
      exact .inl (.refl _)
    · rw [Backend.reclaimStaleJobs, hr]
      exact .inr ⟨rfl, g, es, held_loop s sd .reclaimed (g.fetch es), .inl ⟨rfl, hclaim⟩⟩
    · rw [Backend.reclaimStaleJobs, hr]
      exact .inl (.refl _)
  | read =>
    cases hs
    rcases Backend.receive_cases b (b.stream.xreadgroup s.consumerName 1 b.redisTime) f with
      hr | ⟨g, es, hread, hr | hr⟩
    · rw [Backend.readNewJobs, hr]
      exact .inl (.refl _)
    · rw [Backend.readNewJobs, hr]
      exact .inr ⟨rfl, g, es, held_loop s sd .new (g.fetch es), .inr hread⟩
    · rw [Backend.readNewJobs, hr]
      exact .inl (.refl _)

/-- A step of one worker puts no entry into two hands. -/
theorem Fleet.Exclusive.step {i : ℕ} {f : Fault} {p : WorkerProcess} {b : Backend} {ctl : Control}
    (h : c.Exclusive py) (hlt : ∀ q ∈ c.held py, q.tag.entry < c.backend.stream.delivered)
    (hundisturbed : c.Undisturbed py (.step i f)) (hp : c.workers[i]? = some p)
    (hs : p.step py files f c.backend = some (b, ctl)) :
    Fleet.Exclusive py ⟨b, c.workers.set i { p with control := ctl }⟩ := by
  obtain ⟨others, hothers, hset⟩ := Fleet.held_perm py hp
  have hold : ((p.held py ++ others).map fun q => q.tag.entry).Nodup :=
    (hothers.map _).nodup_iff.mp h
  refine ((hset b _).map _).nodup_iff.mpr ?_
  have htags : ∀ l : List AttemptProc, l.map (fun q => q.tag.entry) =
      (l.map Proc.tag).map Attempt.entry := fun l => (List.map_map ..).symm
  rcases WorkerProcess.step_held hs with hsub | ⟨hnil, g, es, hheld, hanswer⟩
  · rw [List.map_append] at hold ⊢
    refine hold.sublist (List.Sublist.append ?_ (.refl _))
    rw [htags, htags]
    exact hsub.map _
  · -- the entries that Redis hands out are in nobody's hands
    rw [hnil, List.nil_append] at hothers
    have hentries : ((g.fetch es).map (p.settings.waiting py)).map (fun q => q.tag.entry) =
        (g.fetch es).map Prod.fst := by
      rw [List.map_map]
      rfl
    have hnew : ((g.fetch es).map Prod.fst).Nodup ∧
        ∀ e ∈ (g.fetch es).map Prod.fst, ∀ q ∈ others, q.tag.entry ≠ e := by
      have hfst : ∀ e ∈ (g.fetch es).map Prod.fst, e ∈ es := fun e he => by
        obtain ⟨x, hx, rfl⟩ := List.mem_map.mp he
        exact (Group.mem_fetch.mp hx).1
      rcases hanswer with ⟨hctl, hclaim⟩ | hread
      · refine ⟨?_, fun e he q hq heq => ?_⟩
        · rw [Group.fetch_xautoclaim hclaim]
          exact Group.nodup_of_xautoclaim hclaim
        · exact hundisturbed p hp hctl g es hclaim q (hothers.mem_iff.mpr hq) (heq ▸ hfst e he)
      · obtain ⟨-, hes, -, -, -, -⟩ := Group.xreadgroup_eq_some hread
        refine ⟨?_, fun e he q hq heq => ?_⟩
        · rw [Group.fetch_xreadgroup hread, hes]
          exact List.nodup_range'
        · have he' := hfst e he
          rw [hes] at he'
          have := (Group.mem_news.mp he').1
          have := hlt q (hothers.mem_iff.mpr hq)
          omega
    rw [List.map_append, hheld, hentries]
    refine List.nodup_append.mpr ⟨hnew.1, ?_, fun a ha b hb hab => ?_⟩
    · rw [hnil] at hold
      exact hold
    · obtain ⟨q, hq, rfl⟩ := List.mem_map.mp hb
      exact hnew.2 a ha q hq hab.symm

/-- An event puts no entry into two hands. -/
theorem Fleet.Exclusive.next (h : c.Exclusive py)
    (hlt : ∀ q ∈ c.held py, q.tag.entry < c.backend.stream.delivered)
    (hundisturbed : c.Undisturbed py e) (hn : (fleet py files).next c e = some c') :
    c'.Exclusive py := by
  rcases Fleet.next_cases hn with ⟨i, f, p, b, ctl, rfl, hp, hs, rfl⟩ | ⟨i, p, rfl, hp, rfl⟩ |
    ⟨i, p, rfl, hp, rfl⟩ | ⟨s, rfl, rfl⟩ | ⟨id, clientId, name, path, key, rfl, -, rfl⟩ |
    ⟨rfl, rfl⟩ | ⟨id, rfl, -, -, rfl⟩ | ⟨ms, rfl, rfl⟩
  · exact h.step hlt hundisturbed hp hs
  · obtain ⟨others, hothers, hset⟩ := Fleet.held_perm py hp
    have hsame := (hset c.backend { p with shutdown := true }).trans hothers.symm
    exact (hsame.map _).nodup_iff.mpr h
  · obtain ⟨others, hothers, hset⟩ := Fleet.held_perm py hp
    refine ((hset c.backend _).map _).nodup_iff.mpr ?_
    exact ((hothers.map _).nodup_iff.mp h).sublist ((List.sublist_append_right _ _).map _)
  · have hheld : Fleet.held py ⟨c.backend, c.workers ++ [⟨s, false, .starting⟩]⟩ = c.held py := by
      unfold Fleet.held
      rw [List.flatMap_append]
      exact List.append_nil _
    unfold Fleet.Exclusive
    rw [hheld]
    exact h
  · exact h
  · exact h
  · exact h
  · exact h

/-- Runs in which `XAUTOCLAIM` takes nothing that is in somebody's hands: they are matched by runs of
the system of workers, and no entry is ever in two hands. -/
theorem Carries.reaches_exclusive {K : Fleet → FleetEvent → Prop}
    {C : WorkerPool → WorkerEvent → Prop} {d : WorkerPool} (hcarry : Carries py K C)
    (hK : ∀ c e, K c e → c.Undisturbed py e) (h : Mirrors py c d) (hex : c.Exclusive py)
    (hc : (fleet py files).Reaches K c c') :
    ∃ d', (workers py files).Reaches C d d' ∧ Mirrors py c' d' ∧ c'.Exclusive py :=
  hc.simulate (R := fun c d => Mirrors py c d ∧ c.Exclusive py) (fun _ => .refl)
    (fun _ _ _ => System.Reaches.trans)
    (fun s e t a hR hKe hn => by
      obtain ⟨b, hreach, hmirror⟩ := hR.1.next hcarry hKe hn
      exact ⟨b, hreach, hmirror, hR.2.next (fun q hq => (hR.1.entry q hq).2) (hK s e hKe) hn⟩)
    ⟨h, hex⟩

/-! ### One worker at a time -/

/-- At most one worker is running. -/
def Fleet.OneRunning (c : Fleet) : Prop :=
  ∀ (i j : ℕ) (p q : WorkerProcess), c.workers[i]? = some p → c.workers[j]? = some q →
    p.running = true → q.running = true → i = j

/-- A worker that holds something is running. -/
theorem WorkerProcess.running_of_held {p : WorkerProcess} {q : AttemptProc} (hq : q ∈ p.held py) :
    p.running = true := by
  obtain ⟨s, sd, pc⟩ := p
  cases pc with
  | stopped => cases hq
  | _ => rfl

/-- A worker that takes a step was running. -/
theorem WorkerProcess.running_of_step {p : WorkerProcess} {f : Fault} {b : Backend}
    {r : Backend × Control} (hs : p.step py files f b = some r) : p.running = true := by
  obtain ⟨s, sd, pc⟩ := p
  cases pc with
  | stopped => cases hs
  | _ => rfl

/-- Starting workers one at a time keeps them apart. -/
theorem Fleet.OneRunning.next (h : c.OneRunning) (hlone : c.Lone e)
    (hn : (fleet py files).next c e = some c') : c'.OneRunning := by
  -- a worker is replaced by one that runs only if it did
  have hset : ∀ (b : Backend) (i : ℕ) (p p' : WorkerProcess), c.workers[i]? = some p →
      (p'.running = true → p.running = true) →
      Fleet.OneRunning ⟨b, c.workers.set i p'⟩ := by
    intro b i p p' hp hrun a a' q q' ha ha' hq hq'
    have hold : ∀ (a : ℕ) (q : WorkerProcess), (c.workers.set i p')[a]? = some q →
        q.running = true → ∃ q₀, c.workers[a]? = some q₀ ∧ q₀.running = true := by
      intro a q ha hq
      rcases getElem?_set_eq_some ha with ⟨rfl, rfl⟩ | ⟨-, ha⟩
      · exact ⟨p, hp, hrun hq⟩
      · exact ⟨q, ha, hq⟩
    obtain ⟨q₀, ha, hq₀⟩ := hold a q ha hq
    obtain ⟨q₀', ha', hq₀'⟩ := hold a' q' ha' hq'
    exact h a a' q₀ q₀' ha ha' hq₀ hq₀'
  rcases Fleet.next_cases hn with ⟨i, f, p, b, ctl, rfl, hp, hs, rfl⟩ | ⟨i, p, rfl, hp, rfl⟩ |
    ⟨i, p, rfl, hp, rfl⟩ | ⟨s, rfl, rfl⟩ | ⟨id, clientId, name, path, key, rfl, -, rfl⟩ |
    ⟨rfl, rfl⟩ | ⟨id, rfl, -, -, rfl⟩ | ⟨ms, rfl, rfl⟩
  · exact hset b i p _ hp fun _ => WorkerProcess.running_of_step hs
  · exact hset c.backend i p _ hp fun hrun => hrun
  · exact hset c.backend i p _ hp fun hrun => by cases hrun
  · intro a a' q q' ha ha' hq hq'
    have hnew : ∀ (a : ℕ) (q : WorkerProcess), (c.workers ++ [⟨s, false, .starting⟩])[a]? = some q →
        q.running = true → a = c.workers.length := by
      intro a q ha hq
      rcases getElem?_concat_eq_some ha with ⟨rfl, -⟩ | ⟨-, ha⟩
      · rfl
      · rw [hlone q (List.mem_of_getElem? ha)] at hq
        cases hq
    rw [hnew a q ha hq, hnew a' q' ha' hq']
  · exact h
  · exact h
  · exact h
  · exact h

/-- The only worker that runs has empty hands when it calls `XAUTOCLAIM`. -/
theorem Fleet.OneRunning.undisturbed (h : c.OneRunning) (e : FleetEvent) : c.Undisturbed py e := by
  cases e with
  | step i f =>
    intro p hp hctl g es _ q hq _
    obtain ⟨p', hp', hq'⟩ := List.mem_flatMap.mp hq
    obtain ⟨j, hj⟩ := List.mem_iff_getElem?.mp hp'
    have hrun : p.running = true := by
      unfold WorkerProcess.running
      rw [hctl]
    obtain rfl := h j i p' p hj hp (WorkerProcess.running_of_held hq') hrun
    rw [Option.mem_def.mp hp] at hj
    cases hj
    unfold WorkerProcess.held at hq'
    rw [hctl] at hq'
    cases hq'
  | _ => trivial

/-- An entry in a worker's hands that is younger than the idle time is not taken. -/
theorem Fleet.Timely.undisturbed (h : c.Timely py e) : c.Undisturbed py e := by
  cases e with
  | step i f =>
    intro p hp hctl g es hclaim q hq he
    obtain ⟨x, hx, hxe, hidle⟩ := Group.idle_of_xautoclaim hclaim he
    exact absurd hidle (Nat.not_le.mpr (h p hp hctl q hq x hx hxe))
  | _ => trivial

/-! ### Counters -/

/-- The conditions on a fleet under which attempts at one job do not overlap and statements fail only
in Postgres. -/
theorem carries_sequential (py : Python) :
    Carries py (fun c e => c.Undisturbed py e ∧ c.NoClientError e) Sequential where
  crash _ _ := ⟨trivial, trivial⟩
  create _ _ _ _ _ _ := ⟨trivial, trivial⟩
  enqueue _ _ := ⟨trivial, trivial⟩
  run c i f p src t o k rest hK hp hctl d j _ hj := by
    refine ⟨trivial, fun q hq o' k' hprog => ?_⟩
    rw [Option.mem_def, hj] at hq
    cases hq
    cases hprog
    exact hK.2 p hp src t o _ rest hctl
  deliver c i f d entry size hK hone := ⟨hone hK.1, trivial⟩

/-- What the counters say about the jobs of a database. -/
structure CountersAddUp (files : String → Option Csv) (db : Db) : Prop where
  rows : ∀ id job, db.job id = some job → job.processedRows = job.lastCommittedRow ∧
    job.processedRows = job.successfulRows + job.failedRows
  transactions : ∀ id job, db.job id = some job → job.successfulRows = transactionsOf db id
  total : ∀ id job csv, db.job id = some job → files job.storagePath = some csv →
    job.processedRows ≤ csv.rows.length ∧
    (job.status = .COMPLETED → job.totalRows = some job.processedRows ∧
      job.processedRows = csv.rows.length)

/-- Progress is never taken back. -/
def NeverBack (db db' : Db) : Prop :=
  ∀ id job, db.job id = some job → ∃ job', db'.job id = some job' ∧
    job.processedRows ≤ job'.processedRows ∧ job.successfulRows ≤ job'.successfulRows ∧
    job.failedRows ≤ job'.failedRows

/-- Runs in which `XAUTOCLAIM` takes nothing that is in somebody's hands. -/
theorem undisturbed_counters {b : Backend} (hb : b.stream.entries.Nodup) (hw : Unstarted b.db)
    (hc : (fleet py files).Reaches (fun c e => c.Undisturbed py e ∧ c.NoClientError e) ⟨b, []⟩ c)
    (hc' : (fleet py files).Reaches (fun c e => c.Undisturbed py e ∧ c.NoClientError e) c c') :
    c'.Exclusive py ∧ CountersAddUp files c'.backend.db ∧ NeverBack c.backend.db c'.backend.db := by
  obtain ⟨d, hd, hmirror, hex⟩ := (carries_sequential py).reaches_exclusive (fun _ _ h => h.1)
    (.start hb) List.nodup_nil hc
  obtain ⟨d', hd', hmirror', hex'⟩ := (carries_sequential py).reaches_exclusive (fun _ _ h => h.1)
    hmirror hex hc'
  have hdb : d.world.db = c.backend.db := congrArg World.db hmirror.world
  have hdb' : d'.world.db = c'.backend.db := congrArg World.db hmirror'.world
  obtain ⟨hinv, hmono⟩ := (countersRule py files).reaches (fun _ _ he => he.1)
    (fun id job hjob => hw.tally hjob) hd hd'
  rw [hdb'] at hinv hmono
  rw [hdb] at hmono
  have hprocessed : ∀ {id job}, c'.backend.db.job id = some job →
      job.processedRows = job.lastCommittedRow := fun hjob => (hinv _ _ hjob).processed
  refine ⟨hex', ⟨fun id job hjob => ?_, fun id job hjob => ?_, fun id job csv hjob hcsv => ?_⟩,
    fun id job hjob => ?_⟩
  · have h := hinv id job hjob
    exact ⟨h.processed, h.processed.trans h.sum.symm⟩
  · rw [← Db.id_of_job hjob]
    exact (hinv id job hjob).successful
  · have h := hinv id job hjob
    refine ⟨by rw [h.processed]; exact h.bound csv hcsv, fun hst => ?_⟩
    obtain ⟨htotal, hlast⟩ := h.completed hst csv hcsv
    exact ⟨by rw [htotal, h.processed, hlast], h.processed.trans hlast⟩
  · obtain ⟨job', hjob', hle⟩ := hmono id job hjob
    have hp' := hprocessed hjob'
    have htally := (countersRule py files).reaches (fun _ _ he => he.1)
      (fun id job hjob => hw.tally hjob) .refl hd
    rw [hdb] at htally
    have hp := (htally.1 id job hjob).processed
    exact ⟨job', hjob', by rw [hp, hp']; exact hle.last, hle.successful, hle.failed⟩

/-- One worker at a time, however often it is killed and started again, and whatever the idle time
is: no entry is ever in two hands, the counters of every job add up, and progress is never taken
back. -/
theorem lone_worker_counters (py : Python) (files : String → Option Csv) {b : Backend}
    (hb : b.stream.entries.Nodup) (hw : Unstarted b.db)
    (hc : (fleet py files).Reaches (fun c e => c.Lone e ∧ c.NoClientError e) ⟨b, []⟩ c)
    (hc' : (fleet py files).Reaches (fun c e => c.Lone e ∧ c.NoClientError e) c c') :
    c'.Exclusive py ∧ CountersAddUp files c'.backend.db ∧ NeverBack c.backend.db c'.backend.db := by
  obtain ⟨hreach, hone⟩ := hc.strengthen (P := Fleet.OneRunning)
    (fun i j p q hi => by cases hi) fun _ _ _ h he hn => h.next he.1 hn
  obtain ⟨hreach', -⟩ := hc'.strengthen hone fun _ _ _ h he hn => h.next he.1 hn
  exact undisturbed_counters hb hw (hreach.mono fun _ e h => ⟨h.2.undisturbed e, h.1.2⟩)
    (hreach'.mono fun _ e h => ⟨h.2.undisturbed e, h.1.2⟩)

/-- A test for `Fleet.NoClientError`. -/
def Fleet.NoClientError.test (c : Fleet) : FleetEvent → Bool
  | .step i f =>
    match c.workers[i]?.map WorkerProcess.control with
    | some (.process _ _ (.call o _) _) => !o.clientError f
    | _ => true
  | _ => true

theorem Fleet.NoClientError.of_test (h : Fleet.NoClientError.test c e = true) :
    c.NoClientError e := by
  cases e with
  | step i f =>
    intro p hp src t o k rest hctl
    have hcontrol : c.workers[i]?.map WorkerProcess.control =
        some (.process src t (.call o k) rest) := by
      rw [Option.mem_def.mp hp, Option.map_some, hctl]
    rw [test, hcontrol] at h
    simpa using h
  | _ => trivial

/-- A test for `Fleet.Lone` and the conditions on the faults: a worker starts when no other one runs,
and every step succeeds. -/
def Fleet.Lone.test (c : Fleet) (e : FleetEvent) : Bool :=
  Fleet.NoClientError.test c e &&
  match e with
  | .start _ => c.workers.all fun p => !p.running
  | .step _ f => decide (f = .ok)
  | _ => true

theorem Fleet.Lone.of_test (h : Fleet.Lone.test c e = true) :
    c.Lone e ∧ c.NoClientError e ∧ c.AckNotLost e := by
  obtain ⟨hclient, h⟩ := Bool.and_eq_true_iff.mp h
  have hclient' := Fleet.NoClientError.of_test hclient
  cases e with
  | start s =>
    refine ⟨fun p hp => ?_, hclient', trivial⟩
    have hrun := List.all_eq_true.mp h p hp
    rw [Bool.not_eq_true'] at hrun
    exact hrun
  | step i f =>
    obtain rfl : f = .ok := of_decide_eq_true h
    exact ⟨trivial, hclient', trivial⟩
  | _ => exact ⟨trivial, hclient', trivial⟩

/-- A worker is killed behind its first batch. -/
def sampleKill : List FleetEvent := .start sampleSettings :: steps 0 13 ++ [.kill 0]

/-- Half a minute later another one, with a larger batch size, claims the entry. -/
def sampleRestart : List FleetEvent :=
  [.tick 30000, .start ⟨"worker-b-1", 5, 30000⟩] ++ steps 1 16

theorem sampleRestart_completed :
    (((fleet .ascii (sampleFiles sampleCsv)).perform Fleet.Lone.test ⟨sampleBackend, []⟩
      sampleKill).bind fun c =>
        ((fleet .ascii (sampleFiles sampleCsv)).perform Fleet.Lone.test c sampleRestart).map
          fun c' => ((c.backend.db.job sampleId).map ImportJob.successfulRows,
            (c'.backend.db.job sampleId).map fun job => (job.status, job.storagePath))) =
      some (some 1, some (.COMPLETED, samplePath)) := by
  decide +kernel

theorem sample_lone_worker_counters :
    ∃ (c c' : Fleet) (job : ImportJob),
      (fleet .ascii (sampleFiles sampleCsv)).Reaches (fun c e => c.Lone e ∧ c.NoClientError e)
        ⟨sampleBackend, []⟩ c ∧
      (fleet .ascii (sampleFiles sampleCsv)).Reaches (fun c e => c.Lone e ∧ c.NoClientError e) c c' ∧
      c'.backend.db.job sampleId = some job ∧ job.status = .COMPLETED ∧ job.processedRows = 2 ∧
      1 ≤ job.successfulRows ∧ job.successfulRows = transactionsOf c'.backend.db sampleId := by
  obtain ⟨c, hc, hout⟩ := Option.bind_eq_some_iff.mp sampleRestart_completed
  obtain ⟨c', hc', heq⟩ := Option.map_eq_some_iff.mp hout
  simp only [Prod.mk.injEq, Option.map_eq_some_iff] at heq
  obtain ⟨⟨job₀, hjob₀, hone⟩, job, hjob, hst, hpath⟩ := heq
  have hreach := Machine.reaches_of_perform (C := fun c e => c.Lone e ∧ c.NoClientError e)
    (fun _ _ h => ⟨(Fleet.Lone.of_test h).1, (Fleet.Lone.of_test h).2.1⟩) hc
  have hreach' := Machine.reaches_of_perform (C := fun c e => c.Lone e ∧ c.NoClientError e)
    (fun _ _ h => ⟨(Fleet.Lone.of_test h).1, (Fleet.Lone.of_test h).2.1⟩) hc'
  obtain ⟨-, hcounters, hback⟩ := lone_worker_counters .ascii (sampleFiles sampleCsv)
    (List.nodup_singleton sampleId) Unstarted.sampleWorld hreach hreach'
  obtain ⟨job', hjob', -, hle, -⟩ := hback sampleId job₀ hjob₀
  rw [hjob] at hjob'
  cases hjob'
  have hcsv : sampleFiles sampleCsv job.storagePath = some sampleCsv := by
    rw [hpath]
    exact if_pos rfl
  obtain ⟨-, hcompleted⟩ := hcounters.total sampleId job sampleCsv hjob hcsv
  exact ⟨c, c', job, hreach, hreach', hjob, hst, (hcompleted hst).2, hone ▸ hle,
    hcounters.transactions sampleId job hjob⟩

/-- Any number of workers, as long as every `XAUTOCLAIM` finds the entries in somebody's hands
younger than `worker_claim_idle_ms`. -/
theorem timely_workers_counters (py : Python) (files : String → Option Csv) {b : Backend}
    (hb : b.stream.entries.Nodup) (hw : Unstarted b.db)
    (hc : (fleet py files).Reaches (fun c e => c.Timely py e ∧ c.NoClientError e) ⟨b, []⟩ c)
    (hc' : (fleet py files).Reaches (fun c e => c.Timely py e ∧ c.NoClientError e) c c') :
    c'.Exclusive py ∧ CountersAddUp files c'.backend.db ∧ NeverBack c.backend.db c'.backend.db :=
  undisturbed_counters hb hw (hc.mono fun _ _ h => ⟨h.1.undisturbed, h.2⟩)
    (hc'.mono fun _ _ h => ⟨h.1.undisturbed, h.2⟩)

/-- A test for `Fleet.Timely`: every step succeeds while the clock of Redis has not reached the idle
time of any worker. -/
def Fleet.Timely.test (c : Fleet) (e : FleetEvent) : Bool :=
  Fleet.NoClientError.test c e &&
  match e with
  | .step _ f => decide (f = .ok) &&
      c.workers.all fun p => decide (c.backend.redisTime < p.settings.workerClaimIdleMs)
  | _ => true

theorem Fleet.Timely.of_test (h : Fleet.Timely.test c e = true) :
    c.Timely py e ∧ c.NoClientError e := by
  obtain ⟨hclient, h⟩ := Bool.and_eq_true_iff.mp h
  refine ⟨?_, Fleet.NoClientError.of_test hclient⟩
  cases e with
  | step i f =>
    intro p hp _ q _ x _ _
    have hlt := of_decide_eq_true (List.all_eq_true.mp (Bool.and_eq_true_iff.mp h).2 p
      (List.mem_of_getElem? hp))
    exact (Nat.sub_le _ _).trans_lt hlt
  | _ => trivial

/-- While a worker processes the entry, another one starts, finds nothing to claim and nothing new,
and looks again. -/
def sampleOverlapping : List FleetEvent :=
  .start sampleSettings :: steps 0 13 ++ [.start ⟨"worker-b-1", 5, 30000⟩, .tick 20000] ++ steps 1 6

theorem sampleOverlapping_completed :
    (((fleet .ascii (sampleFiles sampleCsv)).perform Fleet.Timely.test ⟨sampleBackend, []⟩
      sampleOverlapping).bind fun c =>
        ((fleet .ascii (sampleFiles sampleCsv)).perform Fleet.Timely.test c (steps 0 9)).map
          fun c' => ((c.held .ascii).length,
            (c'.backend.db.job sampleId).map fun job => (job.status, job.storagePath))) =
      some (1, some (.COMPLETED, samplePath)) := by
  decide +kernel

theorem sample_timely_workers_counters :
    ∃ (c c' : Fleet) (job : ImportJob),
      (fleet .ascii (sampleFiles sampleCsv)).Reaches
        (fun c e => c.Timely .ascii e ∧ c.NoClientError e) ⟨sampleBackend, []⟩ c ∧
      (fleet .ascii (sampleFiles sampleCsv)).Reaches
        (fun c e => c.Timely .ascii e ∧ c.NoClientError e) c c' ∧
      (c.held .ascii).length = 1 ∧ c'.Exclusive .ascii ∧ c'.backend.db.job sampleId = some job ∧
      job.status = .COMPLETED ∧ job.processedRows = 2 := by
  obtain ⟨c, hc, hout⟩ := Option.bind_eq_some_iff.mp sampleOverlapping_completed
  obtain ⟨c', hc', heq⟩ := Option.map_eq_some_iff.mp hout
  simp only [Prod.mk.injEq, Option.map_eq_some_iff] at heq
  obtain ⟨hheld, job, hjob, hst, hpath⟩ := heq
  have hreach := Machine.reaches_of_perform (C := fun c e => c.Timely .ascii e ∧ c.NoClientError e)
    (fun _ _ h => Fleet.Timely.of_test h) hc
  have hreach' := Machine.reaches_of_perform (C := fun c e => c.Timely .ascii e ∧ c.NoClientError e)
    (fun _ _ h => Fleet.Timely.of_test h) hc'
  obtain ⟨hex, hcounters, -⟩ := timely_workers_counters .ascii (sampleFiles sampleCsv)
    (List.nodup_singleton sampleId) Unstarted.sampleWorld hreach hreach'
  have hcsv : sampleFiles sampleCsv job.storagePath = some sampleCsv := by
    rw [hpath]
    exact if_pos rfl
  obtain ⟨-, hcompleted⟩ := hcounters.total sampleId job sampleCsv hjob hcsv
  exact ⟨c, c', job, hreach, hreach', hheld, hex, hjob, hst, (hcompleted hst).2⟩

/-! ### No job is dropped -/

/-- No acknowledgement of a worker takes effect and raises all the same. -/
def AckNotLost (c : WorkerPool) : WorkerEvent → Prop
  | .run i .lost => ∀ p ∈ c.procs[i]?, ∀ entry k, p.prog ≠ some (.call (.xack entry) k)
  | _ => True

/-- Every attempt that has not ended has its entry in the pending list. -/
def pendingOutline : Outline World Attempt Phase where
  Inv _ := True
  Loc t a w := (∀ r, a ≠ .ended r) → PendingEntry t w
  Guar _ _ := True

/-- One move of an attempt keeps its own entry pending until it ends. -/
theorem PendingEntry.move {t : Attempt} {o : WorkerOp} {f : Fault} {w w' : World} {a a' : Phase}
    (h : PendingEntry t w) (hack : ∀ entry, o = .xack entry → f ≠ .lost)
    (hmove : Move py files t o f w a w' a') (ha' : ∀ r, a' ≠ .ended r) : PendingEntry t w' := by
  cases hmove with
  | load => exact h
  | stay hdb hstream ha =>
    unfold PendingEntry
    rw [hstream]
    exact h
  | fail hr => exact h
  | commit hc => cases f <;> exact h
  | ack => exact absurd rfl (ha' _)
  | ackTry hid =>
    cases f with
    | ok => exact absurd rfl (ha' _)
    | rejected => exact h
    | failed => exact h
    | lost => exact absurd rfl (hack _ rfl)

/-- The acknowledgement of another entry leaves an entry pending. -/
theorem PendingEntry.frame {t t' : Attempt} {o : WorkerOp} {f : Fault} {w w' : World} {a a' : Phase}
    (h : PendingEntry t' w) (hmove : Move py files t o f w a w' a') (hne : t'.entry ≠ t.entry) :
    PendingEntry t' w' := by
  unfold PendingEntry
  rcases hmove.stream_cases with hstream | ⟨hstream, -, -⟩
  · rw [hstream]
    exact h
  · obtain ⟨y, hy, hsame⟩ := Stream.getElem?_xack (e := t.entry) h
    rw [hstream, hy, hsame hne]

theorem pendingOutline_sound (py : Python) (files : String → Option Csv) :
    pendingOutline.Sound (workers py files)
      (fun c e => (OneAtATime c e ∧ AckNotLost c e) ∧ System.Exclusive Attempt.importJobId c)
      (Move py files) fun _ r a => a = .ended r := by
  refine workers_sound ?_ ?_
  · intro c ph i t o k f a' hold hC hi hmove _
    have hself : PendingEntry t c.world := hold.loc i t _ hi fun r => hmove.ne_ended r
    refine ⟨trivial, fun ha' => hself.move ?_ hmove ha', trivial, fun j t' p' hji hj hph => ?_⟩
    · rintro entry rfl rfl
      exact hC.1.2 _ (Option.mem_def.mpr hi) entry k rfl
    · have hother : PendingEntry t' c.world := hold.loc j t' p' hj hph
      refine hother.frame hmove fun hentry => ?_
      -- two running attempts are at different jobs, hence at different entries
      cases p' with
      | done r => exact hph r (hold.follows j t' _ hj)
      | call o' k' =>
        unfold PendingEntry at hother hself
        rw [hentry, hself] at hother
        have hid := congrArg StreamEntry.importJobId (Option.some.inj hother)
        exact hji (hC.2 j i _ _ hj hi rfl rfl hid.symm)
  · intro c ph x w r hold _ hx
    refine ⟨trivial, trivial, fun i t p hi hph => ?_, ?_⟩
    · have hpend : PendingEntry t c.world := hold.loc i t p hi hph
      rcases Arrival.apply_cases hx with ⟨id, client, name, path, key, -, -, rfl, rfl⟩ |
        ⟨id, -, -, -, rfl, rfl⟩ | ⟨entry, batchSize, stream, id, -, hclaim, rfl, rfl⟩
      · exact hpend
      · obtain ⟨hlt, -⟩ := List.getElem?_eq_some_iff.mp hpend
        exact (List.getElem?_append_left hlt).trans hpend
      · obtain ⟨⟨z, hs, -⟩, hs', hother⟩ := Stream.claim_eq_some hclaim
        unfold PendingEntry at hpend ⊢
        by_cases hte : t.entry = entry
        · rw [hte] at hpend ⊢
          rw [hs] at hpend
          cases hpend
          exact hs'
        · exact (hother _ hte).trans hpend
    · rintro t p rfl
      obtain ⟨stream, -, hclaim, rfl, -⟩ := Arrival.deliver_of_apply hx
      obtain ⟨-, hs', -⟩ := Stream.claim_eq_some hclaim
      exact fun _ => hs'

/-- A commit that puts a finished job back to an unfinished status is one of the only attempt at the
job, and the entry of this attempt is pending. -/
theorem overwriteSafe_of_pending {d : WorkerPool} {x : WorkerEvent} {ph : ℕ → Phase}
    (hex : System.Exclusive Attempt.importJobId d)
    (hold : pendingOutline.Holds (workers py files) (Move py files) (fun _ r a => a = .ended r)
      d ph) : OverwriteSafe d x := by
  cases x with
  | run i f =>
    rintro ⟨t, prog⟩ hi s k rfl st hst hopen row hrow hterm
    have hfollow := hold.follows i t _ hi
    obtain ⟨a', hmove, -⟩ := hfollow .ok d.world
    have hid : s.current.id = t.importJobId := by
      rcases hmove.db_cases with ⟨hdb, -⟩ | ⟨s', cont, heq, hcommit, -, -⟩
      · -- a commit without effect does not change the status
        exfalso
        obtain ⟨row', hrow', hst'⟩ := Session.status_commitDb hrow
        have hsame : s.commitDb d.world.db = d.world.db := hdb
        rw [hsame, hrow] at hrow'
        cases hrow'
        rw [hst, Option.getD_some] at hst'
        rw [hst', hopen] at hterm
        cases hterm
      · cases heq
        exact hcommit.holding.2.1
    rw [hid]
    refine ⟨Stream.unacked_iff.mpr ⟨t.entry, .pending, ?_, by decide⟩, fun j q hji hj hlive hq => ?_⟩
    · exact hold.loc i t _ hi fun r => hmove.ne_ended r
    · exact hji (hex j i q _ hj hi hlive rfl hq)
  | crash i => trivial
  | arrive x => trivial

/-- Runs in which attempts at one job do not overlap and no acknowledgement is lost. -/
theorem reaches_overwriteSafe {w : World} {d : WorkerPool}
    (hd : (workers py files).Reaches (fun c e => OneAtATime c e ∧ AckNotLost c e) ⟨w, []⟩ d) :
    (workers py files).Reaches OverwriteSafe ⟨w, []⟩ d := by
  obtain ⟨hd', -⟩ := hd.strengthen (P := System.Exclusive Attempt.importJobId)
    (fun i j p q hi => by simp at hi) fun _ _ _ h he hn => he.1.exclusive h hn
  obtain ⟨hd'', -, -⟩ := (pendingOutline_sound py files).strengthen (Q := fun _ => True)
    (Outline.holds_empty trivial fun _ => .unread) trivial (fun _ _ _ _ _ _ _ _ _ _ => trivial) hd'
  refine hd''.mono fun c e h => ?_
  obtain ⟨⟨-, hex⟩, -, ph, hold⟩ := h
  exact overwriteSafe_of_pending hex hold

/-- The conditions on a fleet under which no acknowledgement is lost and attempts at one job do not
overlap. -/
theorem carries_ackNotLost (py : Python) :
    Carries py (fun c e => c.Undisturbed py e ∧ c.AckNotLost e)
      fun c e => OneAtATime c e ∧ AckNotLost c e where
  crash _ _ := ⟨trivial, trivial⟩
  create _ _ _ _ _ _ := ⟨trivial, trivial⟩
  enqueue _ _ := ⟨trivial, trivial⟩
  run c i f p src t o k rest hK hp hctl d j _ hj := by
    refine ⟨trivial, ?_⟩
    cases f with
    | lost =>
      rintro q hq entry k' hprog
      rw [Option.mem_def, hj] at hq
      cases hq
      cases hprog
      exact hK.2 p hp src t entry _ rest hctl
    | _ => trivial
  deliver c i f d entry size hK hone := ⟨hone hK.1, trivial⟩

/-- Workers that do not take entries from each other keep the invariant of the deliveries. -/
theorem undisturbed_notDropped {b : Backend} (hb : b.stream.entries.Nodup)
    (hinit : NotDropped b.world)
    (hc : (fleet py files).Reaches (fun c e => c.Undisturbed py e ∧ c.AckNotLost e) ⟨b, []⟩ c) :
    NotDropped c.backend.world := by
  obtain ⟨d, hd, hmirror⟩ := (carries_ackNotLost py).reaches (.start hb) hc
  obtain ⟨⟨ph, hold⟩, -⟩ :=
    workers_reaches (deliveryOutline_sound py files) hinit (reaches_overwriteSafe hd)
  have hinv : NotDropped d.world := hold.inv
  rwa [hmirror.world] at hinv

/-- One worker at a time drops no job: while the worker is killed and started again and Postgres,
Redis and the files fail in any way but that an `XACK` takes effect and raises, every enqueued job
that is not finished has an entry that is still to be handed out or is pending. -/
theorem lone_worker_drops_nothing (py : Python) (files : String → Option Csv) {b : Backend}
    (hb : b.stream.entries.Nodup) (hdelivered : b.stream.delivered = 0)
    (hjobs : ∀ id ∈ b.stream.entries, ∃ row, b.db.job id = some row)
    (hc : (fleet py files).Reaches (fun c e => c.Lone e ∧ c.AckNotLost e) ⟨b, []⟩ c)
    {id : Uuid} {job : ImportJob} (hjob : c.backend.db.job id = some job)
    (hst : job.status.terminal = false) (henq : id ∈ c.backend.stream.entries) :
    ∃ e, c.backend.stream.entries[e]? = some id ∧
      (c.backend.stream.delivered ≤ e ∨ c.backend.stream.IsPending e) := by
  have hinit : NotDropped b.world := by
    have hfresh : ∀ x ∈ b.world.stream, x.importJobId ∈ b.stream.entries ∧ x.delivery = .fresh := by
      intro x hx
      obtain ⟨e, he⟩ := List.mem_iff_getElem?.mp hx
      rw [Backend.world, getElem?_streamOf] at he
      obtain ⟨id, hid, rfl⟩ := Option.map_eq_some_iff.mp he
      exact ⟨List.mem_of_getElem? hid, deliveryOf_of_le (by rw [hdelivered]; exact Nat.zero_le _)⟩
    refine ⟨fun x hx => hjobs _ (hfresh x hx).1, ?_⟩
    rintro id row hrow hst ⟨x, hx, hid⟩
    exact ⟨x, hx, hid, by rw [(hfresh x hx).2]; decide⟩
  obtain ⟨hreach, -⟩ := hc.strengthen (P := Fleet.OneRunning)
    (fun i j p q hi => by cases hi) fun _ _ _ h he hn => h.next he.1 hn
  have hinv := undisturbed_notDropped hb hinit
    (hreach.mono fun _ e h => ⟨h.2.undisturbed e, h.1.2⟩)
  obtain ⟨e, y, he, hy⟩ :=
    Stream.unacked_iff.mp (hinv.unacked id job hjob hst (enqueued_streamOf.mpr henq))
  rw [Backend.world, getElem?_streamOf] at he
  obtain ⟨id', hid', heq⟩ := Option.map_eq_some_iff.mp he
  cases heq
  refine ⟨e, hid', ?_⟩
  by_contra hnot
  obtain ⟨hlt, hpend⟩ := not_or.mp hnot
  exact hy (deliveryOf_of_acked (Nat.lt_of_not_le hlt) hpend)

theorem sampleKill_processing :
    ((fleet .ascii (sampleFiles sampleCsv)).perform Fleet.Lone.test ⟨sampleBackend, []⟩
      sampleKill).bind (fun c => (c.backend.db.job sampleId).map fun job =>
        (job.status, decide (sampleId ∈ c.backend.stream.entries), c.backend.stream.delivered)) =
      some (.PROCESSING, true, 1) := by
  decide +kernel

/-- The worker of the sample import is killed, and the entry is pending. -/
theorem sample_lone_worker_drops_nothing :
    ∃ (c : Fleet) (job : ImportJob) (e : ℕ),
      (fleet .ascii (sampleFiles sampleCsv)).Reaches (fun c e => c.Lone e ∧ c.AckNotLost e)
        ⟨sampleBackend, []⟩ c ∧
      c.backend.db.job sampleId = some job ∧ job.status = .PROCESSING ∧
      c.backend.stream.entries[e]? = some sampleId ∧
      (1 ≤ e ∨ c.backend.stream.IsPending e) := by
  obtain ⟨c, hc, hout⟩ := Option.bind_eq_some_iff.mp sampleKill_processing
  obtain ⟨job, hjob, heq⟩ := Option.map_eq_some_iff.mp hout
  simp only [Prod.mk.injEq, decide_eq_true_eq] at heq
  obtain ⟨hst, henq, hdelivered⟩ := heq
  have hreach := Machine.reaches_of_perform (C := fun c e => c.Lone e ∧ c.AckNotLost e)
    (fun _ _ h => ⟨(Fleet.Lone.of_test h).1, (Fleet.Lone.of_test h).2.2⟩) hc
  have hjobs : ∀ id ∈ sampleBackend.stream.entries, ∃ row, sampleBackend.db.job id = some row := by
    intro id hid
    rw [List.mem_singleton.mp hid]
    exact ⟨sampleJob, rfl⟩
  obtain ⟨e, he, hwhere⟩ := lone_worker_drops_nothing .ascii (sampleFiles sampleCsv)
    (List.nodup_singleton sampleId) rfl hjobs hreach hjob (by rw [hst]; rfl) henq
  rw [hdelivered] at hwhere
  exact ⟨c, job, e, hreach, hjob, hst, he, hwhere⟩

end TransactionPlatform
