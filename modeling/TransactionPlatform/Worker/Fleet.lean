import TransactionPlatform.Foundation.Custody
import TransactionPlatform.Worker.Exclusive
import TransactionPlatform.Worker.WorkerLoop

/-!
# Fleets refine the workers

Every step of a fleet is matched by events of the system `workers`: what a worker has been handed is
a set of attempts that have started, the one it is processing and those that wait for their turn.  An
exception in `worker_loop` or the end of a process drops them.  `Carries` says which conditions on
the events of a fleet give which conditions on the events of the system.
-/

namespace TransactionPlatform

open Interleaved ConsumerGroup

/-! ### The stream without consumers and times -/

section Entries

variable {γ : Type} {g g' : Group Uuid γ} {e : ℕ} {id : Uuid}

theorem getElem?_streamOf (g : Group Uuid γ) (e : ℕ) :
    (streamOf g)[e]? = g.entries[e]?.map fun id => ⟨id, deliveryOf g e⟩ := by
  unfold streamOf
  rw [List.getElem?_mapIdx]

theorem deliveryOf_of_pending (h : g.IsPending e) : deliveryOf g e = .pending := by
  unfold deliveryOf
  rw [if_pos (g.pending_lt e h), if_pos h]

theorem deliveryOf_of_acked (hlt : e < g.delivered) (h : ¬ g.IsPending e) :
    deliveryOf g e = .acked := by
  unfold deliveryOf
  rw [if_pos hlt, if_neg h]

theorem deliveryOf_of_le (h : g.delivered ≤ e) : deliveryOf g e = .fresh :=
  if_neg (Nat.not_lt.mpr h)

theorem deliveryOf_ne_acked_iff :
    deliveryOf g e ≠ .acked ↔ g.delivered ≤ e ∨ g.IsPending e := by
  refine ⟨fun h => ?_, ?_⟩
  · by_contra hnot
    obtain ⟨hlt, hpend⟩ := not_or.mp hnot
    exact h (deliveryOf_of_acked (Nat.lt_of_not_le hlt) hpend)
  · rintro (hle | hpend)
    · rw [deliveryOf_of_le hle]
      decide
    · rw [deliveryOf_of_pending hpend]
      decide

theorem deliveryOf_congr (hdelivered : e < g'.delivered ↔ e < g.delivered)
    (hpending : g'.IsPending e ↔ g.IsPending e) : deliveryOf g' e = deliveryOf g e := by
  unfold deliveryOf
  simp only [hdelivered, hpending]

/-- A pending entry of the group is a pending entry of the stream. -/
theorem getElem?_streamOf_pending (h : g.IsPending e) (hid : g.entries[e]? = some id) :
    (streamOf g)[e]? = some ⟨id, .pending⟩ := by
  rw [getElem?_streamOf, hid, deliveryOf_of_pending h]
  rfl

/-- Two groups with the same entries that agree about every delivery. -/
theorem streamOf_congr (hentries : g'.entries = g.entries)
    (hdelivery : ∀ e < g.entries.length, deliveryOf g' e = deliveryOf g e) :
    streamOf g' = streamOf g := by
  refine List.ext_getElem? fun e => ?_
  rw [getElem?_streamOf, getElem?_streamOf, hentries]
  by_cases he : e < g.entries.length
  · rw [hdelivery e he]
  · rw [List.getElem?_eq_none (Nat.le_of_not_lt he)]
    rfl

theorem streamOf_claimIdle (g : Group Uuid γ) (consumer : γ) (minIdle count now : ℕ) :
    streamOf (g.claimIdle consumer minIdle count now) = streamOf g :=
  streamOf_congr rfl fun _ _ => deliveryOf_congr .rfl Group.isPending_claimIdle

theorem streamOf_xadd (g : Group Uuid γ) (id : Uuid) :
    streamOf (g.xadd id) = (streamOf g).xadd id := by
  unfold streamOf Stream.xadd
  rw [← deliveryOf_of_le g.delivered_le]
  exact List.mapIdx_concat

theorem streamOf_xack (g : Group Uuid γ) (e : ℕ) :
    streamOf (g.xack e) = (streamOf g).xack e := by
  by_cases hpend : g.IsPending e
  · obtain ⟨id, hid⟩ : ∃ id, g.entries[e]? = some id :=
      ⟨_, List.getElem?_eq_getElem hpend.lt_length⟩
    unfold Stream.xack
    rw [getElem?_streamOf_pending hpend hid]
    refine List.ext_getElem? fun i => ?_
    rw [getElem?_streamOf]
    by_cases hi : i = e
    · subst hi
      have hlt : i < (streamOf g).length := by
        unfold streamOf
        rw [List.length_mapIdx]
        exact hpend.lt_length
      have hacked : deliveryOf (g.xack i) i = .acked :=
        deliveryOf_of_acked (g.pending_lt i hpend) fun h => (Group.isPending_xack.mp h).2 rfl
      rw [List.getElem?_set_self hlt, hacked]
      exact congrArg (Option.map _) hid
    · have hsame : deliveryOf (g.xack e) i = deliveryOf g i :=
        deliveryOf_congr .rfl (Group.isPending_xack.trans (and_iff_left hi))
      rw [List.getElem?_set_ne (Ne.symm hi), getElem?_streamOf, hsame]
      rfl
  · -- nothing is pending at this position, and nothing is acknowledged
    have hsame : (streamOf g).xack e = streamOf g := by
      unfold Stream.xack
      split
      · next id hs =>
        rw [getElem?_streamOf] at hs
        obtain ⟨id', -, heq⟩ := Option.map_eq_some_iff.mp hs
        have hdel : deliveryOf g e = .pending := congrArg StreamEntry.delivery heq
        unfold deliveryOf at hdel
        rw [if_neg hpend] at hdel
        split at hdel <;> cases hdel
      · rfl
    rw [hsame]
    exact streamOf_congr rfl fun i _ => deliveryOf_congr .rfl
      (Group.isPending_xack.trans (and_iff_left_of_imp fun h hi => hpend (hi ▸ h)))

/-- `XREADGROUP` of one entry hands out the oldest entry that was never delivered, if there is
one. -/
theorem streamOf_xreadgroup {consumer : γ} {now : ℕ} {es : List ℕ}
    (h : g.xreadgroup consumer 1 now = some (g', es)) :
    (es = [] ∧ streamOf g' = streamOf g) ∨
    ∃ id, es = [g.delivered] ∧ g.entries[g.delivered]? = some id ∧
      (streamOf g).claim g.delivered = some (streamOf g', id) := by
  obtain ⟨-, rfl, hentries, -, hdelivered, hpending⟩ := Group.xreadgroup_eq_some h
  by_cases hlt : g.delivered < g.entries.length
  · have hnews : g.news 1 = [g.delivered] := by
      unfold Group.news
      rw [Nat.min_eq_left (by omega)]
      rfl
    obtain ⟨id, hid⟩ : ∃ id, g.entries[g.delivered]? = some id :=
      ⟨_, List.getElem?_eq_getElem hlt⟩
    refine .inr ⟨id, hnews, hid, ?_⟩
    have hfresh : (streamOf g)[g.delivered]? = some ⟨id, .fresh⟩ := by
      rw [getElem?_streamOf, hid, deliveryOf_of_le (Nat.le_refl _)]
      rfl
    unfold Stream.claim
    rw [hfresh]
    simp only [Option.some.injEq, Prod.mk.injEq, and_true]
    rw [hnews] at hdelivered hpending
    have hpend : ∀ i, g'.IsPending i ↔ g.IsPending i ∨ i = g.delivered := by
      intro i
      unfold Group.IsPending
      rw [hpending, List.map_append, List.mem_append]
      simp
    refine List.ext_getElem? fun i => ?_
    rw [getElem?_streamOf, hentries]
    by_cases hi : i = g.delivered
    · subst hi
      have hlen : g.delivered < (streamOf g).length := by
        unfold streamOf
        rw [List.length_mapIdx]
        exact hlt
      rw [List.getElem?_set_self hlen, hid, deliveryOf_of_pending ((hpend _).mpr (.inr rfl))]
      rfl
    · rw [List.getElem?_set_ne (Ne.symm hi), getElem?_streamOf]
      have hdel : deliveryOf g' i = deliveryOf g i := by
        refine deliveryOf_congr ?_ ((hpend i).trans (or_iff_left hi))
        rw [hdelivered, List.length_singleton]
        omega
      rw [hdel]
  · have hnews : g.news 1 = [] := by
      unfold Group.news
      rw [Nat.sub_eq_zero_of_le (Nat.le_of_not_lt hlt)]
      rfl
    refine .inl ⟨hnews, ?_⟩
    rw [hnews] at hdelivered hpending
    refine streamOf_congr hentries fun i _ => deliveryOf_congr ?_ ?_
    · rw [hdelivered, List.length_nil, Nat.add_zero]
    · unfold Group.IsPending
      rw [hpending, List.map_nil, List.append_nil]

end Entries

/-! ### What one step does to the shared state -/

section Backend

variable {files : String → Option Csv} {b b' : Backend}

/-- An operation of `process_entry` does to the backend what it does in the system of workers. -/
theorem Backend.world_exec (files : String → Option Csv) (b : Backend) (o : WorkerOp) (f : Fault) :
    (b.exec files o f).1.world = (o.exec files f b.world).1 ∧
      (b.exec files o f).2 = (o.exec files f b.world).2 := by
  cases o with
  | xack entry =>
    cases f with
    | ok => exact ⟨congrArg (World.mk b.db · b.cache b.clock) (streamOf_xack b.stream entry), rfl⟩
    | lost => exact ⟨congrArg (World.mk b.db · b.cache b.clock) (streamOf_xack b.stream entry), rfl⟩
    | rejected => exact ⟨rfl, rfl⟩
    | failed => exact ⟨rfl, rfl⟩
  | commit s => cases f <;> exact ⟨rfl, rfl⟩
  | delSummary a => cases f <;> exact ⟨rfl, rfl⟩
  | selectJob id => exact ⟨rfl, rfl⟩
  | now => exact ⟨rfl, rfl⟩
  | execute stmt => exact ⟨rfl, rfl⟩
  | openCsv path => exact ⟨rfl, rfl⟩
  | readRow => exact ⟨rfl, rfl⟩

/-- An operation of `process_entry` adds no entry and hands none out. -/
theorem Backend.stream_exec (files : String → Option Csv) (b : Backend) (o : WorkerOp) (f : Fault) :
    (b.exec files o f).1.stream.entries = b.stream.entries ∧
      (b.exec files o f).1.stream.delivered = b.stream.delivered := by
  cases o with
  | xack entry => cases f <;> exact ⟨rfl, rfl⟩
  | _ => exact ⟨rfl, rfl⟩

theorem Backend.world_ensureGroup (b : Backend) (f : Fault) :
    (b.ensureGroup f).1.world = b.world ∧
      (b.ensureGroup f).1.stream.entries = b.stream.entries ∧
      (b.ensureGroup f).1.stream.delivered = b.stream.delivered := by
  cases f <;> exact ⟨rfl, rfl, rfl⟩

/-- An answer of Redis that arrives. -/
theorem Backend.receive_ok (b : Backend) (g : Group Uuid String) (es : List ℕ) :
    b.receive (some (g, es)) .ok = ({ b with stream := g }, .ok (g.fetch es)) := by
  have hflat : (if es = [] then [] else flatten [(importStreamName, g.fetch es)]) = g.fetch es := by
    split
    · next hnil =>
      rw [hnil]
      rfl
    · exact List.append_nil _
  simp only [receive, hflat]

/-- An answer of Redis is an exception without effect, or the group has handed out entries; they
reach the worker or are lost on the way. -/
theorem Backend.receive_cases (b : Backend) (answer : Option (Group Uuid String × List ℕ))
    (f : Fault) :
    b.receive answer f = (b, .error .RedisError) ∨
    ∃ g es, answer = some (g, es) ∧
      (b.receive answer f = ({ b with stream := g }, .ok (g.fetch es)) ∨
        b.receive answer f = ({ b with stream := g }, .error .RedisError)) := by
  cases answer with
  | none => cases f <;> exact .inl rfl
  | some r =>
    obtain ⟨g, es⟩ := r
    cases f with
    | ok => exact .inr ⟨g, es, rfl, .inl (b.receive_ok g es)⟩
    | lost => exact .inr ⟨g, es, rfl, .inr rfl⟩
    | rejected => exact .inl rfl
    | failed => exact .inl rfl

end Backend

/-! ### What the workers hold -/

/-- An attempt that has started. -/
abbrev AttemptProc := Proc Attempt WorkerOp WorkerOp.Ans (Except Exn Unit)

section Held

variable (py : Python)

/-- The attempt at an entry that waits for its turn. -/
def WorkerSettings.waiting (s : WorkerSettings) (x : ℕ × Uuid) : AttemptProc :=
  ⟨s.attempt x, some (processEntry py s.workerBatchSize x.1 x.2)⟩

/-- The attempts in the hands of a worker. -/
def WorkerProcess.held (p : WorkerProcess) : List AttemptProc :=
  match p.control with
  | .process _ t q rest => ⟨t, some q⟩ :: rest.map (p.settings.waiting py)
  | _ => []

/-- The attempts in the hands of all workers. -/
def Fleet.held (c : Fleet) : List AttemptProc := c.workers.flatMap (WorkerProcess.held py)

variable {py}

/-- The head of a `for` loop holds what the loop goes over. -/
theorem held_loop (s : WorkerSettings) (sd : Bool) (src : Source) (xs : List (ℕ × Uuid)) :
    WorkerProcess.held py ⟨s, sd, s.loop py src xs⟩ = xs.map (s.waiting py) := by
  cases xs with
  | nil => cases src <;> rfl
  | cons x rest => rfl

/-- Replacing one worker replaces what this worker holds. -/
theorem Fleet.held_perm (py : Python) {c : Fleet} {i : ℕ} {p : WorkerProcess}
    (hp : c.workers[i]? = some p) :
    ∃ others, (c.held py).Perm (p.held py ++ others) ∧
      ∀ b q, (Fleet.held py ⟨b, c.workers.set i q⟩).Perm (q.held py ++ others) := by
  obtain ⟨hlt, hget⟩ := List.getElem?_eq_some_iff.mp hp
  refine ⟨(c.workers.eraseIdx i).flatMap (WorkerProcess.held py), ?_, fun b q => ?_⟩
  · have hperm := (List.getElem_cons_eraseIdx_perm hlt).symm
    rw [hget] at hperm
    exact hperm.flatMap_right _
  · exact (List.set_perm_cons_eraseIdx hlt q).flatMap_right _

end Held

/-! ### The refinement -/

section Refinement

variable (py : Python) (files : String → Option Csv)

/-- `XAUTOCLAIM` takes nothing that is in the hands of a worker. -/
def Fleet.Undisturbed (c : Fleet) : FleetEvent → Prop
  | .step i _ => ∀ p ∈ c.workers[i]?, p.control = .reclaim → ∀ g es,
      c.backend.stream.xautoclaim p.settings.consumerName p.settings.workerClaimIdleMs 50
        c.backend.redisTime = some (g, es) → ∀ q ∈ c.held py, q.tag.entry ∉ es
  | _ => True

/-- The condition `K` on the events of a fleet gives the condition `C` on the events of the workers
that match them.  A delivery is known to find no attempt at its job if `XAUTOCLAIM` takes nothing
that is in the hands of a worker. -/
structure Carries (K : Fleet → FleetEvent → Prop) (C : WorkerPool → WorkerEvent → Prop) : Prop where
  crash : ∀ d i, C d (.crash i)
  create : ∀ d id clientId name path key, C d (.arrive (.create id clientId name path key))
  enqueue : ∀ d id, C d (.arrive (.enqueue id))
  run : ∀ c i f p src t o k rest, K c (.step i f) → c.workers[i]? = some p →
    p.control = .process src t (.call o k) rest → ∀ (d : WorkerPool) j, d.world = c.backend.world →
    d.procs[j]? = some ⟨t, some (.call o k)⟩ → C d (.run j f)
  deliver : ∀ c i f (d : WorkerPool) entry size, K c (.step i f) →
    (c.Undisturbed py (.step i f) → OneAtATime d (.arrive (.deliver entry size))) →
    C d (.arrive (.deliver entry size))

/-- The pool has the shared state of the fleet, and what runs in it is in the hands of the
workers. -/
structure Mirrors (c : Fleet) (d : WorkerPool) : Prop where
  world : d.world = c.backend.world
  holds : d.Holds (c.held py)
  entry : ∀ q ∈ c.held py, c.backend.stream.entries[q.tag.entry]? = some q.tag.importJobId ∧
    q.tag.entry < c.backend.stream.delivered
  nodup : c.backend.stream.entries.Nodup

variable {py files} {K : Fleet → FleetEvent → Prop} {C : WorkerPool → WorkerEvent → Prop}
variable {c : Fleet} {d d' : WorkerPool} {i : ℕ} {f : Fault} {p : WorkerProcess}

/-- Entries that are pending are handed to a worker one after the other. -/
theorem holds_deliverAll {s : WorkerSettings} {held : List AttemptProc} {xs : List (ℕ × Uuid)}
    (h : d.Holds held) (hnodup : xs.Nodup)
    (hpend : ∀ x ∈ xs, d.world.stream[x.1]? = some ⟨x.2, .pending⟩)
    (hC : ∀ (d₁ : WorkerPool) x, x ∈ xs → d₁.world = d.world →
      (∀ q ∈ d₁.procs, q.live = true → q ∈ held ∨ ∃ y ∈ xs, y ≠ x ∧ q = s.waiting py y) →
      C d₁ (.arrive (.deliver x.1 s.workerBatchSize))) :
    ∃ d', (workers py files).Reaches C d d' ∧ d'.world = d.world ∧
      d'.Holds (xs.map (s.waiting py) ++ held) := by
  induction xs generalizing d held with
  | nil => exact ⟨d, .refl, rfl, h⟩
  | cons x rest ih =>
    obtain ⟨hx, hrest⟩ := List.nodup_cons.mp hnodup
    have hclaim : d.world.stream.claim x.1 = some (d.world.stream, x.2) := by
      unfold Stream.claim
      rw [hpend x List.mem_cons_self]
    have harrive : (workers py files).arrive (.deliver x.1 s.workerBatchSize) d.world =
        some (d.world, some (s.attempt x, processEntry py s.workerBatchSize x.1 x.2)) := by
      simp only [workers, Arrival.apply, hclaim, Option.map_some]
      rfl
    obtain ⟨d₁, hn, hworld, h₁⟩ := h.start harrive
    have hC₁ : C d (.arrive (.deliver x.1 s.workerBatchSize)) :=
      hC d x List.mem_cons_self rfl fun q hq hlive => .inl (h.mem_of_live hq hlive)
    obtain ⟨d₂, hreach, hworld₂, h₂⟩ := ih h₁ hrest
      (fun y hy => by rw [hworld]; exact hpend y (List.mem_cons_of_mem _ hy))
      (fun d₂ y hy hworld₂ hlive₂ => by
        refine hC d₂ y (List.mem_cons_of_mem _ hy) (hworld₂.trans hworld) fun q hq hlive => ?_
        rcases hlive₂ q hq hlive with hheld | ⟨z, hz, hne, rfl⟩
        · rcases List.mem_cons.mp hheld with rfl | hheld
          · exact .inr ⟨x, List.mem_cons_self, fun hxy => hx (hxy ▸ hy), rfl⟩
          · exact .inl hheld
        · exact .inr ⟨z, List.mem_cons_of_mem _ hz, hne, rfl⟩)
    exact ⟨d₂, (System.Reaches.refl.tail hC₁ hn).trans hreach, hworld₂.trans hworld,
      h₂.perm List.perm_middle⟩

/-- One worker is replaced: it is enough to say what the new one holds. -/
theorem Mirrors.replace {others : List AttemptProc} {b : Backend} {q : WorkerProcess}
    (h : Mirrors py c d) (hothers : (c.held py).Perm (p.held py ++ others))
    (hset : (Fleet.held py ⟨b, c.workers.set i q⟩).Perm (q.held py ++ others))
    (hentries : b.stream.entries = c.backend.stream.entries)
    (hdelivered : c.backend.stream.delivered ≤ b.stream.delivered)
    (hworld : d'.world = b.world) (hholds : d'.Holds (q.held py ++ others))
    (hnew : ∀ x ∈ q.held py, b.stream.entries[x.tag.entry]? = some x.tag.importJobId ∧
      x.tag.entry < b.stream.delivered) : Mirrors py ⟨b, c.workers.set i q⟩ d' := by
  refine ⟨hworld, hholds.perm hset.symm, fun x hx => ?_, by rw [hentries]; exact h.nodup⟩
  rcases List.mem_append.mp (hset.mem_iff.mp hx) with hx | hx
  · exact hnew x hx
  · obtain ⟨hentry, hlt⟩ := h.entry x (hothers.mem_iff.mpr (List.mem_append_right _ hx))
    exact ⟨by rw [hentries]; exact hentry, hlt.trans_le hdelivered⟩

/-- What a worker is handed is known by its position. -/
theorem waiting_entry {s : WorkerSettings} {g : Group Uuid String} {es : List ℕ} {q : AttemptProc}
    (hq : q ∈ (g.fetch es).map (s.waiting py)) :
    q.tag.entry ∈ es ∧ g.entries[q.tag.entry]? = some q.tag.importJobId := by
  obtain ⟨x, hx, rfl⟩ := List.mem_map.mp hq
  exact Group.mem_fetch.mp hx

/-- An attempt at another entry is an attempt at another job. -/
theorem importJobId_ne {l : List Uuid} (hnodup : l.Nodup) {e e' : ℕ} {id id' : Uuid}
    (h : l[e]? = some id) (h' : l[e']? = some id') (hne : e ≠ e') : id ≠ id' := by
  rintro rfl
  obtain ⟨hlt, rfl⟩ := List.getElem?_eq_some_iff.mp h
  obtain ⟨hlt', heq⟩ := List.getElem?_eq_some_iff.mp h'
  exact hne ((List.Nodup.getElem_inj_iff hnodup).mp heq).symm

/-- `XAUTOCLAIM` hands entries to a worker: the attempts start. -/
theorem Mirrors.reclaim (files : String → Option Csv) (hcarry : Carries py K C)
    (h : Mirrors py c d) (hK : K c (.step i f))
    (hp : c.workers[i]? = some p) (hctl : p.control = .reclaim) {g : Group Uuid String}
    {es : List ℕ}
    (hclaim : c.backend.stream.xautoclaim p.settings.consumerName p.settings.workerClaimIdleMs 50
      c.backend.redisTime = some (g, es)) :
    ∃ d', (workers py files).Reaches C d d' ∧ d'.world = d.world ∧
      d'.Holds ((g.fetch es).map (p.settings.waiting py) ++ c.held py) := by
  obtain ⟨-, -, hg⟩ := Group.xautoclaim_eq_some hclaim
  have hentries : g.entries = c.backend.stream.entries := by rw [hg]; rfl
  have hstream : d.world.stream = streamOf c.backend.stream := congrArg World.stream h.world
  refine holds_deliverAll h.holds ?_ ?_ ?_
  · refine List.Nodup.of_map Prod.fst ?_
    rw [Group.fetch_xautoclaim hclaim]
    exact Group.nodup_of_xautoclaim hclaim
  · intro x hx
    obtain ⟨he, hid⟩ := Group.mem_fetch.mp hx
    rw [hstream]
    exact getElem?_streamOf_pending (Group.isPending_of_xautoclaim hclaim he) (hentries ▸ hid)
  · intro d₁ x hx hworld hlive
    obtain ⟨he, hid⟩ := Group.mem_fetch.mp hx
    refine hcarry.deliver c i f d₁ x.1 _ hK fun hundisturbed s id hs q hq hl => ?_
    have hq' := hundisturbed p hp hctl g es hclaim
    -- the entry of a running attempt is another one
    have hother : q.tag.entry ≠ x.1 ∧
        c.backend.stream.entries[q.tag.entry]? = some q.tag.importJobId := by
      rcases hlive q hq hl with hheld | ⟨y, hy, hne, rfl⟩
      · exact ⟨fun heq => hq' q hheld (heq ▸ he), (h.entry q hheld).1⟩
      · obtain ⟨-, hy'⟩ := Group.mem_fetch.mp hy
        refine ⟨fun heq => hne (Prod.ext heq ?_), hentries ▸ hy'⟩
        have heq' : y.1 = x.1 := heq
        rw [heq', hid] at hy'
        exact (Option.some.inj hy').symm
    obtain ⟨⟨y, hy, -⟩, -, -⟩ := Stream.claim_eq_some hs
    rw [hworld, hstream, getElem?_streamOf] at hy
    obtain ⟨id', hid', heq⟩ := Option.map_eq_some_iff.mp hy
    cases heq
    exact importJobId_ne h.nodup hother.2 hid' hother.1

/-- `XREADGROUP` hands at most one entry to a worker: the attempt starts. -/
theorem Mirrors.read (files : String → Option Csv) (hcarry : Carries py K C)
    (h : Mirrors py c d) (hK : K c (.step i f))
    {s : WorkerSettings} {g : Group Uuid String} {es : List ℕ} {now : ℕ}
    (hread : c.backend.stream.xreadgroup s.consumerName 1 now = some (g, es)) :
    ∃ d', (workers py files).Reaches C d d' ∧
      d'.world = { c.backend with stream := g }.world ∧
      d'.Holds ((g.fetch es).map (s.waiting py) ++ c.held py) := by
  obtain ⟨-, -, hentries, -, -, -⟩ := Group.xreadgroup_eq_some hread
  rcases streamOf_xreadgroup hread with ⟨rfl, hsame⟩ | ⟨id, rfl, hid, hclaim⟩
  · refine ⟨d, .refl, ?_, h.holds⟩
    rw [h.world]
    exact congrArg (World.mk c.backend.db · c.backend.cache c.backend.clock) hsame.symm
  · have hfetch : g.fetch [c.backend.stream.delivered] = [(c.backend.stream.delivered, id)] := by
      simp only [Group.fetch, List.filterMap_cons, hentries, hid, Option.map_some,
        List.filterMap_nil]
    have harrive : (workers py files).arrive
        (.deliver c.backend.stream.delivered s.workerBatchSize) d.world =
        some ({ c.backend with stream := g }.world,
          some (s.attempt (c.backend.stream.delivered, id),
            processEntry py s.workerBatchSize c.backend.stream.delivered id)) := by
      have hclaim' : c.backend.world.stream.claim c.backend.stream.delivered =
          some (streamOf g, id) := hclaim
      simp only [workers, Arrival.apply, h.world, hclaim', Option.map_some]
      rfl
    obtain ⟨d', hn, hworld, hholds⟩ := h.holds.start harrive
    refine ⟨d', System.Reaches.refl.tail ?_ hn, hworld, by rw [hfetch]; exact hholds⟩
    refine hcarry.deliver c i f d _ _ hK fun _ s' id' hs q hq hl => ?_
    obtain ⟨hentry, hlt⟩ := h.entry q (h.holds.mem_of_live hq hl)
    obtain ⟨⟨y, hy, -⟩, -, -⟩ := Stream.claim_eq_some hs
    rw [h.world, Backend.world, getElem?_streamOf] at hy
    obtain ⟨id'', hid'', heq⟩ := Option.map_eq_some_iff.mp hy
    cases heq
    exact importJobId_ne h.nodup hentry hid'' (Nat.ne_of_lt hlt)

section Worker

variable {b : Backend} {src : Source} {t : Attempt} {rest : List (ℕ × Uuid)}

/-- A worker goes from a point where it holds nothing to another one. -/
theorem Mirrors.quiet {ctl : Control} (h : Mirrors py c d) (hp : c.workers[i]? = some p)
    (hnil : p.held py = []) (hnil' : WorkerProcess.held py { p with control := ctl } = [])
    (hw : b.world = c.backend.world) (he : b.stream.entries = c.backend.stream.entries)
    (hd : b.stream.delivered = c.backend.stream.delivered) :
    Mirrors py ⟨b, c.workers.set i { p with control := ctl }⟩ d := by
  obtain ⟨others, hothers, hset⟩ := Fleet.held_perm py hp
  have hholds := h.holds.perm hothers
  rw [hnil] at hholds
  refine h.replace hothers (hset _ _) he (Nat.le_of_eq hd.symm) (h.world.trans hw.symm) ?_ ?_
  · rw [hnil']
    exact hholds
  · rw [hnil']
    exact fun q hq => by cases hq

/-- A worker that held nothing goes over the entries it was handed. -/
theorem Mirrors.handed (src : Source) {g : Group Uuid String} {es : List ℕ}
    (h : Mirrors py c d) (hp : c.workers[i]? = some p) (hnil : p.held py = [])
    (he : g.entries = c.backend.stream.entries)
    (hd : c.backend.stream.delivered ≤ g.delivered) (hlt : ∀ e ∈ es, e < g.delivered)
    (hw : d'.world = { c.backend with stream := g }.world)
    (hholds : d'.Holds ((g.fetch es).map (p.settings.waiting py) ++ c.held py)) :
    Mirrors py ⟨{ c.backend with stream := g },
      c.workers.set i { p with control := p.settings.loop py src (g.fetch es) }⟩ d' := by
  obtain ⟨others, hothers, hset⟩ := Fleet.held_perm py hp
  rw [hnil] at hothers
  refine h.replace (by rw [hnil]; exact hothers) (hset _ _) he hd hw ?_ ?_
  · rw [held_loop]
    exact hholds.perm (hothers.append_left _)
  · rw [held_loop]
    intro q hq
    obtain ⟨hmem, hid⟩ := waiting_entry hq
    exact ⟨hid, hlt _ hmem⟩

/-- The attempt in the hands of a worker performs an operation. -/
theorem Mirrors.call (hcarry : Carries py K C) (h : Mirrors py c d) (hK : K c (.step i f))
    (hp : c.workers[i]? = some p) {o : WorkerOp} {k : o.Ans → EntryCall}
    (hctl : p.control = .process src t (.call o k) rest) :
    ∃ d', (workers py files).Reaches C d d' ∧ Mirrors py ⟨(c.backend.exec files o f).1,
      c.workers.set i { p with
        control := .process src t (k (c.backend.exec files o f).2) rest }⟩ d' := by
  obtain ⟨others, hothers, hset⟩ := Fleet.held_perm py hp
  have hheld : p.held py = ⟨t, some (.call o k)⟩ :: rest.map (p.settings.waiting py) := by
    rw [WorkerProcess.held, hctl]
  have hholds := h.holds.perm hothers
  rw [hheld] at hholds
  obtain ⟨hw, hans⟩ := c.backend.world_exec files o f
  obtain ⟨he, hd⟩ := c.backend.stream_exec files o f
  obtain ⟨j, d', hj, hn, hworld, hd'⟩ := hholds.run (S := workers py files) f
  have hC := hcarry.run c i f p src t o k rest hK hp hctl d j h.world hj
  have hexec : (workers py files).exec o f d.world = o.exec files f c.backend.world := by
    rw [h.world]
    rfl
  rw [hexec] at hworld hd'
  refine ⟨d', System.Reaches.refl.tail hC hn, h.replace hothers (hset _ _) he
    (Nat.le_of_eq hd.symm) (hworld.trans hw.symm) ?_ fun x hx => ?_⟩
  · rw [← hans] at hd'
    exact hd'
  · have hmem : ∀ y ∈ p.held py, y ∈ c.held py := fun y hy =>
      hothers.mem_iff.mpr (List.mem_append_left _ hy)
    rw [hheld] at hmem
    rw [he, hd]
    rcases List.mem_cons.mp hx with rfl | hx
    · exact h.entry ⟨t, some (.call o k)⟩ (hmem _ List.mem_cons_self)
    · exact h.entry x (hmem x (List.mem_cons_of_mem _ hx))

/-- The attempt has returned, and the next one gets its turn. -/
theorem Mirrors.returned (hcarry : Carries py K C) (h : Mirrors py c d)
    (hp : c.workers[i]? = some p) {u : Unit}
    (hctl : p.control = .process src t (.done (.ok u)) rest) :
    ∃ d', (workers py files).Reaches C d d' ∧
      Mirrors py ⟨c.backend, c.workers.set i { p with
        control := p.settings.loop py src rest }⟩ d' := by
  obtain ⟨others, hothers, hset⟩ := Fleet.held_perm py hp
  have hheld : p.held py = ⟨t, some (.done (.ok u))⟩ :: rest.map (p.settings.waiting py) := by
    rw [WorkerProcess.held, hctl]
  rw [hheld] at hothers
  obtain ⟨d', hreach, hw, hd'⟩ :=
    Pool.Holds.drop (S := workers py files) hcarry.crash (h.holds.perm hothers)
  refine ⟨d', hreach, h.replace (by rw [hheld]; exact hothers) (hset _ _) rfl (Nat.le_refl _)
    (hw.trans h.world) ?_ ?_⟩
  · rw [held_loop]
    exact hd'
  · rw [held_loop]
    intro q hq
    exact h.entry q (hothers.mem_iff.mpr (List.mem_append_left _ (List.mem_cons_of_mem _ hq)))

/-- A worker drops what it holds. -/
theorem Mirrors.drop (files : String → Option Csv) (hcarry : Carries py K C) (h : Mirrors py c d)
    (hp : c.workers[i]? = some p) (ctl : Control)
    (hnil : WorkerProcess.held py { p with control := ctl } = []) :
    ∃ d', (workers py files).Reaches C d d' ∧
      Mirrors py ⟨c.backend, c.workers.set i { p with control := ctl }⟩ d' := by
  obtain ⟨others, hothers, hset⟩ := Fleet.held_perm py hp
  obtain ⟨d', hreach, hw, hd'⟩ :=
    Pool.Holds.drop_append (S := workers py files) hcarry.crash (h.holds.perm hothers)
  refine ⟨d', hreach, h.replace hothers (hset _ _) rfl (Nat.le_refl _) (hw.trans h.world) ?_ ?_⟩
  · rw [hnil]
    exact hd'
  · rw [hnil]
    exact fun q hq => by cases hq

end Worker

/-- One step of a worker is matched by events of the system of workers. -/
theorem Mirrors.step (hcarry : Carries py K C) (h : Mirrors py c d) (hK : K c (.step i f))
    (hp : c.workers[i]? = some p) {b : Backend} {ctl : Control}
    (hs : p.step py files f c.backend = some (b, ctl)) :
    ∃ d', (workers py files).Reaches C d d' ∧
      Mirrors py ⟨b, c.workers.set i { p with control := ctl }⟩ d' := by
  obtain ⟨s, sd, pc⟩ := p
  cases pc with
  | starting =>
    obtain ⟨hw, he, hd⟩ := c.backend.world_ensureGroup f
    simp only [WorkerProcess.step] at hs
    split at hs <;>
    · cases hs
      exact ⟨d, .refl, h.quiet hp rfl rfl hw he hd⟩
  | test =>
    cases hs
    cases sd <;> exact ⟨d, .refl, h.quiet hp rfl rfl rfl rfl rfl⟩
  | sleep =>
    cases hs
    exact ⟨d, .refl, h.quiet hp rfl rfl rfl rfl rfl⟩
  | stopped => cases hs
  | reclaim =>
    cases hs
    rcases Backend.receive_cases c.backend (c.backend.stream.xautoclaim s.consumerName
      s.workerClaimIdleMs 50 c.backend.redisTime) f with hr | ⟨g, es, hclaim, hr⟩
    · rw [Backend.reclaimStaleJobs, hr]
      exact ⟨d, .refl, h.quiet hp rfl rfl rfl rfl rfl⟩
    · obtain ⟨-, -, hg⟩ := Group.xautoclaim_eq_some hclaim
      have hworld : { c.backend with stream := g }.world = c.backend.world := by
        rw [hg]
        exact congrArg (World.mk c.backend.db · c.backend.cache c.backend.clock)
          (streamOf_claimIdle _ _ _ _ _)
      rcases hr with hr | hr
      · rw [Backend.reclaimStaleJobs, hr]
        obtain ⟨d', hreach, hw, hd'⟩ := h.reclaim files hcarry hK hp rfl hclaim
        have hlt : ∀ e ∈ es, e < g.delivered := fun e he => by
          rw [hg]
          exact c.backend.stream.pending_lt _ (Group.isPending_of_xautoclaim hclaim he)
        exact ⟨d', hreach, h.handed .reclaimed hp rfl (by rw [hg]; rfl)
          (Nat.le_of_eq (by rw [hg]; rfl)) hlt (hw.trans (h.world.trans hworld.symm)) hd'⟩
      · rw [Backend.reclaimStaleJobs, hr]
        exact ⟨d, .refl, h.quiet hp rfl rfl hworld (by rw [hg]; rfl) (by rw [hg]; rfl)⟩
  | process src t q rest =>
    match q, hs with
    | .call o k, hs =>
      cases hs
      exact h.call hcarry hK hp rfl
    | .done (.ok u), hs =>
      cases hs
      exact h.returned hcarry hp rfl
    | .done (.error e), hs =>
      cases hs
      exact h.drop files hcarry hp .sleep rfl
  | read =>
    cases hs
    rcases Backend.receive_cases c.backend (c.backend.stream.xreadgroup s.consumerName 1
      c.backend.redisTime) f with hr | ⟨g, es, hread, hr⟩
    · rw [Backend.readNewJobs, hr]
      exact ⟨d, .refl, h.quiet hp rfl rfl rfl rfl rfl⟩
    · obtain ⟨-, hes, he, -, hdel, -⟩ := Group.xreadgroup_eq_some hread
      obtain ⟨d', hreach, hw, hd'⟩ := h.read files hcarry hK hread
      have hhanded : Mirrors py ⟨{ c.backend with stream := g },
          c.workers.set i ⟨s, sd, s.loop py .new (g.fetch es)⟩⟩ d' := by
        refine h.handed .new hp rfl he (by rw [hdel]; exact Nat.le_add_right _ _) (fun e hmem => ?_)
          hw hd'
        rw [hes] at hmem
        rw [hdel, hes, Group.length_news]
        exact (Group.mem_news.mp hmem).2
      rcases hr with hr | hr
      · rw [Backend.readNewJobs, hr]
        exact ⟨d', hreach, hhanded⟩
      · -- the reply is lost, and what it would have handed out with it
        rw [Backend.readNewJobs, hr]
        obtain ⟨hlt, -⟩ := List.getElem?_eq_some_iff.mp hp
        obtain ⟨d'', hreach', hdropped⟩ := hhanded.drop files hcarry
          (List.getElem?_set_self hlt) .sleep rfl
        rw [List.set_set] at hdropped
        exact ⟨d'', hreach.trans hreach', hdropped⟩

/-- What an event does to a fleet. -/
theorem Fleet.next_cases {c c' : Fleet} {e : FleetEvent} (h : c.next py files e = some c') :
    (∃ i f p b ctl, e = .step i f ∧ c.workers[i]? = some p ∧
      p.step py files f c.backend = some (b, ctl) ∧
      c' = ⟨b, c.workers.set i { p with control := ctl }⟩) ∨
    (∃ i p, e = .signal i ∧ c.workers[i]? = some p ∧
      c' = ⟨c.backend, c.workers.set i { p with shutdown := true }⟩) ∨
    (∃ i p, e = .kill i ∧ c.workers[i]? = some p ∧
      c' = ⟨c.backend, c.workers.set i { p with control := .stopped }⟩) ∨
    (∃ s, e = .start s ∧ c' = ⟨c.backend, c.workers ++ [⟨s, false, .starting⟩]⟩) ∨
    (∃ id clientId name path key, e = .create id clientId name path key ∧
      c.backend.world.unused id = true ∧ c' = ⟨{ c.backend with db := { c.backend.db with
        jobs := c.backend.db.jobs ++ [ImportJob.queued id clientId name path key] } }, c.workers⟩) ∨
    (e = .createGroup ∧
      c' = ⟨{ c.backend with stream := c.backend.stream.create }, c.workers⟩) ∨
    (∃ id, e = .enqueue id ∧ (c.backend.db.job id).isSome ∧ id ∉ c.backend.stream.entries ∧
      c' = ⟨{ c.backend with stream := c.backend.stream.xadd id }, c.workers⟩) ∨
    ∃ ms, e = .tick ms ∧
      c' = ⟨{ c.backend with redisTime := c.backend.redisTime + ms }, c.workers⟩ := by
  cases e with
  | step i f =>
    obtain ⟨p, hp, hs⟩ := Option.bind_eq_some_iff.mp h
    obtain ⟨⟨b, ctl⟩, hstep, rfl⟩ := Option.map_eq_some_iff.mp hs
    exact .inl ⟨i, f, p, b, ctl, rfl, hp, hstep, rfl⟩
  | signal i =>
    obtain ⟨p, hp, rfl⟩ := Option.map_eq_some_iff.mp h
    exact .inr (.inl ⟨i, p, rfl, hp, rfl⟩)
  | kill i =>
    obtain ⟨p, hp, rfl⟩ := Option.map_eq_some_iff.mp h
    exact .inr (.inr (.inl ⟨i, p, rfl, hp, rfl⟩))
  | start s =>
    cases h
    exact .inr (.inr (.inr (.inl ⟨s, rfl, rfl⟩)))
  | create id clientId name path key =>
    simp only [Fleet.next] at h
    cases hu : c.backend.world.unused id with
    | false =>
      rw [hu] at h
      cases h
    | true =>
      rw [hu] at h
      cases h
      exact .inr (.inr (.inr (.inr (.inl ⟨id, clientId, name, path, key, rfl, hu, rfl⟩))))
  | createGroup =>
    cases h
    exact .inr (.inr (.inr (.inr (.inr (.inl ⟨rfl, rfl⟩)))))
  | enqueue id =>
    simp only [Fleet.next] at h
    split at h
    · next hcond =>
      cases h
      exact .inr (.inr (.inr (.inr (.inr (.inr (.inl ⟨id, rfl, hcond.1, hcond.2, rfl⟩))))))
    · cases h
  | tick ms =>
    cases h
    exact .inr (.inr (.inr (.inr (.inr (.inr (.inr ⟨ms, rfl, rfl⟩))))))

/-- A job is enqueued in the stream if it is an entry of the group. -/
theorem enqueued_streamOf {γ : Type} {g : Group Uuid γ} {id : Uuid} :
    (streamOf g).Enqueued id ↔ id ∈ g.entries := by
  unfold streamOf Stream.Enqueued
  simp only [List.mem_mapIdx]
  constructor
  · rintro ⟨x, ⟨i, hi, rfl⟩, rfl⟩
    exact List.getElem_mem hi
  · intro hid
    obtain ⟨i, hi, rfl⟩ := List.getElem_of_mem hid
    exact ⟨_, ⟨i, hi, rfl⟩, rfl⟩

/-- One event of a fleet is matched by events of the system of workers. -/
theorem Mirrors.next (hcarry : Carries py K C) {c' : Fleet} {e : FleetEvent} (h : Mirrors py c d)
    (hK : K c e) (hn : (fleet py files).next c e = some c') :
    ∃ d', (workers py files).Reaches C d d' ∧ Mirrors py c' d' := by
  rcases Fleet.next_cases hn with ⟨i, f, p, b, ctl, rfl, hp, hs, rfl⟩ | ⟨i, p, rfl, hp, rfl⟩ |
    ⟨i, p, rfl, hp, rfl⟩ | ⟨s, rfl, rfl⟩ | ⟨id, clientId, name, path, key, rfl, hunused, rfl⟩ |
    ⟨rfl, rfl⟩ | ⟨id, rfl, hjob, hnew, rfl⟩ | ⟨ms, rfl, rfl⟩
  · exact h.step hcarry hK hp hs
  · obtain ⟨others, hothers, hset⟩ := Fleet.held_perm py hp
    have hsame : WorkerProcess.held py { p with shutdown := true } = p.held py := rfl
    refine ⟨d, .refl, h.replace hothers (hset _ _) rfl (Nat.le_refl _) h.world ?_ ?_⟩
    · rw [hsame]
      exact h.holds.perm hothers
    · exact fun x hx => h.entry x (hothers.mem_iff.mpr (List.mem_append_left _ hx))
  · obtain ⟨others, hothers, hset⟩ := Fleet.held_perm py hp
    obtain ⟨d', hreach, hw, hd'⟩ :=
      Pool.Holds.drop_append (S := workers py files) hcarry.crash (h.holds.perm hothers)
    exact ⟨d', hreach, h.replace hothers (hset _ _) rfl (Nat.le_refl _) (hw.trans h.world) hd'
      fun q hq => by cases hq⟩
  · have hheld : Fleet.held py ⟨c.backend, c.workers ++ [⟨s, false, .starting⟩]⟩ = c.held py := by
      unfold Fleet.held
      rw [List.flatMap_append]
      exact List.append_nil _
    refine ⟨d, .refl, h.world, ?_, ?_, h.nodup⟩ <;> rw [hheld]
    · exact h.holds
    · exact h.entry
  · have harrive : (workers py files).arrive (.create id clientId name path key) d.world =
        some ({ c.backend.world with db := { c.backend.db with
          jobs := c.backend.db.jobs ++ [ImportJob.queued id clientId name path key] } }, none) := by
      simp only [workers, Arrival.apply, h.world, hunused, cond_true]
      rfl
    obtain ⟨d', hn', hw, hd'⟩ := h.holds.arrive harrive
    exact ⟨d', System.Reaches.refl.tail (hcarry.create _ _ _ _ _ _) hn', hw, hd', h.entry, h.nodup⟩
  · exact ⟨d, .refl, h.world, h.holds, h.entry, h.nodup⟩
  · have harrive : (workers py files).arrive (.enqueue id) d.world =
        some ({ c.backend.world with stream := (streamOf c.backend.stream).xadd id }, none) := by
      have hcond : (c.backend.world.db.job id).isSome ∧ ¬ c.backend.world.stream.Enqueued id :=
        ⟨hjob, fun henq => hnew (enqueued_streamOf.mp henq)⟩
      simp only [workers, Arrival.apply, h.world, hcond, not_false_eq_true, and_self, if_true]
      rfl
    obtain ⟨d', hn', hw, hd'⟩ := h.holds.arrive harrive
    refine ⟨d', System.Reaches.refl.tail (hcarry.enqueue _ _) hn', ?_, hd', fun q hq => ?_, ?_⟩
    · rw [hw, ← streamOf_xadd]
      rfl
    · obtain ⟨hentry, hlt⟩ := h.entry q hq
      refine ⟨?_, hlt⟩
      obtain ⟨hlen, -⟩ := List.getElem?_eq_some_iff.mp hentry
      exact (List.getElem?_append_left hlen).trans hentry
    · exact List.nodup_append.mpr ⟨h.nodup, List.nodup_singleton id,
        fun a ha b hb => by rw [List.mem_singleton.mp hb]; exact fun hab => hnew (hab ▸ ha)⟩
  · exact ⟨d, .refl, h.world, h.holds, h.entry, h.nodup⟩

/-- A fleet without workers is mirrored by a pool without programs. -/
theorem Mirrors.start {b : Backend} (hb : b.stream.entries.Nodup) :
    Mirrors py ⟨b, []⟩ ⟨b.world, []⟩ :=
  ⟨rfl, ⟨[], (fun t ht => by cases ht), .refl _⟩, (fun q hq => by cases hq), hb⟩

/-- Every run of a fleet is matched by a run of the system of workers. -/
theorem Carries.reaches (hcarry : Carries py K C) {c' : Fleet} (h : Mirrors py c d)
    (hc : (fleet py files).Reaches K c c') :
    ∃ d', (workers py files).Reaches C d d' ∧ Mirrors py c' d' :=
  hc.simulate (fun _ => .refl) (fun _ _ _ => System.Reaches.trans)
    (fun _ _ _ _ hR hK hn => hR.next hcarry hK hn) h

/-- Without conditions on either side. -/
theorem carries_true (py : Python) : Carries py (fun _ _ => True) fun _ _ => True :=
  ⟨fun _ _ => trivial, fun _ _ _ _ _ _ => trivial, fun _ _ => trivial,
    fun _ _ _ _ _ _ _ _ _ _ _ _ _ _ _ _ => trivial, fun _ _ _ _ _ _ _ _ => trivial⟩

/-- Any number of worker processes, however they are started, signalled, killed and interleaved and
whatever fails, do to the shared state what some run of the system of workers does; the attempts that
are running in it are those in the hands of the processes. -/
theorem fleet_refines_workers (py : Python) (files : String → Option Csv) {b : Backend}
    (hb : b.stream.entries.Nodup) {c : Fleet}
    (hc : (fleet py files).Reaches (fun _ _ => True) ⟨b, []⟩ c) :
    ∃ d : WorkerPool, (workers py files).Reaches (fun _ _ => True) ⟨b.world, []⟩ d ∧
      d.world = c.backend.world ∧
      ∃ idle, (∀ p ∈ idle, p.live = false) ∧ d.procs.Perm (c.held py ++ idle) := by
  obtain ⟨d, hd, hmirror⟩ := (carries_true py).reaches (.start hb) hc
  exact ⟨d, hd, hmirror.world, hmirror.holds⟩

theorem sampleFleet_completed :
    ((fleet .ascii (sampleFiles sampleCsv)).perform (fun _ _ => true) ⟨sampleBackend, []⟩
      (.start sampleSettings :: steps 0 22)).bind (fun c =>
        (c.backend.world.db.job sampleId).map ImportJob.status) = some .COMPLETED := by
  decide +kernel

/-- A worker process imports the sample file, and so does the run of the system that matches it. -/
theorem sample_fleet_refines_workers :
    ∃ (c : Fleet) (d : WorkerPool) (job : ImportJob),
      (fleet .ascii (sampleFiles sampleCsv)).Reaches (fun _ _ => True) ⟨sampleBackend, []⟩ c ∧
      (workers .ascii (sampleFiles sampleCsv)).Reaches (fun _ _ => True) ⟨sampleBackend.world, []⟩ d ∧
      d.world = c.backend.world ∧ d.world.db.job sampleId = some job ∧ job.status = .COMPLETED := by
  obtain ⟨c, hc, hout⟩ := Option.bind_eq_some_iff.mp sampleFleet_completed
  obtain ⟨job, hjob, hst⟩ := Option.map_eq_some_iff.mp hout
  have hc' : (fleet .ascii (sampleFiles sampleCsv)).Reaches (fun _ _ => True)
      ⟨sampleBackend, []⟩ c := Machine.reaches_of_perform (fun _ _ _ => trivial) hc
  obtain ⟨d, hd, hworld, -⟩ := fleet_refines_workers .ascii (sampleFiles sampleCsv)
    (List.nodup_singleton sampleId) hc'
  exact ⟨c, d, job, hc', hd, hworld, by rw [hworld]; exact hjob, hst⟩

end Refinement

end TransactionPlatform
