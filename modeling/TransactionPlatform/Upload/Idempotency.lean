import TransactionPlatform.Upload.Rows

/-!
# Concurrent retries agree on one job

Any number of requests with one idempotency key race for one row.  The unique constraint lets one
commit through; the others find the row before their insert or after it, remove their files and
return the winner's job.  `concurrent_retries_agree` follows the table, the stream and the upload
directory through every interleaving of the calls, while workers may already process the winner.
-/

namespace TransactionPlatform

open Interleaved

/-- A request of the client that resolves to the key, passes the checks of the filename and the
size, and whose row fits the table. -/
structure Acceptable (svc : Service) (client : Uuid) (key : String) (r : Request) : Prop where
  client : r.clientId = client
  key : svc.idempotencyKey r = key
  passes : svc.Passes r
  storable : (svc.newJob r).storable = true

/-- The events of a race for one key: the requests are acceptable and no operation fails. -/
def RaceEvent (svc : Service) (client : Uuid) (key : String) (_ : UploadPool) : UploadEvent → Prop
  | .run _ f => f = .ok
  | .crash _ => False
  | .arrive (.request r) => Acceptable svc client key r
  | .arrive _ => True

instance (svc : Service) (client : Uuid) (key : String) (r : Request) :
    Decidable (Acceptable svc client key r) :=
  decidable_of_iff (r.clientId = client ∧ svc.idempotencyKey r = key ∧ svc.Passes r ∧
      (svc.newJob r).storable = true)
    ⟨fun ⟨hclient, hkey, hpasses, hstore⟩ => ⟨hclient, hkey, hpasses, hstore⟩,
      fun h => ⟨h.client, h.key, h.passes, h.storable⟩⟩

/-- How many entries of the stream carry the id. -/
def entriesOf (s : Stream) (id : Uuid) : ℕ := s.countP fun x => decide (x.importJobId = id)

/-- The table has a job with this key and this id. -/
def UploadWorld.KeyedJob (w : UploadWorld) (key : String) (id : Uuid) : Prop :=
  ∃ row ∈ w.db.jobs, row.id = id ∧ row.idempotencyKey = key

/-- At most one row has the key, and it is the row of one of the requests. -/
structure OneRow (key : String) (w : UploadWorld) : Prop where
  count : w.db.jobs.countP (fun row => decide (row.idempotencyKey = key)) ≤ 1
  owner : ∀ row ∈ w.db.jobs, row.idempotencyKey = key → ∃ r ∈ w.requests, r.jobId = row.id

/-- The traces of a request in the table, the stream and the upload directory. -/
structure Traces (svc : Service) (r : Request) (w : UploadWorld) (row : Bool) (entries : ℕ)
    (file : Option (List UInt8)) : Prop where
  row : w.HasJob r.jobId ↔ row = true
  entries : entriesOf w.stream r.jobId = entries
  file : w.files (svc.storagePath r.jobId) = file

/-- What holds of a request at each stage of its call. -/
def RaceAt (svc : Service) (key : String) (r : Request) (w : UploadWorld) : Stage → Prop
  | .start => Traces svc r w false 0 none
  | .writing written => Traces svc r w false 0 (some written)
  | .lookup => Traces svc r w false 0 (some r.content)
  | .insert => Traces svc r w false 0 (some r.content)
  | .found job => Traces svc r w false 0 (some r.content) ∧ w.KeyedJob key job.id
  | .raced => Traces svc r w false 0 (some r.content) ∧ ∃ id, w.KeyedJob key id
  | .discard => Traces svc r w false 0 (some r.content) ∧ ∃ id, w.KeyedJob key id
  | .reselect => Traces svc r w false 0 none ∧ ∃ id, w.KeyedJob key id
  | .refresh => Traces svc r w true 0 (some r.content)
  | .announce _ => Traces svc r w true 0 (some r.content)
  | .enqueue _ => Traces svc r w true 0 (some r.content)
  | .ended (.ok (job, false)) => Traces svc r w true 1 (some r.content) ∧ job.id = r.jobId
  | .ended (.ok (job, true)) => Traces svc r w false 0 none ∧ w.KeyedJob key job.id
  | .reject _ => False
  | .ended (.error _) => False

variable {svc : Service} {client : Uuid} {key : String} {r : Request} {o : UploadOp} {f : Fault}
variable {w w' : UploadWorld} {a a' : Stage}

/-! ### The call that moves -/

theorem Traces.setFile {row : Bool} {entries : ℕ} {file : Option (List UInt8)}
    (h : Traces svc r w row entries file) (content : Option (List UInt8)) :
    Traces svc r (w.setFile (svc.storagePath r.jobId) content) row entries content :=
  ⟨h.row, h.entries, Function.update_self ..⟩

theorem Traces.insert {entries : ℕ} {file : Option (List UInt8)}
    (h : Traces svc r w false entries file) :
    Traces svc r (w.insert (svc.newJob r)) true entries file := by
  refine ⟨⟨fun _ => rfl, fun _ => ?_⟩, h.entries, h.file⟩
  exact ⟨svc.newJob r, List.mem_append_right _ List.mem_cons_self, rfl⟩

theorem Traces.xadd {row : Bool} {n : ℕ} {file : Option (List UInt8)}
    (h : Traces svc r w row n file) :
    Traces svc r { w with stream := w.stream.xadd r.jobId } row (n + 1) file := by
  refine ⟨h.row, ?_, h.file⟩
  have hcount : entriesOf (w.stream.xadd r.jobId) r.jobId = entriesOf w.stream r.jobId + 1 := by
    simp [entriesOf, Stream.xadd]
  exact hcount.trans (by rw [h.entries])

theorem Traces.not_hasJob {entries : ℕ} {file : Option (List UInt8)}
    (h : Traces svc r w false entries file) : ¬ w.HasJob r.jobId := by
  intro hjob
  cases h.row.mp hjob

theorem keyedJob_of_jobByKey {job : ImportJob} (h : w.jobByKey key = some job) :
    w.KeyedJob key job.id :=
  ⟨job, List.mem_of_find?_eq_some h, rfl, UploadWorld.key_of_jobByKey h⟩

/-- A commit that conflicts while the id is new has met the key. -/
theorem exists_keyedJob_of_conflicts {job : ImportJob} (h : w.conflicts job = true)
    (hid : ¬ w.HasJob job.id) : ∃ id, w.KeyedJob job.idempotencyKey id := by
  obtain ⟨row, hrow, hcond⟩ := List.any_eq_true.mp h
  rcases of_decide_eq_true hcond with heq | heq
  · exact absurd ⟨row, hrow, heq⟩ hid
  · exact ⟨row.id, row, hrow, rfl, heq⟩

theorem RaceAt.advance (h : RaceAt svc key r w a) (hacc : Acceptable svc client key r)
    (hask : Asks svc r a o) (hadv : Advance svc r o w a a') :
    RaceAt svc key r (o.exec .ok w).1 a' := by
  cases hadv with
  | mkdir => exact h
  | openWrite => exact h.setFile _
  | read => exact h
  | tooLarge hlarge => exact absurd hacc.passes.size (Nat.not_le.mpr hlarge)
  | empty hempty => exact absurd hempty hacc.passes.nonempty
  | complete hpasses => exact h
  | @write _ written chunk =>
    have hfile := h.setFile (some ((w.files (svc.storagePath r.jobId)).getD [] ++ chunk))
    rw [h.file] at hfile
    change Traces svc r (w.setFile _ (some ((w.files (svc.storagePath r.jobId)).getD [] ++ chunk)))
      false 0 (some (written ++ chunk))
    rw [h.file]
    exact hfile
  | reject => exact h.elim
  | lookup =>
    change RaceAt svc key r w _
    rw [hacc.key]
    cases hjob : w.jobByKey key with
    | none => exact h
    | some job => exact ⟨h, keyedJob_of_jobByKey hjob⟩
  | found => exact ⟨h.1.setFile none, h.2⟩
  | inserted haccepts =>
    have hw : ((UploadOp.commitJob (svc.newJob r)).exec .ok w).1 = w.insert (svc.newJob r) :=
      congrArg Prod.fst (Fault.commitJob_of_accepts haccepts)
    rw [hw]
    exact Traces.insert h
  | refused hstore =>
    rw [hacc.storable] at hstore
    cases hstore
  | conflict _ hconf =>
    have hkey : (svc.newJob r).idempotencyKey = key := hacc.key
    rw [UploadWorld.exec_commitJob_of_conflicts hconf]
    refine ⟨h, ?_⟩
    rw [← hkey]
    exact exists_keyedJob_of_conflicts hconf (Traces.not_hasJob h)
  | rollback => exact h
  | unlink => exact ⟨h.1.setFile none, h.2⟩
  | winner hjob =>
    rw [hacc.key] at hjob
    exact ⟨h.1, keyedJob_of_jobByKey hjob⟩
  | noWinner hjob =>
    rw [hacc.key] at hjob
    obtain ⟨-, id, row, hrow, -, hkey⟩ := h
    exact List.find?_eq_none.mp hjob row hrow (decide_eq_true hkey)
  | refresh hjob => exact h
  | missing hjob => exact UploadWorld.not_hasJob_of_job hjob (h.row.mpr rfl)
  | ensureGroup => exact h
  | xadd =>
    cases hask with
    | enqueue hid => exact ⟨Traces.xadd h, hid⟩

/-- A move of the call, in a run without failures. -/
theorem RaceAt.move (h : RaceAt svc key r w a) (hacc : Acceptable svc client key r)
    (hmove : UploadMove svc r o .ok w a w' a') : RaceAt svc key r w' a' := by
  cases hmove with
  | ok hask hadv => exact h.advance hacc hask hadv
  | fail hask hf => exact absurd rfl hf

/-! ### The other calls -/

/-- Nothing changes for the request, and no job loses its key. -/
structure SameFor (svc : Service) (r : Request) (w w' : UploadWorld) : Prop where
  hasJob : w'.HasJob r.jobId ↔ w.HasJob r.jobId
  entries : entriesOf w'.stream r.jobId = entriesOf w.stream r.jobId
  file : w'.files (svc.storagePath r.jobId) = w.files (svc.storagePath r.jobId)
  keyed : ∀ key id, w.KeyedJob key id → w'.KeyedJob key id

theorem Traces.mono {row : Bool} {entries : ℕ} {file : Option (List UInt8)}
    (h : Traces svc r w row entries file) (hsame : SameFor svc r w w') :
    Traces svc r w' row entries file :=
  ⟨hsame.hasJob.trans h.row, hsame.entries.trans h.entries, hsame.file.trans h.file⟩

theorem RaceAt.mono (h : RaceAt svc key r w a) (hsame : SameFor svc r w w') :
    RaceAt svc key r w' a := by
  have hsome : (∃ id, w.KeyedJob key id) → ∃ id, w'.KeyedJob key id := by
    rintro ⟨id, hid⟩
    exact ⟨id, hsame.keyed key id hid⟩
  cases a with
  | start => exact Traces.mono h hsame
  | writing written => exact Traces.mono h hsame
  | reject e => exact h
  | lookup => exact Traces.mono h hsame
  | found job => exact ⟨h.1.mono hsame, hsame.keyed _ _ h.2⟩
  | insert => exact Traces.mono h hsame
  | raced => exact ⟨h.1.mono hsame, hsome h.2⟩
  | discard => exact ⟨h.1.mono hsame, hsome h.2⟩
  | reselect => exact ⟨h.1.mono hsame, hsome h.2⟩
  | refresh => exact Traces.mono h hsame
  | announce job => exact Traces.mono h hsame
  | enqueue job => exact Traces.mono h hsame
  | ended x =>
    match x, h with
    | .ok (job, false), h => exact ⟨h.1.mono hsame, h.2⟩
    | .ok (job, true), h => exact ⟨h.1.mono hsame, hsame.keyed _ _ h.2⟩
    | .error e, h => exact h

/-- A move of another call. -/
theorem UploadMove.sameFor {r' : Request} (hmove : UploadMove svc r' o f w a w' a')
    (hne : r.jobId ≠ r'.jobId) : SameFor svc r w w' := by
  rcases hmove.effect with rfl | ⟨content, rfl⟩ | ⟨-, -, -, -, rfl⟩ | ⟨-, -, -, rfl⟩
  · exact ⟨Iff.rfl, rfl, rfl, fun _ _ h => h⟩
  · refine ⟨Iff.rfl, rfl, Function.update_of_ne ?_ .., fun _ _ h => h⟩
    exact fun heq => hne (svc.storagePath_inj heq)
  · refine ⟨⟨?_, ?_⟩, rfl, rfl, ?_⟩
    · rintro ⟨row, hrow, hid⟩
      rcases List.mem_append.mp hrow with hrow | hrow
      · exact ⟨row, hrow, hid⟩
      · rw [List.mem_singleton.mp hrow] at hid
        exact absurd hid.symm hne
    · rintro ⟨row, hrow, hid⟩
      exact ⟨row, List.mem_append_left _ hrow, hid⟩
    · rintro key id ⟨row, hrow, h⟩
      exact ⟨row, List.mem_append_left _ hrow, h⟩
  · refine ⟨Iff.rfl, ?_, rfl, fun _ _ h => h⟩
    simp [entriesOf, Stream.xadd, hne.symm]

/-- The stream keeps its ids when an entry is handed out or acknowledged. -/
theorem Stream.ids_claim {s s' : Stream} {e : ℕ} {id : Uuid} (h : s.claim e = some (s', id)) :
    s'.map StreamEntry.importJobId = s.map StreamEntry.importJobId := by
  unfold Stream.claim at h
  split at h
  · next id' hs =>
    simp only [Option.some.injEq, Prod.mk.injEq] at h
    rw [← h.1, List.map_set]
    refine set_eq_self ?_
    rw [List.getElem?_map, hs]
    rfl
  · simp only [Option.some.injEq, Prod.mk.injEq] at h
    rw [h.1]
  · cases h

theorem Stream.ids_xack (s : Stream) (e : ℕ) :
    (s.xack e).map StreamEntry.importJobId = s.map StreamEntry.importJobId := by
  unfold Stream.xack
  split
  · next id hs =>
    rw [List.map_set]
    refine set_eq_self ?_
    rw [List.getElem?_map, hs]
    rfl
  · rfl

theorem entriesOf_congr {s s' : Stream} {id : Uuid}
    (h : s'.map StreamEntry.importJobId = s.map StreamEntry.importJobId) :
    entriesOf s' id = entriesOf s id := by
  have hmap : ∀ s : Stream, entriesOf s id =
      (s.map StreamEntry.importJobId).countP fun x => decide (x = id) := by
    intro s
    rw [List.countP_map]
    rfl
  rw [hmap, hmap, h]

/-- An arrival. -/
theorem UploadArrival.sameFor {x : UploadArrival}
    {p : Option (Request × Program UploadOp UploadOp.Ans (Except UploadExn (ImportJob × Bool)))}
    (hx : x.apply svc w = some (w', p)) : SameFor svc r w w' := by
  have hkept := UploadArrival.kept hx
  have hjob : w'.HasJob r.jobId ↔ w.HasJob r.jobId :=
    ⟨fun h => (hkept.new _ h).resolve_right nofun, hkept.jobs _⟩
  rcases UploadArrival.apply_cases hx with ⟨r', -, -, -, rfl⟩ | ⟨stream, -, rfl, hstream⟩ |
    ⟨row, -, -, -, rfl⟩
  · exact ⟨hjob, rfl, rfl, fun _ _ h => h⟩
  · refine ⟨hjob, entriesOf_congr ?_, rfl, fun _ _ h => h⟩
    rcases hstream with ⟨entry, id', -, hclaim⟩ | ⟨entry, -, rfl⟩
    · exact Stream.ids_claim hclaim
    · exact Stream.ids_xack w.stream entry
  · refine ⟨hjob, rfl, rfl, ?_⟩
    rintro key id ⟨old, hold, hid, hkey⟩
    have hup := upload_work row old
    refine ⟨_, List.mem_map_of_mem hold, ?_, ?_⟩
    · exact (congrArg Prod.fst hup).trans hid
    · exact (congrArg (fun u => u.2.2.2.2) hup).trans hkey

/-! ### The row of the key -/

theorem OneRow.move (h : OneRow key w) (hmove : UploadMove svc r o f w a w' a')
    (hr : r ∈ w.requests) (hkey : svc.idempotencyKey r = key) : OneRow key w' := by
  rcases hmove.effect with rfl | ⟨content, rfl⟩ | ⟨-, -, haccepts, -, rfl⟩ | ⟨-, -, -, rfl⟩
  · exact h
  · exact ⟨h.count, h.owner⟩
  · -- the unique constraint has let the row through, so nobody has the key
    have hnone : w.db.jobs.countP (fun row => decide (row.idempotencyKey = key)) = 0 := by
      refine List.countP_eq_zero.mpr fun row hrow hdec => ?_
      have hne := List.any_eq_false.mp (UploadWorld.accepts_iff.mp haccepts).2 row hrow
      rw [decide_eq_true_eq] at hne
      exact hne (.inr ((of_decide_eq_true hdec).trans hkey.symm))
    refine ⟨?_, ?_⟩
    · have happend : (w.db.jobs ++ [svc.newJob r]).countP
          (fun row => decide (row.idempotencyKey = key)) ≤ 1 := by
        rw [List.countP_append, hnone, Nat.zero_add]
        exact List.countP_le_length
      exact happend
    · intro row hrow hrowkey
      rcases List.mem_append.mp hrow with hrow | hrow
      · exact h.owner row hrow hrowkey
      · rw [List.mem_singleton.mp hrow]
        exact ⟨r, hr, rfl⟩
  · exact ⟨h.count, h.owner⟩

theorem OneRow.arrive {x : UploadArrival}
    {p : Option (Request × Program UploadOp UploadOp.Ans (Except UploadExn (ImportJob × Bool)))}
    (h : OneRow key w) (hx : x.apply svc w = some (w', p)) : OneRow key w' := by
  rcases UploadArrival.apply_cases hx with ⟨r', -, -, -, rfl⟩ | ⟨stream, -, rfl, -⟩ |
    ⟨row, -, -, -, rfl⟩
  · refine ⟨h.count, fun row hrow hkey => ?_⟩
    obtain ⟨r, hr, hid⟩ := h.owner row hrow hkey
    exact ⟨r, List.mem_append_left _ hr, hid⟩
  · exact ⟨h.count, h.owner⟩
  · have hkey : ∀ old : ImportJob,
        (if old.id = row.id then old.overwrite row else old).idempotencyKey = old.idempotencyKey :=
      fun old => congrArg (fun u => u.2.2.2.2) (upload_work row old)
    refine ⟨?_, ?_⟩
    · have hcount : (w.db.updateJob row.id fun old => old.overwrite row).jobs.countP
          (fun row => decide (row.idempotencyKey = key)) =
          w.db.jobs.countP (fun row => decide (row.idempotencyKey = key)) := by
        rw [Db.updateJob, KeyedTable.updateKey, List.countP_map]
        refine List.countP_congr fun old _ => ?_
        rw [Function.comp_apply, hkey]
      exact Nat.le_trans (Nat.le_of_eq hcount) h.count
    · intro new hnew hnewkey
      obtain ⟨old, hold, rfl⟩ := List.mem_map.mp hnew
      obtain ⟨r, hr, hid⟩ := h.owner old hold ((hkey old).symm.trans hnewkey)
      exact ⟨r, hr, hid.trans (congrArg Prod.fst (upload_work row old)).symm⟩

/-- Two rows with the key are the same row. -/
theorem OneRow.eq_of_key (h : OneRow key w) {row row' : ImportJob} (hrow : row ∈ w.db.jobs)
    (hrow' : row' ∈ w.db.jobs) (hkey : row.idempotencyKey = key)
    (hkey' : row'.idempotencyKey = key) : row = row' := by
  have hmem : ∀ x ∈ w.db.jobs, x.idempotencyKey = key →
      x ∈ w.db.jobs.filter fun x => decide (x.idempotencyKey = key) :=
    fun x hx hxkey => List.mem_filter.mpr ⟨hx, decide_eq_true hxkey⟩
  have hle := h.count
  rw [List.countP_eq_length_filter] at hle
  have h1 := hmem row hrow hkey
  have h2 := hmem row' hrow' hkey'
  revert hle h1 h2
  cases w.db.jobs.filter fun x => decide (x.idempotencyKey = key) with
  | nil => nofun
  | cons x l =>
    intro hle h1 h2
    have hnil : l = [] := List.length_eq_zero_iff.mp (by rw [List.length_cons] at hle; omega)
    rw [hnil, List.mem_singleton] at h1 h2
    exact h1.trans h2.symm

/-! ### All runs -/

/-- The outline of the race. -/
def raceOutline (svc : Service) (client : Uuid) (key : String) :
    Outline UploadWorld Request Stage where
  Inv := OneRow key
  Loc r a w := Acceptable svc client key r ∧ Owned svc r w ∧ RaceAt svc key r w a
  Guar _ _ := True

theorem raceOutline_sound (svc : Service) (client : Uuid) (key : String) :
    (raceOutline svc client key).Sound (uploads svc)
      (fun c e => RaceEvent svc client key c e ∧ Logged c) (UploadMove svc)
      fun _ x a => a = .ended x := by
  refine uploads_sound ?_ ?_
  · intro c ph i r o k f a' hold hC hi hmove
    obtain ⟨hacc, hown, hat⟩ := hold.loc i r _ hi
    have hinv : OneRow key c.world := hold.inv
    obtain rfl : f = .ok := hC.1
    have hr : r ∈ c.world.requests := hC.2.mem_requests hi
    refine ⟨hinv.move hmove hr hacc.key, ⟨hacc, hown.move hmove, hat.move hacc hmove⟩, trivial,
      fun j r' p' hji hj => ?_⟩
    obtain ⟨hacc', hown', hat'⟩ := hold.loc j r' p' hj
    have hne : r'.jobId ≠ r.jobId := fun heq => hji (hC.2.index_eq hj hi heq)
    exact ⟨hacc', hown'.kept hmove.kept (fun heq => hne (Option.some.inj heq).symm),
      hat'.mono (hmove.sameFor hne)⟩
  · intro c ph x w p hold hC hx
    have hinv : OneRow key c.world := hold.inv
    refine ⟨hinv.arrive hx, trivial, fun i r p hi => ?_, fun r q hp => ?_⟩
    · obtain ⟨hacc, hown, hat⟩ := hold.loc i r p hi
      exact ⟨hacc, hown.kept (UploadArrival.kept hx) nofun, hat.mono (UploadArrival.sameFor hx)⟩
    · subst hp
      obtain ⟨rfl, hu, -, rfl⟩ := UploadArrival.request_of_apply hx
      have hacc : Acceptable svc client key r := hC.1
      have hnone : ¬ c.world.HasJob r.jobId := UploadWorld.not_hasJob_of_unused hu
      obtain ⟨-, hstream, hfile, -⟩ := UploadWorld.unused_iff.mp hu
      refine ⟨hacc, fun row hrow hid => absurd ⟨row, hrow, hid⟩ hnone, ?_⟩
      rw [Stage.initial, if_pos hacc.passes.isCsv]
      refine ⟨⟨fun hjob => absurd hjob hnone, nofun⟩, ?_, hfile⟩
      refine List.countP_eq_zero.mpr fun x hx hdec => ?_
      exact hstream ⟨x, hx, of_decide_eq_true hdec⟩

/-- A call that has returned in the race is the winner, or has found a job with the key. -/
theorem RaceAt.returned {x : Except UploadExn (ImportJob × Bool)}
    (h : RaceAt svc key r w (.ended x)) :
    (∃ job, x = .ok (job, false) ∧ Traces svc r w true 1 (some r.content) ∧ job.id = r.jobId) ∨
    ∃ job, x = .ok (job, true) ∧ Traces svc r w false 0 none ∧ w.KeyedJob key job.id := by
  match x, h with
  | .ok (job, false), h => exact .inl ⟨job, rfl, h.1, h.2⟩
  | .ok (job, true), h => exact .inr ⟨job, rfl, h.1, h.2⟩
  | .error e, h => exact h.elim

/-- The race is over: every call has returned. -/
structure Settled (svc : Service) (client : Uuid) (key : String) (c : UploadPool) : Prop where
  oneRow : OneRow key c.world
  logged : Logged c
  returned : ∀ (j : ℕ) (p : UploadProc), c.procs[j]? = some p → ∃ x, p.result = some x ∧
    Acceptable svc client key p.tag ∧ Owned svc p.tag c.world ∧
    RaceAt svc key p.tag c.world (.ended x)

namespace Settled

variable {c : UploadPool} {i j : ℕ} {p q : UploadProc} {row : ImportJob}

/-- A call that has a row has the row of the key. -/
theorem row_of_hasJob (h : Settled svc client key c) (hj : c.procs[j]? = some p)
    (hjob : c.world.HasJob p.tag.jobId) :
    ∃ row ∈ c.world.db.jobs, row.idempotencyKey = key ∧ row.id = p.tag.jobId ∧
      row.storagePath = svc.storagePath p.tag.jobId := by
  obtain ⟨row, hrow, hid⟩ := hjob
  obtain ⟨x, -, hacc, hown, -⟩ := h.returned j p hj
  have hup := hown row hrow hid
  have hkey : row.idempotencyKey = svc.idempotencyKey p.tag :=
    congrArg (fun u => u.2.2.2.2) hup
  exact ⟨row, hrow, hkey.trans hacc.key, hid, congrArg (fun u => u.2.2.2.1) hup⟩

/-- Some call has found or made a row. -/
theorem exists_row (h : Settled svc client key c) (hne : c.procs ≠ []) :
    ∃ row ∈ c.world.db.jobs, row.idempotencyKey = key := by
  obtain ⟨p, hp⟩ := List.exists_mem_of_ne_nil _ hne
  obtain ⟨j, hj⟩ := List.mem_iff_getElem?.mp hp
  obtain ⟨x, -, -, -, hat⟩ := h.returned j p hj
  rcases hat.returned with ⟨job, -, htr, -⟩ | ⟨job, -, -, row, hrow, -, hkey⟩
  · obtain ⟨row, hrow, hkey, -⟩ := h.row_of_hasJob hj (htr.row.mpr rfl)
    exact ⟨row, hrow, hkey⟩
  · exact ⟨row, hrow, hkey⟩

/-- The row belongs to one of the calls, the winner. -/
theorem exists_winner (h : Settled svc client key c) (hrow : row ∈ c.world.db.jobs)
    (hkey : row.idempotencyKey = key) :
    ∃ (i : ℕ) (p : UploadProc), c.procs[i]? = some p ∧ p.tag.jobId = row.id ∧
      (∃ job, p.result = some (.ok (job, false)) ∧ job.id = row.id) ∧
      Traces svc p.tag c.world true 1 (some p.tag.content) ∧
      row.storagePath = svc.storagePath p.tag.jobId := by
  obtain ⟨winner, hwinner, hwid⟩ := h.oneRow.owner row hrow hkey
  rw [h.logged.requests] at hwinner
  obtain ⟨p, hp, rfl⟩ := List.mem_map.mp hwinner
  obtain ⟨i, hi⟩ := List.mem_iff_getElem?.mp hp
  have hjob : c.world.HasJob p.tag.jobId := ⟨row, hrow, hwid.symm⟩
  have hpath : row.storagePath = svc.storagePath p.tag.jobId := by
    obtain ⟨row', hrow', hkey', -, hpath⟩ := h.row_of_hasJob hi hjob
    rw [h.oneRow.eq_of_key hrow hrow' hkey hkey']
    exact hpath
  obtain ⟨x, hx, -, -, hat⟩ := h.returned i p hi
  rcases hat.returned with ⟨job, rfl, htr, hid⟩ | ⟨job, -, htr, -⟩
  · exact ⟨i, p, hi, hwid, ⟨job, hx, hid.trans hwid⟩, htr, hpath⟩
  · exact absurd hjob htr.not_hasJob

/-- The other calls have lost: they return the row of the winner and leave no file. -/
theorem lost (h : Settled svc client key c) (hrow : row ∈ c.world.db.jobs)
    (hkey : row.idempotencyKey = key) (hi : c.procs[i]? = some p) (hwid : p.tag.jobId = row.id)
    (hj : c.procs[j]? = some q) (hji : j ≠ i) :
    (∃ job, q.result = some (.ok (job, true)) ∧ job.id = row.id) ∧
      c.world.files (svc.storagePath q.tag.jobId) = none := by
  obtain ⟨y, hy, -, -, hat⟩ := h.returned j q hj
  rcases hat.returned with ⟨job, -, htr, -⟩ | ⟨job, rfl, htr, row', hrow', hid', hkey'⟩
  · obtain ⟨row', hrow', hkey', hid', -⟩ := h.row_of_hasJob hj (htr.row.mpr rfl)
    rw [h.oneRow.eq_of_key hrow' hrow hkey' hkey] at hid'
    exact absurd (h.logged.index_eq hj hi (hid'.symm.trans hwid.symm)) hji
  · rw [h.oneRow.eq_of_key hrow' hrow hkey' hkey] at hid'
    exact ⟨⟨job, hy, hid'.symm⟩, htr.file⟩

end Settled

/-- Concurrent retries agree on one job.  For any number of acceptable requests of one client with
one key that no job had, in any interleaving without failures: the calls can always be completed,
and once they are, exactly one row has the key, all calls return its id, exactly one of them as a
new job, one entry of the stream carries the id, and of the files the calls wrote the winner's is
left, with the winner's content, at the path of the job. -/
theorem concurrent_retries_agree (svc : Service) (client : Uuid) (key : String) {w : UploadWorld}
    (hlog : w.requests = []) (hfree : ∀ row ∈ w.db.jobs, row.idempotencyKey ≠ key) {c : UploadPool}
    (hc : (uploads svc).Reaches (RaceEvent svc client key) ⟨w, []⟩ c) :
    (∃ d, (uploads svc).Reaches (RaceEvent svc client key) c d ∧
      d.procs.map Proc.tag = c.procs.map Proc.tag ∧ ∀ p ∈ d.procs, p.live = false) ∧
    (c.procs ≠ [] → (∀ p ∈ c.procs, p.live = false) →
      ∃ (i : ℕ) (winner : Request) (row : ImportJob),
        (c.procs[i]?).map Proc.tag = some winner ∧
        row ∈ c.world.db.jobs ∧ row.idempotencyKey = key ∧
        c.world.db.jobs.countP (fun row => decide (row.idempotencyKey = key)) = 1 ∧
        (∀ (j : ℕ) (p : UploadProc), c.procs[j]? = some p →
          ∃ job, p.result = some (.ok (job, decide (j ≠ i))) ∧ job.id = row.id) ∧
        entriesOf c.world.stream row.id = 1 ∧
        row.storagePath = svc.storagePath winner.jobId ∧
        c.world.files row.storagePath = some winner.content ∧
        ∀ (j : ℕ) (p : UploadProc), c.procs[j]? = some p → j ≠ i →
          c.world.files (svc.storagePath p.tag.jobId) = none) := by
  obtain ⟨hc', hlogged⟩ := Logged.reaches hlog hc
  have hinit : OneRow key w := by
    refine ⟨Nat.le_trans (Nat.le_of_eq (List.countP_eq_zero.mpr fun row hrow hdec => ?_))
      (Nat.zero_le 1), fun row hrow hkey => absurd hkey (hfree row hrow)⟩
    exact hfree row hrow (of_decide_eq_true hdec)
  obtain ⟨⟨ph, hold⟩, -⟩ := (raceOutline_sound svc client key).reaches
    (Outline.holds_empty hinit fun _ => .start) hc'
  have hintact : System.Intact c := by
    refine (hc.strengthen (P := System.Intact) (fun p hp => by cases hp) ?_).2
    intro c e d h hC hn
    refine h.next ?_ hn
    rintro i rfl
    exact hC
  constructor
  · obtain ⟨d, hreach, htags, hdone⟩ := System.exists_reaches_returned (S := uploads svc)
      (C := RaceEvent svc client key) (f := .ok) (fun _ _ => rfl) hintact
    refine ⟨d, hreach, htags, fun p hp => ?_⟩
    obtain ⟨x, hx⟩ := hdone p hp
    exact Proc.live_of_result hx
  · intro hne hquiet
    have hsettled : Settled svc client key c := by
      refine ⟨hold.inv, hlogged, fun j p hj => ?_⟩
      have hp := List.mem_of_getElem? hj
      obtain ⟨x, hx⟩ := Proc.exists_result (hquiet p hp) (hintact p hp)
      obtain ⟨hfinal, hacc, hown, hat⟩ := hold.of_result hj hx
      rw [hfinal] at hat
      exact ⟨x, hx, hacc, hown, hat⟩
    obtain ⟨row, hrow, hkey⟩ := hsettled.exists_row hne
    obtain ⟨i, p, hi, hwid, hwon, htr, hpath⟩ := hsettled.exists_winner hrow hkey
    have hcount : c.world.db.jobs.countP (fun row => decide (row.idempotencyKey = key)) = 1 := by
      refine Nat.le_antisymm hsettled.oneRow.count (List.countP_pos_iff.mpr ⟨row, hrow, ?_⟩)
      exact decide_eq_true hkey
    refine ⟨i, p.tag, row, by rw [hi]; rfl, hrow, hkey, hcount, ?_, ?_, hpath, ?_, ?_⟩
    · intro j q hj
      by_cases hji : j = i
      · subst hji
        rw [hi] at hj
        cases hj
        rw [decide_eq_false (not_not.mpr rfl)]
        exact hwon
      · rw [decide_eq_true hji]
        exact (hsettled.lost hrow hkey hi hwid hj hji).1
    · rw [← hwid]
      exact htr.entries
    · rw [hpath]
      exact htr.file
    · intro j q hj hji
      exact (hsettled.lost hrow hkey hi hwid hj hji).2

/-- A test for `RaceEvent`. -/
def raceTest (svc : Service) (client : Uuid) (key : String) (_ : UploadPool) : UploadEvent → Bool
  | .run _ f => decide (f = .ok)
  | .crash _ => false
  | .arrive (.request r) => decide (Acceptable svc client key r)
  | .arrive _ => true

theorem raceEvent_of_test {c : UploadPool} {e : UploadEvent}
    (h : raceTest svc client key c e = true) : RaceEvent svc client key c e := by
  match e, h with
  | .run i f, h => exact of_decide_eq_true (p := f = .ok) h
  | .arrive (.request r), h => exact of_decide_eq_true (p := Acceptable svc client key r) h
  | .arrive (.claim entry), h => trivial
  | .arrive (.ack entry), h => trivial
  | .arrive (.work row), h => trivial

/-- Two calls that both find no job with their key. -/
def sampleRace : List UploadEvent :=
  .arrive (.request (sampleRequest firstClient firstJob)) ::
    .arrive (.request (sampleRequest firstClient secondJob)) ::
    (uploadRuns 0 6 ++ uploadRuns 1 6 ++ uploadRuns 0 4 ++ uploadRuns 1 4)

theorem sample_race_agrees :
    ∃ (c : UploadPool) (i : ℕ) (winner : Request) (row : ImportJob),
      (uploads sampleService).Reaches (RaceEvent sampleService firstClient "k1")
        ⟨emptyUploads, []⟩ c ∧
      c.procs.length = 2 ∧ (∀ p ∈ c.procs, p.live = false) ∧
      (c.procs[i]?).map Proc.tag = some winner ∧
      (∀ (j : ℕ) (p : UploadProc), c.procs[j]? = some p →
        ∃ job, p.result = some (.ok (job, decide (j ≠ i))) ∧ job.id = row.id) ∧
      entriesOf c.world.stream row.id = 1 ∧
      c.world.files row.storagePath = some winner.content := by
  have hrun : ((uploads sampleService).perform (raceTest sampleService firstClient "k1")
      ⟨emptyUploads, []⟩ sampleRace).map (fun c =>
        (decide (c.procs.length = 2), c.procs.all fun p => !p.live)) = some (true, true) := by
    decide +kernel
  obtain ⟨c, hc, hout⟩ := Option.map_eq_some_iff.mp hrun
  simp only [Prod.mk.injEq, decide_eq_true_eq, List.all_eq_true, Bool.not_eq_true'] at hout
  obtain ⟨hlen, hquiet⟩ := hout
  have hreach : (uploads sampleService).Reaches (RaceEvent sampleService firstClient "k1")
      ⟨emptyUploads, []⟩ c := System.reaches_of_perform (fun _ _ => raceEvent_of_test) hc
  have hne : c.procs ≠ [] := by
    intro hnil
    rw [hnil] at hlen
    cases hlen
  obtain ⟨i, winner, row, hwinner, -, -, -, hresults, hentries, -, hfile, -⟩ :=
    (concurrent_retries_agree sampleService firstClient "k1" (w := emptyUploads) rfl
      (fun row hrow => by cases hrow) hreach).2 hne hquiet
  exact ⟨c, i, winner, row, hreach, hlen, hquiet, hwinner, hresults, hentries, hfile⟩

/-- A key that is longer than the column is never stored.  The call passes the checks of the
filename and the size, no operation fails to reach Postgres, Redis or the disk, and yet no row has
the key: the `INSERT` is refused and the call raises. -/
theorem long_key_never_stored :
    sampleService.Passes longKeyRequest ∧ ∃ c : UploadPool, (uploads sampleService).Reaches
      (fun _ e => e = .arrive (.request longKeyRequest) ∨ ∃ i, e = .run i .ok)
      ⟨emptyUploads, []⟩ c ∧
      (∃ p, c.procs = [p] ∧ p.tag = longKeyRequest ∧ p.result = some (.error .DBAPIError)) ∧
      c.world.db.jobs.countP (fun row =>
        decide (row.idempotencyKey = sampleService.idempotencyKey longKeyRequest)) = 0 := by
  have hrun : ((uploads sampleService).perform (fun _ e =>
      match e with
      | .run _ f => decide (f = .ok)
      | .arrive (.request r) => decide (r = longKeyRequest)
      | _ => false) ⟨emptyUploads, []⟩
      (.arrive (.request longKeyRequest) :: uploadRuns 0 7)).map (fun c =>
        (c.procs.map fun p => (p.tag, p.result.map fun x => match x with
            | .ok _ => none
            | .error e => some e),
          c.world.db.jobs.length)) =
      some ([(longKeyRequest, some (some .DBAPIError))], 0) := by decide +kernel
  obtain ⟨c, hc, hout⟩ := Option.map_eq_some_iff.mp hrun
  obtain ⟨hprocs, hjobs⟩ := Prod.mk.inj hout
  refine ⟨by decide +kernel, c,
    System.reaches_of_perform (fun c e he => ?_) hc, ?_, ?_⟩
  · split at he
    · next i f => exact .inr ⟨i, by rw [of_decide_eq_true he]⟩
    · next r => exact .inl (by rw [of_decide_eq_true he])
    · cases he
  · obtain ⟨p, hp, heq⟩ := List.map_eq_singleton_iff.mp hprocs
    obtain ⟨x, hx, hopt⟩ := Option.map_eq_some_iff.mp (congrArg Prod.snd heq)
    refine ⟨p, hp, congrArg Prod.fst heq, ?_⟩
    cases x with
    | ok y => cases hopt
    | error e =>
      cases hopt
      exact hx
  · rw [List.length_eq_zero_iff.mp hjobs]
    rfl

end TransactionPlatform
