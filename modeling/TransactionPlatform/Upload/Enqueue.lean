import TransactionPlatform.Upload.Rows

/-!
# Accepted imports and the stream

`create_import` commits a job in Postgres and then adds its entry to the stream.  Between the two
the job exists only in the table: a crash or an exception there leaves a job that nobody processes,
and a retry with the same key finds the row and returns it without enqueueing it.
`accepted_import_enqueued` shows that this window is the only way to lose an accepted import.
-/

namespace TransactionPlatform

open Interleaved

/-- The row of the request is committed and its job is not in the stream. -/
def Window (w : UploadWorld) (r : Request) : Prop :=
  w.HasJob r.jobId ∧ ¬ w.stream.Enqueued r.jobId

instance (w : UploadWorld) (r : Request) : Decidable (Window w r) :=
  inferInstanceAs (Decidable (w.HasJob r.jobId ∧ ¬ w.stream.Enqueued r.jobId))

/-- Nothing goes wrong inside the window of a call: the call does not crash, its commit does not
lose the reply after it took effect, and no operation raises before the entry is in the stream. -/
def EnqueueSafe (c : UploadPool) : UploadEvent → Prop
  | .run i f => ∀ p ∈ c.procs[i]?, ∀ o k, p.prog = some (.call o k) → f ≠ .ok →
      (∀ job, o = .commitJob job → c.world.accepts job = true → f ≠ .lost) ∧
      (Window c.world p.tag → f = .lost ∧ ∃ id, o = .xadd id)
  | .crash i => ∀ p ∈ c.procs[i]?, ¬ Window c.world p.tag
  | .arrive _ => True

/-- No call looks a key up inside the window of another call with this key. -/
def LookupSafe (svc : Service) (c : UploadPool) : UploadEvent → Prop
  | .run i _ => ∀ p ∈ c.procs[i]?, ∀ key k, p.prog = some (.call (.selectByKey key) k) →
      ∀ q ∈ c.procs, q.live = true → Window c.world q.tag → svc.idempotencyKey q.tag ≠ key
  | _ => True

/-- What a call knows about its job: before the commit there is none, and when the call is over the
window is closed. -/
def EnqueuedAt (r : Request) (w : UploadWorld) : Stage → Prop
  | .found job => ¬ w.HasJob r.jobId ∧ w.HasJob job.id
  | .refresh => True
  | .announce _ => w.HasJob r.jobId
  | .enqueue _ => w.HasJob r.jobId
  | .ended x => ¬ Window w r ∧ ∀ job existing, x = .ok (job, existing) →
      w.HasJob job.id ∧ (existing = false → w.stream.Enqueued job.id)
  | _ => ¬ w.HasJob r.jobId

variable {svc : Service} {r : Request} {o : UploadOp} {f : Fault} {w w' : UploadWorld}
variable {a a' : Stage}

/-- A call that has raised without a job has closed its window. -/
theorem EnqueuedAt.raised {e : UploadExn} (h : ¬ Window w r) : EnqueuedAt r w (.ended (.error e)) :=
  ⟨h, nofun⟩

theorem not_window_of_not_hasJob (h : ¬ w.HasJob r.jobId) : ¬ Window w r := fun hwin => h hwin.1

/-! ### One move -/

/-- A move whose operation succeeds. -/
theorem EnqueuedAt.advance (h : EnqueuedAt r w a) (hask : Asks svc r a o)
    (hadv : Advance svc r o w a a') : EnqueuedAt r (o.exec .ok w).1 a' := by
  cases hadv with
  | mkdir => exact h
  | openWrite => exact h
  | read => exact h
  | tooLarge hlarge => exact h
  | empty hempty => exact h
  | complete hpasses => exact h
  | write => exact h
  | reject => exact .raised (not_window_of_not_hasJob h)
  | lookup =>
    change EnqueuedAt r w _
    cases hjob : w.jobByKey (svc.idempotencyKey r) with
    | none => exact h
    | some job => exact ⟨h, UploadWorld.hasJob_of_jobByKey hjob⟩
  | found =>
    refine ⟨not_window_of_not_hasJob h.1, ?_⟩
    rintro job existing heq
    cases heq
    exact ⟨h.2, nofun⟩
  | inserted hacc => trivial
  | conflict _ hconf =>
    rw [UploadWorld.exec_commitJob_of_conflicts hconf]
    exact h
  | refused hstore =>
    rw [UploadWorld.exec_commitJob_of_not_storable hstore]
    exact .raised (not_window_of_not_hasJob h)
  | rollback => exact h
  | unlink => exact h
  | winner hjob =>
    refine ⟨not_window_of_not_hasJob h, ?_⟩
    rintro job existing heq
    cases heq
    exact ⟨UploadWorld.hasJob_of_jobByKey hjob, nofun⟩
  | noWinner hjob => exact .raised (not_window_of_not_hasJob h)
  | refresh hjob => exact UploadWorld.hasJob_of_job hjob
  | missing hjob =>
    exact .raised (not_window_of_not_hasJob (UploadWorld.not_hasJob_of_job hjob))
  | ensureGroup => exact h
  | xadd =>
    have henq : ((UploadOp.xadd r.jobId).exec .ok w).1.stream.Enqueued r.jobId :=
      enqueued_xadd w.stream r.jobId
    refine ⟨fun hwin => hwin.2 henq, ?_⟩
    rintro job existing heq
    cases heq
    cases hask with
    | enqueue hid =>
      rw [hid]
      exact ⟨h, fun _ => henq⟩

/-- A move whose operation fails closes the window or was never in it. -/
theorem not_window_of_fail (hask : Asks svc r a o) (hf : f ≠ .ok)
    (hmove : UploadMove svc r o f w a w' a') (hw' : w' = (o.exec f w).1)
    (hcommit : ∀ job, o = .commitJob job → w.accepts job = true → f ≠ .lost)
    (hwindow : Window w r → f = .lost ∧ ∃ id, o = .xadd id) : ¬ Window w' r := by
  by_cases hwin : Window w r
  · obtain ⟨rfl, id, rfl⟩ := hwindow hwin
    cases hask with
    | enqueue hid =>
      rw [hw']
      exact fun hwin' => hwin'.2 (enqueued_xadd w.stream r.jobId)
  · rcases hmove.effect with rfl | ⟨content, rfl⟩ | ⟨-, rfl, hacc, hf', -⟩ | ⟨-, -, -, rfl⟩
    · exact hwin
    · exact hwin
    · exact absurd (hf'.resolve_left hf) (hcommit _ rfl hacc)
    · exact fun hwin' => hwin'.2 (enqueued_xadd w.stream r.jobId)

/-- What a call knows is not spoiled as long as nothing is deleted and nobody else has its id. -/
theorem EnqueuedAt.mono (h : EnqueuedAt r w a) (hown : w'.HasJob r.jobId → w.HasJob r.jobId)
    (hjobs : ∀ id, w.HasJob id → w'.HasJob id)
    (hstream : ∀ id, w.stream.Enqueued id → w'.stream.Enqueued id) : EnqueuedAt r w' a := by
  cases a with
  | found job => exact ⟨fun hjob => h.1 (hown hjob), hjobs _ h.2⟩
  | refresh => trivial
  | announce job => exact hjobs _ h
  | enqueue job => exact hjobs _ h
  | ended x =>
    refine ⟨fun hwin => h.1 ⟨hown hwin.1, fun henq => hwin.2 (hstream _ henq)⟩, ?_⟩
    intro job existing heq
    obtain ⟨h1, h2⟩ := h.2 job existing heq
    exact ⟨hjobs _ h1, fun hex => hstream _ (h2 hex)⟩
  | start => exact fun hjob => h (hown hjob)
  | writing written => exact fun hjob => h (hown hjob)
  | reject e => exact fun hjob => h (hown hjob)
  | lookup => exact fun hjob => h (hown hjob)
  | insert => exact fun hjob => h (hown hjob)
  | raced => exact fun hjob => h (hown hjob)
  | discard => exact fun hjob => h (hown hjob)
  | reselect => exact fun hjob => h (hown hjob)

/-! ### All runs -/

/-- The outline of the windows. -/
def enqueueOutline (svc : Service) : Outline UploadWorld Request Stage where
  Inv _ := True
  Loc r a w := Owned svc r w ∧ EnqueuedAt r w a
  Guar _ _ := True

/-- The call that makes a move keeps what it knows. -/
theorem EnqueuedAt.move (h : EnqueuedAt r w a)
    (hmove : UploadMove svc r o f w a (o.exec f w).1 a')
    (hsafe : f ≠ .ok → (∀ job, o = .commitJob job → w.accepts job = true → f ≠ .lost) ∧
      (Window w r → f = .lost ∧ ∃ id, o = .xadd id)) : EnqueuedAt r (o.exec f w).1 a' := by
  obtain ⟨w', hw'⟩ : ∃ w', w' = (o.exec f w).1 := ⟨_, rfl⟩
  rw [← hw'] at hmove ⊢
  cases hmove with
  | ok hask hadv => exact h.advance hask hadv
  | fail hask hf =>
    exact .raised (not_window_of_fail hask hf (.fail (e := .OSError) hask hf) rfl (hsafe hf).1
      (hsafe hf).2)

theorem enqueueOutline_sound (svc : Service) :
    (enqueueOutline svc).Sound (uploads svc) (fun c e => EnqueueSafe c e ∧ Logged c)
      (UploadMove svc) fun _ x a => a = .ended x := by
  refine uploads_sound ?_ ?_
  · intro c ph i r o k f a' hold hC hi hmove
    obtain ⟨hown, hat⟩ := hold.loc i r _ hi
    have hkept := hmove.kept
    refine ⟨trivial, ⟨hown.move hmove, hat.move hmove (hC.1 _ (Option.mem_def.mpr hi) o k rfl)⟩,
      trivial, fun j r' p' hji hj => ?_⟩
    obtain ⟨hown', hat'⟩ := hold.loc j r' p' hj
    have hne : r.jobId ≠ r'.jobId := fun heq => hji (hC.2.index_eq hi hj heq).symm
    refine ⟨hown'.kept hkept (fun heq => hne (Option.some.inj heq)),
      hat'.mono (fun hjob => ?_) hkept.jobs hkept.stream⟩
    rcases hkept.new _ hjob with hjob | heq
    · exact hjob
    · exact absurd (Option.some.inj heq) hne
  · intro c ph x w p hold _ hx
    have hkept := UploadArrival.kept hx
    refine ⟨trivial, trivial, fun i r p hi => ?_, fun r q hp => ?_⟩
    · obtain ⟨hown, hat⟩ := hold.loc i r p hi
      refine ⟨hown.kept hkept nofun, hat.mono (fun hjob => ?_) hkept.jobs hkept.stream⟩
      exact (hkept.new _ hjob).resolve_right nofun
    · subst hp
      obtain ⟨-, hu, -, rfl⟩ := UploadArrival.request_of_apply hx
      -- nobody has the id of a new request
      have hnone : ¬ c.world.HasJob r.jobId := UploadWorld.not_hasJob_of_unused hu
      refine ⟨fun row hrow hid => absurd ⟨row, hrow, hid⟩ hnone, ?_⟩
      unfold Stage.initial
      split
      · exact hnone
      · exact .raised (not_window_of_not_hasJob hnone)

/-- Every job is in the stream, or its call is running. -/
def Pursued (c : UploadPool) : Prop :=
  ∀ id, c.world.HasJob id → c.world.stream.Enqueued id ∨
    ∃ p ∈ c.procs, p.live = true ∧ p.tag.jobId = id

/-- The call of a job that is not in the stream goes on. -/
theorem Pursued.next {c d : UploadPool} {e : UploadEvent} {ph ph' : ℕ → Stage}
    (hold : UploadsHold svc (enqueueOutline svc) c ph) (h : Pursued c)
    (hC : EnqueueSafe c e ∧ Logged c) (hn : (uploads svc).next c e = some d)
    (hnew : UploadsHold svc (enqueueOutline svc) d ph') : Pursued d := by
  rcases System.next_cases hn with ⟨i, f, r, o, k, rfl, hi, rfl⟩ | ⟨i, r, o, k, rfl, hi, rfl⟩ |
    ⟨x, w, rfl, hx, rfl⟩ | ⟨x, w, r, p, rfl, hx, rfl⟩
  · obtain ⟨a', hmove, -⟩ := hold.follows i r _ hi f c.world
    have hkept : Kept (some r.jobId) c.world (o.exec f c.world).1 := hmove.kept
    obtain ⟨hlt, -⟩ := List.getElem?_eq_some_iff.mp hi
    have hset : (c.procs.set i ⟨r, some (k (o.exec f c.world).2)⟩)[i]? =
        some ⟨r, some (k (o.exec f c.world).2)⟩ := by
      rw [List.getElem?_set_self hlt]
    -- the job of the call that moves: the call goes on, or it is over
    have hmine : (o.exec f c.world).1.HasJob r.jobId →
        (o.exec f c.world).1.stream.Enqueued r.jobId ∨
          ∃ p ∈ c.procs.set i ⟨r, some (k (o.exec f c.world).2)⟩, p.live = true ∧
            p.tag.jobId = r.jobId := by
      intro hjob
      cases hprog : k (o.exec f c.world).2 with
      | call o' k' =>
        exact .inr ⟨_, List.mem_set hlt _, rfl, rfl⟩
      | done y =>
        have hdone : (c.procs.set i ⟨r, some (k (o.exec f c.world).2)⟩)[i]? =
            some ⟨r, some (.done y)⟩ := by rw [hset, hprog]
        obtain ⟨-, hat⟩ := hnew.loc i r (.done y) hdone
        have hended : ph' i = .ended y := hnew.follows i r (.done y) hdone
        rw [hended] at hat
        refine .inl ?_
        by_contra henq
        exact hat.1 ⟨hjob, henq⟩
    intro id hjob
    rcases hkept.new id hjob with hjob' | heq
    · rcases h id hjob' with henq | ⟨p, hp, hlive, rfl⟩
      · exact .inl (hkept.stream id henq)
      · obtain ⟨j, hj⟩ := List.mem_iff_getElem?.mp hp
        by_cases hji : j = i
        · subst hji
          rw [hi] at hj
          cases hj
          exact hmine hjob
        · exact .inr ⟨p, mem_set_of_ne hj hji, hlive, rfl⟩
    · cases heq
      exact hmine hjob
  · intro id hjob
    rcases h id hjob with henq | ⟨p, hp, hlive, rfl⟩
    · exact .inl henq
    · obtain ⟨j, hj⟩ := List.mem_iff_getElem?.mp hp
      by_cases hji : j = i
      · subst hji
        refine .inl ?_
        by_contra henq
        exact hC.1 p (Option.mem_def.mpr hj) ⟨hjob, henq⟩
      · exact .inr ⟨p, mem_set_of_ne hj hji, hlive, rfl⟩
  · have hkept := UploadArrival.kept hx
    intro id hjob
    rcases h id ((hkept.new id hjob).resolve_right nofun) with henq | hp
    · exact .inl (hkept.stream id henq)
    · exact .inr hp
  · have hkept := UploadArrival.kept hx
    intro id hjob
    rcases h id ((hkept.new id hjob).resolve_right nofun) with henq | ⟨p, hp, hp'⟩
    · exact .inl (hkept.stream id henq)
    · exact .inr ⟨p, List.mem_append_left _ hp, hp'⟩

/-! ### The job a call returns -/

/-- The job a call has found or returns is in the stream. -/
def ReturnedAt (w : UploadWorld) : Stage → Prop
  | .found job => w.stream.Enqueued job.id
  | .ended (.ok (job, _)) => w.stream.Enqueued job.id
  | _ => True

theorem ReturnedAt.mono (h : ReturnedAt w a)
    (hstream : ∀ id, w.stream.Enqueued id → w'.stream.Enqueued id) : ReturnedAt w' a := by
  cases a with
  | found job => exact hstream _ h
  | ended x =>
    cases x with
    | ok y => exact hstream _ h
    | error e => trivial
  | start => trivial
  | writing written => trivial
  | reject e => trivial
  | lookup => trivial
  | insert => trivial
  | raced => trivial
  | discard => trivial
  | reselect => trivial
  | refresh => trivial
  | announce job => trivial
  | enqueue job => trivial

/-- A call that only finds jobs in the stream only returns such jobs. -/
theorem ReturnedAt.move (h : ReturnedAt w a) (hmove : UploadMove svc r o f w a w' a')
    (hfound : ∀ key job, o = .selectByKey key → w.jobByKey key = some job →
      w.stream.Enqueued job.id) : ReturnedAt w' a' := by
  cases hmove with
  | fail hask hf => trivial
  | ok hask hadv =>
    cases hadv with
    | lookup =>
      change ReturnedAt w _
      cases hjob : w.jobByKey (svc.idempotencyKey r) with
      | none => trivial
      | some job => exact hfound _ job rfl hjob
    | found => exact h
    | winner hjob => exact hfound _ _ rfl hjob
    | xadd =>
      cases hask with
      | enqueue hid =>
        change Stream.Enqueued (w.stream.xadd r.jobId) _
        rw [hid]
        exact enqueued_xadd w.stream r.jobId
    | mkdir => trivial
    | openWrite => trivial
    | read => trivial
    | tooLarge hlarge => trivial
    | empty hempty => trivial
    | complete hpasses => trivial
    | write => trivial
    | reject => trivial
    | inserted hacc => trivial
    | conflict _ hconf => trivial
    | refused hstore => trivial
    | rollback => trivial
    | unlink => trivial
    | noWinner hjob => trivial
    | refresh hjob => trivial
    | missing hjob => trivial
    | ensureGroup => trivial

/-- The outline of the returned jobs. -/
def returnedOutline : Outline UploadWorld Request Stage where
  Inv _ := True
  Loc _ a w := ReturnedAt w a
  Guar _ _ := True

/-- A call that looks a key up outside of the windows of this key finds a job in the stream. -/
theorem enqueued_of_lookup {c : UploadPool} {key : String} {job : ImportJob}
    (hpursued : Pursued c) {ph : ℕ → Stage} (hold : UploadsHold svc (enqueueOutline svc) c ph)
    (hlookup : ∀ q ∈ c.procs, q.live = true → Window c.world q.tag →
      svc.idempotencyKey q.tag ≠ key) (hjob : c.world.jobByKey key = some job) :
    c.world.stream.Enqueued job.id := by
  have hmem : job ∈ c.world.db.jobs := List.mem_of_find?_eq_some hjob
  have hkey : job.idempotencyKey = key := UploadWorld.key_of_jobByKey hjob
  rcases hpursued job.id ⟨job, hmem, rfl⟩ with henq | ⟨⟨r, prog⟩, hq, hlive, hid⟩
  · exact henq
  · -- a call with this job is running, so it has this key
    by_contra henq
    obtain ⟨i, hi⟩ := List.mem_iff_getElem?.mp hq
    cases prog with
    | none => cases hlive
    | some prog =>
      obtain ⟨hown, -⟩ := hold.loc i r prog hi
      have hup := hown job hmem hid.symm
      have hkey' : job.idempotencyKey = svc.idempotencyKey r :=
        congrArg (fun u => u.2.2.2.2) hup
      refine hlookup _ hq hlive ⟨⟨job, hmem, hid.symm⟩, ?_⟩ (hkey'.symm.trans hkey)
      change ¬ c.world.stream.Enqueued r.jobId
      change r.jobId = job.id at hid
      rw [hid]
      exact henq

theorem returnedOutline_sound (svc : Service) :
    returnedOutline.Sound (uploads svc)
      (fun c e => ((EnqueueSafe c e ∧ LookupSafe svc c e) ∧ Logged c) ∧ Pursued c ∧
        ∃ ph, UploadsHold svc (enqueueOutline svc) c ph) (UploadMove svc)
      fun _ x a => a = .ended x := by
  refine uploads_sound ?_ ?_
  · intro c ph i r o k f a' hold hC hi hmove
    obtain ⟨⟨⟨-, hlookup⟩, -⟩, hpursued, ph₀, hold₀⟩ := hC
    have hkept := hmove.kept
    have hat : ReturnedAt c.world (ph i) := hold.loc i r _ hi
    refine ⟨trivial, hat.move hmove ?_, trivial,
      fun j r' p' _ hj => ReturnedAt.mono (hold.loc j r' p' hj) hkept.stream⟩
    rintro key job rfl hjob
    exact enqueued_of_lookup hpursued hold₀ (hlookup _ (Option.mem_def.mpr hi) key k rfl) hjob
  · intro c ph x w p hold _ hx
    have hkept := UploadArrival.kept hx
    refine ⟨trivial, trivial, fun i r p hi => ReturnedAt.mono (hold.loc i r p hi) hkept.stream,
      fun r q _ => ?_⟩
    change ReturnedAt w (.initial r)
    unfold Stage.initial
    split
    · trivial
    · trivial

/-! ### The result -/

/-- What is known of a run in which nothing goes wrong inside a window. -/
theorem pursued_reaches {C : UploadPool → UploadEvent → Prop} (hsafe : ∀ c e, C c e → EnqueueSafe c e)
    (hw : ∀ row ∈ w.db.jobs, w.stream.Enqueued row.id) (hlog : w.requests = []) {c : UploadPool}
    (hc : (uploads svc).Reaches C ⟨w, []⟩ c) :
    (uploads svc).Reaches (fun c e => (C c e ∧ Logged c) ∧ Pursued c ∧
        ∃ ph, UploadsHold svc (enqueueOutline svc) c ph) ⟨w, []⟩ c ∧ Pursued c ∧
      ∃ ph, UploadsHold svc (enqueueOutline svc) c ph := by
  obtain ⟨hc', -⟩ := Logged.reaches hlog hc
  have hsound : (enqueueOutline svc).Sound (uploads svc) (fun c e => C c e ∧ Logged c)
      (UploadMove svc) fun _ x a => a = .ended x :=
    (enqueueOutline_sound svc).mono fun c e hC => ⟨hsafe c e hC.1, hC.2⟩
  refine hsound.strengthen (Outline.holds_empty trivial fun _ => .start) ?_ ?_ hc'
  · rintro id ⟨row, hrow, rfl⟩
    exact .inl (hw row hrow)
  · exact fun c ph e d ph' hold hpursued hC hn hnew =>
      hpursued.next hold ⟨hsafe c e hC.1, hC.2⟩ hn hnew

/-- No accepted import is lost between Postgres and the stream.  If nothing goes wrong between the
commit of a call and its entry in the stream, then whenever no call is in progress every job is in
the stream, and so is every job a call has returned.  If in addition no call looks its key up in
this window of another call, then every job a call returns is in the stream when it returns. -/
theorem accepted_import_enqueued (svc : Service) {w : UploadWorld}
    (hw : ∀ row ∈ w.db.jobs, w.stream.Enqueued row.id) (hlog : w.requests = []) {c : UploadPool} :
    ((uploads svc).Reaches EnqueueSafe ⟨w, []⟩ c → (∀ p ∈ c.procs, p.live = false) →
      (∀ row ∈ c.world.db.jobs, c.world.stream.Enqueued row.id) ∧
      ∀ p ∈ c.procs, ∀ job existing, p.result = some (.ok (job, existing)) →
        c.world.stream.Enqueued job.id) ∧
    ((uploads svc).Reaches (fun c e => EnqueueSafe c e ∧ LookupSafe svc c e) ⟨w, []⟩ c →
      ∀ p ∈ c.procs, ∀ job existing, p.result = some (.ok (job, existing)) →
        c.world.stream.Enqueued job.id) := by
  constructor
  · intro hc hquiet
    obtain ⟨-, hpursued, ph, hold⟩ := pursued_reaches (fun _ _ h => h) hw hlog hc
    have hall : ∀ id, c.world.HasJob id → c.world.stream.Enqueued id := by
      intro id hjob
      rcases hpursued id hjob with henq | ⟨p, hp, hlive, -⟩
      · exact henq
      · rw [hquiet p hp] at hlive
        cases hlive
    refine ⟨fun row hrow => hall row.id ⟨row, hrow, rfl⟩, ?_⟩
    intro p hp job existing hresult
    obtain ⟨i, hi⟩ := List.mem_iff_getElem?.mp hp
    obtain ⟨hended, -, hat⟩ := hold.of_result hi hresult
    rw [hended] at hat
    exact hall job.id (hat.2 job existing rfl).1
  · intro hc p hp job existing hresult
    obtain ⟨hc', -⟩ := pursued_reaches (fun _ _ h => h.1) hw hlog hc
    obtain ⟨⟨ph, hold⟩, -⟩ := (returnedOutline_sound svc).reaches
      (Outline.holds_empty trivial fun _ => .start) hc'
    obtain ⟨i, hi⟩ := List.mem_iff_getElem?.mp hp
    obtain ⟨hended, hat⟩ := hold.of_result hi hresult
    rw [hended] at hat
    exact hat

/-- A test for `EnqueueSafe` and `LookupSafe`: everything succeeds, and no key is looked up while a
call is in its window. -/
def enqueueTest (c : UploadPool) : UploadEvent → Bool
  | .run i f => decide (f = .ok) &&
    match c.procs[i]? with
    | some ⟨_, some (.call (.selectByKey _) _)⟩ =>
      c.procs.all fun q => !q.live || !decide (Window c.world q.tag)
    | _ => true
  | .crash _ => false
  | .arrive _ => true

theorem enqueueSafe_of_test {c : UploadPool} {e : UploadEvent} (h : enqueueTest c e = true) :
    EnqueueSafe c e ∧ LookupSafe svc c e := by
  cases e with
  | run i f =>
    obtain ⟨hok, htest⟩ := Bool.and_eq_true_iff.mp h
    refine ⟨fun p hp o k hprog hf => absurd (of_decide_eq_true hok) hf, ?_⟩
    rintro ⟨r, prog⟩ hp key k rfl q hq hlive hwin
    rw [Option.mem_def.mp hp] at htest
    have hq' := List.all_eq_true.mp htest q hq
    rw [hlive, decide_eq_true hwin] at hq'
    cases hq'
  | crash i => cases h
  | arrive x => exact ⟨trivial, trivial⟩

/-- An upload that is accepted, and its retry. -/
def sampleRetry : List UploadEvent :=
  .arrive (.request (sampleRequest firstClient firstJob)) :: uploadRuns 0 10 ++
    .arrive (.request (sampleRequest firstClient secondJob)) :: uploadRuns 1 7

theorem sampleRetry_returned :
    ((uploads sampleService).perform enqueueTest ⟨emptyUploads, []⟩ sampleRetry).map (fun c =>
      (c.procs.map fun p => (answerOf p).map fun y => (y.1.id, y.2),
        c.world.db.jobs.map ImportJob.status)) =
      some ([some (firstJob, false), some (firstJob, true)], [.QUEUED]) := by
  decide +kernel

theorem sample_retry_enqueued :
    ∃ (c : UploadPool) (p : Proc Request UploadOp UploadOp.Ans
        (Except UploadExn (ImportJob × Bool))) (job : ImportJob),
      (uploads sampleService).Reaches (fun c e => EnqueueSafe c e ∧ LookupSafe sampleService c e)
        ⟨emptyUploads, []⟩ c ∧
      p ∈ c.procs ∧ p.result = some (.ok (job, true)) ∧ job.id = firstJob ∧
      c.world.stream.Enqueued firstJob := by
  obtain ⟨c, hc, hout⟩ := Option.map_eq_some_iff.mp sampleRetry_returned
  have hresults := (Prod.mk.inj hout).1
  have hc' : (uploads sampleService).Reaches
      (fun c e => EnqueueSafe c e ∧ LookupSafe sampleService c e) ⟨emptyUploads, []⟩ c :=
    System.reaches_of_perform (fun _ _ => enqueueSafe_of_test) hc
  have hmem : some (firstJob, true) ∈ c.procs.map fun p => (answerOf p).map fun y =>
      (y.1.id, y.2) := by
    rw [hresults]
    exact List.mem_cons_of_mem _ List.mem_cons_self
  obtain ⟨p, hp, hres⟩ := List.mem_map.mp hmem
  obtain ⟨⟨job, existing⟩, hanswer, hy⟩ := Option.map_eq_some_iff.mp hres
  obtain ⟨hid, rfl⟩ := Prod.mk.inj hy
  have hx := result_of_answerOf hanswer
  have henq := (accepted_import_enqueued sampleService (w := emptyUploads) (c := c)
    (fun row hrow => by cases hrow) rfl).2 hc' p hp job true hx
  rw [hid] at henq
  exact ⟨c, p, job, hc', hp, hx, hid, henq⟩

/-- An accepted import is lost.  The first call commits its job and Redis fails in `ensure_group`;
the retry with the same key returns the job.  No call is in progress, the job is `QUEUED`, and it is
not in the stream. -/
theorem accepted_import_lost :
    ∃ (c : UploadPool) (row : ImportJob),
      (uploads sampleService).Reaches (fun _ _ => True) ⟨emptyUploads, []⟩ c ∧
      (∀ p ∈ c.procs, p.live = false) ∧ row ∈ c.world.db.jobs ∧ row.status = .QUEUED ∧
      ¬ c.world.stream.Enqueued row.id ∧
      ∃ p ∈ c.procs, ∃ job, p.result = some (.ok (job, true)) ∧
        ¬ c.world.stream.Enqueued job.id := by
  have hrun : ((uploads sampleService).perform (fun _ _ => true) ⟨emptyUploads, []⟩
      (.arrive (.request (sampleRequest firstClient firstJob)) :: (uploadRuns 0 8 ++
        .run 0 .failed :: .arrive (.request (sampleRequest firstClient secondJob)) ::
          uploadRuns 1 7))).map (fun c =>
        (c.procs.all fun p => !p.live,
          c.world.db.jobs.any fun row =>
            decide (row.status = .QUEUED) && !decide (c.world.stream.Enqueued row.id),
          c.procs.any fun p => (answerOf p).any fun y =>
            y.2 && !decide (c.world.stream.Enqueued y.1.id))) = some (true, true, true) := by
    decide +kernel
  obtain ⟨c, hc, hout⟩ := Option.map_eq_some_iff.mp hrun
  simp only [Prod.mk.injEq, List.all_eq_true, List.any_eq_true, Option.any_eq_true,
    Bool.not_eq_true', Bool.and_eq_true, decide_eq_true_eq, decide_eq_false_iff_not] at hout
  obtain ⟨hquiet, ⟨row, hrow, hst, hlost⟩, p, hp, ⟨job, existing⟩, hanswer, rfl, hret⟩ := hout
  exact ⟨c, row, System.reaches_of_perform (fun _ _ _ => trivial) hc, hquiet, hrow, hst, hlost, p,
    hp, job, result_of_answerOf hanswer, hret⟩

end TransactionPlatform
