import TransactionPlatform.Worker.Walk

/-!
# No unfinished import is dropped

An entry is acknowledged by an attempt that has committed, or seen, a terminal status of its job.
The job is then finished as long as no other attempt writes an older status over it.  Every attempt
writes the status it has in memory, so an attempt that is overtaken by another one on the same entry
can put a job back to `PROCESSING` after the entry is gone.  `unfinished_job_unacked` shows that
this is the only way to lose a job.
-/

namespace TransactionPlatform

open Interleaved

/-- A commit puts a finished job back to an unfinished status only while the job can still be
delivered and no other attempt at it is running. -/
def OverwriteSafe (c : WorkerPool) : WorkerEvent → Prop
  | .run i _ => ∀ p ∈ c.procs[i]?, ∀ s k, p.prog = some (.call (.commit s) k) →
      ∀ st, s.writesStatus = some st → st.terminal = false →
      ∀ row, c.world.db.job s.current.id = some row → row.status.terminal = true →
      c.world.stream.Unacked s.current.id ∧
      ∀ (j : ℕ) (q : Proc Attempt WorkerOp WorkerOp.Ans (Except Exn Unit)), j ≠ i →
        c.procs[j]? = some q → q.live = true → q.tag.importJobId ≠ s.current.id
  | _ => True

/-- The invariant: every entry is about a job, and an enqueued job that is not finished can still be
delivered. -/
structure NotDropped (w : World) : Prop where
  exists_job : Populated w
  unacked : ∀ id row, w.db.job id = some row → row.status.terminal = false →
    w.stream.Enqueued id → w.stream.Unacked id

/-- The committed status of the job is terminal. -/
def Finished (t : Attempt) (w : World) : Prop :=
  ∃ row, w.db.job t.importJobId = some row ∧ row.status.terminal = true

/-- What an attempt knows about the committed status. -/
def StatusAt (t : Attempt) (w : World) : Phase → Prop
  | .giveUp job => job.status ≠ .COMPLETED ∧ (job.status.terminal = true → Finished t w)
  | .scan job _ => job.status.terminal = false
  | .ackTry _ => Finished t w
  | .ack => Finished t w
  | _ => True

/-- The entry of the attempt carries the id of its job. -/
def EntryOf (t : Attempt) (w : World) : Prop := ∃ y, w.stream[t.entry]? = some ⟨t.importJobId, y⟩

variable {py : Python} {files : String → Option Csv} {t : Attempt} {w w' : World}

/-- A phase that asks for nothing but a status that is still there. -/
theorem StatusAt.mono {a : Phase} (h : StatusAt t w a) (hfin : Finished t w → Finished t w') :
    StatusAt t w' a := by
  cases a with
  | giveUp job => exact ⟨h.1, fun hterm => hfin (h.2 hterm)⟩
  | ackTry job => exact hfin h
  | ack => exact hfin h
  | unread => trivial
  | start job => trivial
  | scan job base => exact h
  | handle s e => trivial
  | ended r => trivial

/-! ### The moves of one attempt -/

theorem status_loaded (h : NotDropped w) (hentry : EntryOf t w) :
    StatusAt t w (.loaded (w.db.job t.importJobId)) := by
  obtain ⟨y, hy⟩ := hentry
  obtain ⟨row, hrow⟩ := h.exists_job _ (List.mem_of_getElem? hy)
  rcases Phase.loaded_cases (w.db.job t.importJobId) with ⟨ha, hst⟩ | ⟨job, ha, hjob, hst, -⟩ |
    ⟨job, ha, -⟩
  · rw [ha]
    exact ⟨row, hrow, by rw [hst row hrow]; rfl⟩
  · rw [ha]
    exact ⟨hst, fun hterm => ⟨job, hjob, hterm⟩⟩
  · rw [ha]
    trivial

/-- A move without effect on the tables leads to a phase whose assertion holds. -/
theorem StatusAt.quiet {o : WorkerOp} {f : Fault} {a a' : Phase} (h : NotDropped w)
    (hentry : EntryOf t w) (ha : StatusAt t w a) (hq : Quiet py files t o f w.db a a') :
    StatusAt t w a' := by
  cases hq with
  | load => exact status_loaded h hentry
  | stay => exact ha
  | fail hr => cases hr <;> trivial
  | finish => trivial
  | unacked hid hf => trivial

/-- The status after a commit of the attempt: a commit that ends the import leaves a terminal
status. -/
theorem StatusAt.commit {a : Phase} {s : Session} {cont : ImportJob → Phase}
    (ha : StatusAt t w a) (hc : Commits py files t a s cont)
    (hrow : ∃ row, w.db.job t.importJobId = some row) (hdb : w'.db = s.commitDb w.db) :
    StatusAt t w' (cont (s.commitJob w.db)) := by
  obtain ⟨row, hrow⟩ := hrow
  have hid : s.current.id = t.importJobId := by
    cases hc <;> assumption
  obtain ⟨row', hrow', hst⟩ := Session.status_commitDb (by rw [hid]; exact hrow)
  rw [hid, ← hdb] at hrow'
  -- a status that is written and terminal is there afterwards
  have hwrite : s.current.status.terminal = true → s.saved.status ≠ s.current.status →
      Finished t w' := by
    intro hterm hne
    refine ⟨row', hrow', ?_⟩
    rw [hst, Session.writesStatus, if_pos (.inr (Ne.symm hne))]
    exact hterm
  cases hc with
  | @giveUp job time hid =>
    by_cases hfailed : job.status = .FAILED
    · -- the job was failed already, so the commit does not write its status
      obtain ⟨row₀, hrow₀, hterm⟩ := ha.2 (by rw [hfailed]; rfl)
      rw [hrow] at hrow₀
      cases hrow₀
      refine ⟨row', hrow', ?_⟩
      have hnone : (Session.mk (job.givenUp time) job [] false).writesStatus = none := by
        rw [Session.writesStatus, if_neg]
        simp [ImportJob.givenUp, hfailed]
      rw [hst, hnone]
      exact hterm
    · exact hwrite rfl hfailed
  | start hid => exact rfl
  | batch hid hcsv hcol hb hlt hfits =>
    simp only [StatusAt, Session.commitJob, Batch.work, Session.transaction_batch]
    exact ha
  | @finish job base time csv hid hcsv hcol hlen hend =>
    refine hwrite rfl fun heq => ?_
    change job.status.terminal = false at ha
    change job.status = .COMPLETED at heq
    rw [heq] at ha
    cases ha
  | @reject job base time csv hid hcsv hcol =>
    refine hwrite rfl fun heq => ?_
    change job.status.terminal = false at ha
    change job.status = .FAILED at heq
    rw [heq] at ha
    cases ha
  | handle hid => trivial

/-! ### The invariant -/

/-- An acknowledgement of a finished job. -/
theorem unacked_xack (h : NotDropped w) (hentry : EntryOf t w) (hfin : Finished t w) {id : Uuid}
    {row : ImportJob} (hrow : w.db.job id = some row) (hst : row.status.terminal = false)
    (henq : (w.stream.xack t.entry).Enqueued id) : (w.stream.xack t.entry).Unacked id := by
  obtain ⟨x, hx, rfl⟩ := henq
  obtain ⟨x', hx', hid⟩ := Stream.mem_xack hx
  obtain ⟨y, hy⟩ := hentry
  refine (h.unacked _ row hrow hst ⟨x', hx', hid⟩).xack_of_ne hy fun heq => ?_
  -- the acknowledged entry is the entry of a finished job
  obtain ⟨row', hrow', hterm⟩ := hfin
  change t.importJobId = _ at heq
  rw [heq, hrow] at hrow'
  cases hrow'
  rw [hst] at hterm
  cases hterm

/-- A commit that respects the statuses of finished jobs. -/
theorem unacked_commit {s : Session} (h : NotDropped w)
    (hsafe : ∀ st, s.writesStatus = some st → st.terminal = false →
      ∀ row, w.db.job s.current.id = some row → row.status.terminal = true →
      w.stream.Unacked s.current.id) {id : Uuid} {row' : ImportJob}
    (hrow' : (s.commitDb w.db).job id = some row') (hst : row'.status.terminal = false)
    (henq : w.stream.Enqueued id) : w.stream.Unacked id := by
  by_cases hid : id = s.current.id
  · subst hid
    obtain ⟨row, hrow⟩ : ∃ row, w.db.job s.current.id = some row := by
      obtain ⟨x, hx, hxid⟩ := henq
      rw [← hxid]
      exact h.exists_job x hx
    obtain ⟨row'', hrow'', hst''⟩ := Session.status_commitDb hrow
    rw [hrow'] at hrow''
    cases hrow''
    cases hterm : row.status.terminal with
    | false => exact h.unacked _ row hrow hterm henq
    | true =>
      -- the status was terminal and is not any more, so the commit has written it
      cases hwrite : s.writesStatus with
      | none =>
        rw [hst'', hwrite, Option.getD_none, hterm] at hst
        cases hst
      | some st =>
        rw [hst'', hwrite, Option.getD_some] at hst
        exact hsafe st hwrite hst row hrow hterm
  · rw [s.job_commitDb_of_ne hid] at hrow'
    exact h.unacked id row' hrow' hst henq

/-- A finished job stays finished unless the commit writes another status over it. -/
theorem Finished.commit {s : Session} (h : Finished t w) (hdb : w'.db = s.commitDb w.db)
    (hsafe : ∀ st, s.writesStatus = some st → st.terminal = false →
      ∀ row, w.db.job s.current.id = some row → row.status.terminal = true →
      t.importJobId ≠ s.current.id) : Finished t w' := by
  obtain ⟨row, hrow, hterm⟩ := h
  by_cases hid : t.importJobId = s.current.id
  · rw [hid] at hrow
    obtain ⟨row', hrow', hst⟩ := Session.status_commitDb hrow
    refine ⟨row', by rw [hdb, hid]; exact hrow', ?_⟩
    rw [hst]
    cases hwrite : s.writesStatus with
    | none => exact hterm
    | some st =>
      cases hst' : st.terminal with
      | true => exact hst'
      | false => exact absurd hid (hsafe st hwrite hst' row hrow hterm)
  · exact ⟨row, by rw [hdb, s.job_commitDb_of_ne hid]; exact hrow, hterm⟩

/-- An arrival acknowledges nothing, and a new job has no entry. -/
theorem NotDropped.arrive {x : Arrival}
    {r : Option (Attempt × Program WorkerOp WorkerOp.Ans (Except Exn Unit))} (h : NotDropped w)
    (hx : x.apply py w = some (w', r)) : NotDropped w' := by
  refine ⟨(Arrival.populated hx h.exists_job).1, ?_⟩
  rcases Arrival.apply_cases hx with ⟨id, client, name, path, key, -, hunused, -, rfl⟩ |
    ⟨id, -, -, -, -, rfl⟩ | ⟨entry, batchSize, stream, id, -, hclaim, rfl, -⟩
  · intro id' row hrow hst henq
    rcases Db.job_append_cases hrow with hold | rfl
    · exact h.unacked id' row hold hst henq
    · -- an entry with the new id would have a job already
      obtain ⟨x, hx, rfl⟩ := henq
      obtain ⟨row', hrow'⟩ := h.exists_job x hx
      exact absurd ((Db.id_of_job hrow').trans (Db.id_of_job hrow).symm)
        ((World.unused_iff.mp hunused).1 row' (List.mem_of_find?_eq_some hrow'))
  · intro id' row hrow' hst henq
    by_cases hid : id' = id
    · exact ⟨⟨id, .fresh⟩, List.mem_append_right _ List.mem_cons_self, hid.symm, nofun⟩
    · obtain ⟨x, hx, hx'⟩ := henq
      rcases List.mem_append.mp hx with hx | hx
      · obtain ⟨y, hy, hy'⟩ := h.unacked id' row hrow' hst ⟨x, hx, hx'⟩
        exact ⟨y, List.mem_append_left _ hy, hy'⟩
      · rw [List.mem_singleton.mp hx] at hx'
        exact absurd hx'.symm hid
  · rintro id' row hrow hst ⟨x, hx, rfl⟩
    obtain ⟨x', hx', hid⟩ := Stream.mem_claim hclaim hx
    exact (h.unacked _ row hrow hst ⟨x', hx', hid⟩).claim hclaim

/-! ### All runs -/

/-- The outline of the deliveries. -/
def deliveryOutline : Outline World Attempt Phase where
  Inv := NotDropped
  Loc t a w := EntryOf t w ∧ StatusAt t w a
  Guar _ _ := True

/-- The stream keeps the id of every entry. -/
theorem EntryOf.mono (h : EntryOf t w)
    (hstream : ∀ (i : ℕ) (x : StreamEntry), w.stream[i]? = some x →
      ∃ y, w'.stream[i]? = some ⟨x.importJobId, y⟩) : EntryOf t w' := by
  obtain ⟨y, hy⟩ := h
  exact hstream _ _ hy

/-- A move leaves the entries of the stream with their jobs. -/
theorem Move.entries {py : Python} {files : String → Option Csv} {t : Attempt} {o : WorkerOp}
    {f : Fault} {w w' : World} {a a' : Phase} (h : Move py files t o f w a w' a') (i : ℕ)
    (x : StreamEntry) (hx : w.stream[i]? = some x) :
    ∃ y, w'.stream[i]? = some ⟨x.importJobId, y⟩ := by
  rcases h.stream_cases with hstream | ⟨hstream, -, -⟩
  · exact ⟨x.delivery, by rw [hstream]; exact hx⟩
  · obtain ⟨y, hy, -⟩ := Stream.getElem?_xack (e := t.entry) hx
    exact ⟨y, by rw [hstream]; exact hy⟩

/-- The obligations of the outline for a change from outside. -/
theorem delivery_arrive {py : Python} {files : String → Option Csv} {c : WorkerPool}
    {ph : ℕ → Phase} {x : Arrival} {w : World}
    {r : Option (Attempt × Program WorkerOp WorkerOp.Ans (Except Exn Unit))}
    (hold : deliveryOutline.Holds (workers py files) (Move py files) (fun _ r a => a = .ended r)
      c ph)
    (hx : x.apply py c.world = some (w, r)) :
    (∀ (i : ℕ) (t : Attempt) (p : Program WorkerOp WorkerOp.Ans (Except Exn Unit)),
      c.procs[i]? = some ⟨t, some p⟩ → deliveryOutline.Loc t (ph i) w) ∧
    ∀ t p, r = some (t, p) → deliveryOutline.Loc t .unread w := by
  rcases Arrival.apply_cases hx with ⟨id, client, name, path, key, -, -, rfl, rfl⟩ |
    ⟨id, -, -, -, rfl, rfl⟩ | ⟨entry, batchSize, stream, id, -, hclaim, rfl, rfl⟩
  · refine ⟨fun i t p hi => ?_, nofun⟩
    obtain ⟨hentry, hat⟩ := hold.loc i t p hi
    refine ⟨hentry, hat.mono ?_⟩
    rintro ⟨row, hrow, hterm⟩
    exact ⟨row, Db.job_append_of_some hrow, hterm⟩
  · refine ⟨fun i t p hi => ?_, nofun⟩
    obtain ⟨hentry, hat⟩ := hold.loc i t p hi
    refine ⟨hentry.mono fun i x hx => ⟨x.delivery, ?_⟩, hat⟩
    obtain ⟨hlt, -⟩ := List.getElem?_eq_some_iff.mp hx
    exact (List.getElem?_append_left hlt).trans hx
  · refine ⟨fun i t p hi => ?_, ?_⟩
    · obtain ⟨hentry, hat⟩ := hold.loc i t p hi
      refine ⟨hentry.mono fun i x hx => ?_, hat⟩
      obtain ⟨y, hy, -⟩ := Stream.getElem?_claim hclaim hx
      exact ⟨y, hy⟩
    · rintro t p heq
      cases heq
      obtain ⟨-, hpending, -⟩ := Stream.claim_eq_some hclaim
      exact ⟨⟨.pending, hpending⟩, trivial⟩

theorem deliveryOutline_sound (py : Python) (files : String → Option Csv) :
    deliveryOutline.Sound (workers py files) OverwriteSafe (Move py files)
      fun _ r a => a = .ended r := by
  refine workers_sound ?_ ?_
  · intro c ph i t o k f a' hold hC hi hmove _
    obtain ⟨hentry, hat⟩ := hold.loc i t _ hi
    have hinv : NotDropped c.world := hold.inv
    have hpop := hmove.populated hinv.exists_job
    rcases hmove.db_cases with ⟨hdb, hq⟩ | ⟨s, cont, rfl, hc, hdb, hnext⟩
    · -- only the stream may change
      have hfin : ∀ t : Attempt, Finished t c.world →
          Finished t (WorkerOp.exec files o f c.world).1 := by
        rintro t ⟨row, hrow, hterm⟩
        exact ⟨row, by rw [hdb]; exact hrow, hterm⟩
      have hstep := StatusAt.quiet hinv hentry hat hq
      refine ⟨⟨hpop, ?_⟩, ⟨hentry.mono hmove.entries, hstep.mono (hfin t)⟩, trivial,
        fun j t' p' _ hj => ?_⟩
      · rcases hmove.stream_cases with hstream | ⟨hstream, -, hphase⟩
        · rw [hdb, hstream]
          exact hinv.unacked
        · have hfinished : Finished t c.world := by
            rcases hphase with hph | ⟨job, hph⟩
            · rw [hph] at hat
              exact hat
            · rw [hph] at hat
              exact hat
          rw [hdb, hstream]
          exact fun id row hrow hst henq => unacked_xack hinv hentry hfinished hrow hst henq
      · obtain ⟨hentryj, hatj⟩ := hold.loc j t' p' hj
        exact ⟨hentryj.mono hmove.entries, hatj.mono (hfin t')⟩
    · -- only the tables change
      have hstream : (WorkerOp.exec files (.commit s) f c.world).1.stream = c.world.stream := by
        cases f <;> rfl
      have hsafe := hC _ (Option.mem_def.mpr hi) s k rfl
      refine ⟨⟨hpop, ?_⟩, ⟨hentry.mono hmove.entries, ?_⟩, trivial, fun j t' p' hj hp' => ?_⟩
      · rw [hdb, hstream]
        exact fun id row' hrow' hst henq => unacked_commit hinv
          (fun st h1 h2 row h3 h4 => (hsafe st h1 h2 row h3 h4).1) hrow' hst henq
      · rcases hnext with ⟨-, rfl⟩ | ⟨-, e, rfl⟩
        · obtain ⟨y, hy⟩ := hentry
          exact hat.commit hc (hinv.exists_job _ (List.mem_of_getElem? hy)) hdb
        · trivial
      · obtain ⟨hentryj, hatj⟩ := hold.loc j t' p' hp'
        refine ⟨hentryj.mono hmove.entries, ?_⟩
        cases p' with
        | done r =>
          have hended : ph j = .ended r := hold.follows j t' _ hp'
          rw [hended]
          trivial
        | call o' k' =>
          exact hatj.mono fun hfin => hfin.commit hdb fun st h1 h2 row h3 h4 =>
            (hsafe st h1 h2 row h3 h4).2 j _ hj hp' rfl
  · intro c ph x w r hold _ hx
    exact ⟨NotDropped.arrive hold.inv hx, trivial, delivery_arrive hold hx⟩

/-- No unfinished import is dropped: in every run in which a finished job is put back to an
unfinished status only while its entry is un-acknowledged and no other attempt at it is running, a
job that was enqueued and is not finished still has an entry that a worker can pick up. -/
theorem unfinished_job_unacked (py : Python) (files : String → Option Csv) {w : World}
    (hw : ∀ x ∈ w.stream, (∃ row, w.db.job x.importJobId = some row) ∧ x.delivery = .fresh)
    {c : WorkerPool} (hc : (workers py files).Reaches OverwriteSafe ⟨w, []⟩ c) {id : Uuid}
    {job : ImportJob} (hjob : c.world.db.job id = some job) (hst : job.status.terminal = false)
    (henq : c.world.stream.Enqueued id) : c.world.stream.Unacked id := by
  have hinit : NotDropped w := by
    refine ⟨fun x hx => (hw x hx).1, ?_⟩
    rintro id row hrow hst ⟨x, hx, hid⟩
    exact ⟨x, hx, hid, by rw [(hw x hx).2]; nofun⟩
  obtain ⟨⟨ph, hold⟩, -⟩ := workers_reaches (deliveryOutline_sound py files) hinit hc
  have hinv : NotDropped c.world := hold.inv
  exact hinv.unacked id job hjob hst henq

/-- A test for `OverwriteSafe`: while a commit runs no job is finished. -/
def OverwriteSafe.test (c : WorkerPool) : WorkerEvent → Bool
  | .run i _ =>
    match c.procs[i]? with
    | some ⟨_, some (.call (.commit _) _)⟩ =>
      c.world.db.jobs.all fun job => decide (job.status.terminal = false)
    | _ => true
  | _ => true

theorem OverwriteSafe.of_test {c : WorkerPool} {e : WorkerEvent}
    (h : OverwriteSafe.test c e = true) : OverwriteSafe c e := by
  cases e with
  | run i f =>
    rintro ⟨t, prog⟩ hp s k rfl st - - row hrow hterm
    rw [OverwriteSafe.test, Option.mem_def.mp hp] at h
    have hne := List.all_eq_true.mp h row (List.mem_of_find?_eq_some hrow)
    rw [of_decide_eq_true hne] at hterm
    cases hterm
  | crash i => trivial
  | arrive x => trivial

theorem sample_crashed_import :
    ((workers .ascii (sampleFiles sampleCsv)).perform OverwriteSafe.test ⟨sampleWorld, []⟩
      (.arrive (.deliver 0 1) :: (runs 0 5 ++ [.crash 0]))).bind (fun d =>
        (d.world.db.job sampleId).map fun job =>
          (job.status, decide (d.world.stream.Enqueued sampleId))) = some (.PROCESSING, true) := by
  decide +kernel

/-- A worker crashes in the middle of the sample import, and the entry is there to be reclaimed. -/
theorem sample_crashed_import_unacked :
    ∃ (d : WorkerPool) (job : ImportJob),
      (workers .ascii (sampleFiles sampleCsv)).Reaches OverwriteSafe ⟨sampleWorld, []⟩ d ∧
      d.world.db.job sampleId = some job ∧ job.status = .PROCESSING ∧
      d.world.stream.Unacked sampleId := by
  obtain ⟨d, hd, hout⟩ := Option.bind_eq_some_iff.mp sample_crashed_import
  obtain ⟨job, hjob, heq⟩ := Option.map_eq_some_iff.mp hout
  obtain ⟨hst, henq⟩ := Prod.mk.injEq .. ▸ heq
  have hd' : (workers .ascii (sampleFiles sampleCsv)).Reaches OverwriteSafe ⟨sampleWorld, []⟩ d :=
    System.reaches_of_perform (fun _ _ => OverwriteSafe.of_test) hd
  have hw : ∀ x ∈ sampleWorld.stream,
      (∃ row, sampleWorld.db.job x.importJobId = some row) ∧ x.delivery = .fresh := by
    intro x hx
    rw [List.mem_singleton.mp hx]
    exact ⟨⟨sampleJob, rfl⟩, rfl⟩
  exact ⟨d, job, hd', hjob, hst, unfinished_job_unacked .ascii (sampleFiles sampleCsv) hw hd' hjob
    (by rw [hst]; rfl) (of_decide_eq_true henq)⟩

/-- A job is lost.  The entry is claimed twice and the second worker loads the job; the first worker
completes the import and acknowledges the entry; the second one commits `PROCESSING` and crashes. -/
theorem overtaken_attempt_drops_job :
    ∃ (d : WorkerPool) (job : ImportJob),
      (workers .ascii (sampleFiles sampleCsv)).Reaches (fun _ _ => True) ⟨sampleWorld, []⟩ d ∧
      d.world.db.job sampleId = some job ∧ job.status = .PROCESSING ∧
      d.world.stream.Enqueued sampleId ∧ ¬ d.world.stream.Unacked sampleId ∧
      ∀ p ∈ d.procs, p.live = false := by
  have hrun : ((workers .ascii (sampleFiles sampleCsv)).perform (fun _ _ => true) ⟨sampleWorld, []⟩
      ([.arrive (.deliver 0 1), .arrive (.deliver 0 1), .run 1 .ok] ++ runs 0 17 ++
        runs 1 2 ++ [.crash 1])).bind (fun d => (d.world.db.job sampleId).map fun job =>
          (job.status, decide (d.world.stream.Enqueued sampleId),
            decide (d.world.stream.Unacked sampleId), d.procs.all fun p => !p.live)) =
      some (.PROCESSING, true, false, true) := by decide +kernel
  obtain ⟨d, hd, hout⟩ := Option.bind_eq_some_iff.mp hrun
  obtain ⟨job, hjob, heq⟩ := Option.map_eq_some_iff.mp hout
  simp only [Prod.mk.injEq, decide_eq_true_eq, decide_eq_false_iff_not, List.all_eq_true,
    Bool.not_eq_true'] at heq
  exact ⟨d, job, System.reaches_of_perform (fun _ _ _ => trivial) hd, hjob, heq⟩

end TransactionPlatform
