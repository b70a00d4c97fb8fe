import TransactionPlatform.Worker.Walk

/-!
# Attempts at one job that do not overlap

As long as at most one attempt at a job is running, the object in its memory is the row of the job
as it is committed, so that a commit replaces the row by the object.  `exclusive_sound` turns this
into a rule for invariants of the form "every row of `import_jobs` is good": one obligation for the
commits, one for the moves without effect on the tables, and one for the rows of other jobs.
-/

namespace TransactionPlatform

open Interleaved

/-- An entry is only handed to a worker while no attempt at its job is running. -/
def OneAtATime (c : WorkerPool) : WorkerEvent → Prop
  | .arrive (.deliver entry _) => ∀ s id, c.world.stream.claim entry = some (s, id) →
      ∀ p ∈ c.procs, p.live = true → p.tag.importJobId ≠ id
  | _ => True

/-- The operation is a statement that the client library refuses. -/
def WorkerOp.clientError (f : Fault) : WorkerOp → Bool
  | execute stmt => decide (stmt.outcome f = .error .ClientError)
  | _ => false

/-- No statement is refused by the client library: a statement succeeds or fails in Postgres. -/
def NoClientError (c : WorkerPool) : WorkerEvent → Prop
  | .run i f => ∀ p ∈ c.procs[i]?, ∀ o k, p.prog = some (.call o k) → o.clientError f = false
  | _ => True

/-- The saved values of the object an attempt has in memory. -/
def Phase.holding : Phase → Option ImportJob
  | .giveUp job => some job
  | .start job => some job
  | .scan job _ => some job
  | .ackTry job => some job
  | .handle s _ => some s.saved
  | _ => none

/-- The object of the attempt is the committed row. -/
def Exact (t : Attempt) (db : Db) (a : Phase) : Prop :=
  ∀ job, a.holding = some job → db.job t.importJobId = some job

variable {py : Python} {files : String → Option Csv} {t : Attempt} {db : Db}

/-- A test for `NoClientError`. -/
def NoClientError.test (c : WorkerPool) : WorkerEvent → Bool
  | .run i f =>
    match c.procs[i]? with
    | some ⟨_, some (.call o _)⟩ => !o.clientError f
    | _ => true
  | _ => true

theorem NoClientError.of_test {c : WorkerPool} {e : WorkerEvent}
    (h : NoClientError.test c e = true) : NoClientError c e := by
  cases e with
  | crash i => trivial
  | arrive x => trivial
  | run i f =>
    rintro ⟨t, prog⟩ hp o k rfl
    have hi : c.procs[i]? = some ⟨t, some (.call o k)⟩ := hp
    rw [test, hi] at h
    simpa using h

/-- A test for `OneAtATime`: an entry is only handed out while nothing is running at all. -/
def OneAtATime.test (c : WorkerPool) : WorkerEvent → Bool
  | .arrive (.deliver _ _) => c.procs.all fun p => !p.live
  | _ => true

theorem OneAtATime.of_test {c : WorkerPool} {e : WorkerEvent} (h : OneAtATime.test c e = true) :
    OneAtATime c e := by
  cases e with
  | run i f => trivial
  | crash i => trivial
  | arrive x =>
    cases x with
    | create id client name path key => trivial
    | enqueue id => trivial
    | deliver entry size =>
      intro s id _ p hp hlive
      have hdead := List.all_eq_true.mp h p hp
      rw [hlive] at hdead
      cases hdead

/-- One event keeps attempts at one job from overlapping. -/
theorem OneAtATime.exclusive {c d : WorkerPool} {e : WorkerEvent}
    (h : System.Exclusive Attempt.importJobId c) (he : OneAtATime c e)
    (hn : (workers py files).next c e = some d) : System.Exclusive Attempt.importJobId d := by
  refine h.next ?_ hn
  rintro x w t p rfl hx q hq hlive heq
  obtain ⟨stream, rfl, hclaim, -, -⟩ := Arrival.deliver_of_apply hx
  exact he stream t.importJobId hclaim q hq hlive heq

/-- A commit is about the object of the attempt. -/
theorem Commits.holding {a : Phase} {s : Session} {cont : ImportJob → Phase}
    (h : Commits py files t a s cont) :
    a.holding = some s.saved ∧ s.current.id = t.importJobId ∧
      ∀ j, (cont j).holding = some j ∨ (cont j).holding = none := by
  cases h with
  | giveUp hid => exact ⟨rfl, hid, fun _ => .inr rfl⟩
  | start hid => exact ⟨rfl, hid, fun _ => .inl rfl⟩
  | batch hid hcsv hcol hb hlt hfits => exact ⟨rfl, hid, fun _ => .inl rfl⟩
  | finish hid hcsv hcol hlen hend => exact ⟨rfl, hid, fun _ => .inl rfl⟩
  | reject hid hcsv hcol => exact ⟨rfl, hid, fun _ => .inl rfl⟩
  | handle hid => exact ⟨rfl, hid, fun _ => .inr rfl⟩

/-- An attempt without an object. -/
theorem exact_of_none {a : Phase} (h : a.holding = none) : Exact t db a := by
  intro job hjob
  rw [h] at hjob
  cases hjob

theorem exact_loaded (t : Attempt) (db : Db) : Exact t db (.loaded (db.job t.importJobId)) := by
  intro job hjob
  rcases Phase.loaded_cases (db.job t.importJobId) with ⟨ha, -⟩ | ⟨row, ha, hrow, -⟩ |
    ⟨row, ha, hrow, -⟩
  · rw [ha] at hjob
    cases hjob
  · rw [ha] at hjob
    exact hrow.trans hjob
  · rw [ha] at hjob
    exact hrow.trans hjob

/-- A move without effect on the tables keeps the object. -/
theorem Exact.quiet {a a' : Phase} {o : WorkerOp} {f : Fault} (h : Exact t db a)
    (hq : Quiet py files t o f db a a') : Exact t db a' := by
  cases hq with
  | load => exact exact_loaded t db
  | stay => exact h
  | fail hr =>
    cases hr with
    | load hf => exact exact_of_none rfl
    | server => exact exact_of_none rfl
    | insert hid hcsv hb hmem hvalid hout => exact h
    | update hid hcsv hb hout => exact h
    | openCsv hid hwhy => exact h
    | readRow hid hwhy => exact h
  | finish => exact exact_of_none rfl
  | unacked hid hf => exact h

/-- A commit replaces the row by the object. -/
theorem Exact.commit {a : Phase} {s : Session} {cont : ImportJob → Phase} (h : Exact t db a)
    (hc : Commits py files t a s cont) :
    (s.commitDb db).job t.importJobId = some (s.commitJob db) ∧
      Exact t (s.commitDb db) (cont (s.commitJob db)) := by
  obtain ⟨hhold, hid, hcont⟩ := hc.holding
  have hrow := h s.saved hhold
  have hnew : (s.commitDb db).job t.importJobId = some (s.commitJob db) := by
    rw [← hid] at hrow ⊢
    exact Session.job_commitDb_of_saved (Db.id_of_job hrow) hrow
  refine ⟨hnew, fun job hjob => ?_⟩
  rcases hcont (s.commitJob db) with hj | hj
  · rw [hj] at hjob
    cases hjob
    exact hnew
  · rw [hj] at hjob
    cases hjob

/-- A move of the attempt keeps its object equal to the committed row. -/
theorem Exact.move {a a' : Phase} {o : WorkerOp} {f : Fault} {w w' : World} (h : Exact t w.db a)
    (hmove : Move py files t o f w a w' a') : Exact t w'.db a' := by
  rcases hmove.db_cases with ⟨hdb, hq⟩ | ⟨s, cont, -, hc, hdb, ⟨-, rfl⟩ | ⟨-, e, rfl⟩⟩
  · rw [hdb]
    exact h.quiet hq
  · rw [hdb]
    exact (h.commit hc).2
  · exact exact_of_none rfl

/-- The outline of an invariant of the rows of `import_jobs`. -/
def exclusiveOutline (Good : Db → ImportJob → Prop) (Fact : Attempt → Phase → Prop)
    (Mono : ImportJob → ImportJob → Prop) : Outline World Attempt Phase where
  Inv w := ∀ id row, w.db.job id = some row → Good w.db row
  Loc t a w := Exact t w.db a ∧ Fact t a
  Guar w w' := ∀ id row, w.db.job id = some row →
    ∃ row', w'.db.job id = some row' ∧ Mono row row'

section Rule

variable {C : WorkerPool → WorkerEvent → Prop} {Good : Db → ImportJob → Prop}
variable {Fact : Attempt → Phase → Prop} {Mono : ImportJob → ImportJob → Prop}
variable {Allowed : Attempt → WorkerOp → Fault → Db → Phase → Prop}

/-- The obligations for an invariant of the rows of `import_jobs` while attempts at one job do not
overlap.  `Allowed` is what the condition on the events says about a move. -/
structure ExclusiveRule (py : Python) (files : String → Option Csv)
    (C : WorkerPool → WorkerEvent → Prop) (Good : Db → ImportJob → Prop)
    (Fact : Attempt → Phase → Prop) (Mono : ImportJob → ImportJob → Prop)
    (Allowed : Attempt → WorkerOp → Fault → Db → Phase → Prop) : Prop where
  exclusive : ∀ c e, C c e → System.Exclusive Attempt.importJobId c
  allowed : ∀ (c : WorkerPool) (i : ℕ) (t : Attempt) (o : WorkerOp)
    (k : o.Ans → Program WorkerOp WorkerOp.Ans (Except Exn Unit)) (f : Fault) (a : Phase),
    C c (.run i f) → c.procs[i]? = some ⟨t, some (.call o k)⟩ →
    (Program.call o k).Follows (WorkerOp.exec files) (Move py files t) (fun r a => a = .ended r) a →
    Allowed t o f c.world.db a
  quiet : ∀ t o f db a a', Allowed t o f db a → Quiet py files t o f db a a' →
    Exact t db a' → (∀ job, a'.holding = some job → Good db job) → Fact t a → Fact t a'
  commit : ∀ t f db a s cont, Allowed t (.commit s) f db a → Commits py files t a s cont →
    db.job t.importJobId = some s.saved → Good db s.saved → Fact t a →
    Good (s.commitDb db) (s.commitJob db) ∧ Mono s.saved (s.commitJob db) ∧
      Fact t (cont (s.commitJob db))
  frame : ∀ t f db a s cont, Allowed t (.commit s) f db a → Commits py files t a s cont →
    Fact t a → ∀ row, row.id ≠ t.importJobId → Good db row → Good (s.commitDb db) row
  create : ∀ (c : WorkerPool) id client name path key,
    C c (.arrive (.create id client name path key)) → c.world.unused id = true →
    Good { c.world.db with jobs := c.world.db.jobs ++ [ImportJob.queued id client name path key] }
      (.queued id client name path key) ∧
    ∀ row, Good c.world.db row →
      Good { c.world.db with jobs := c.world.db.jobs ++ [ImportJob.queued id client name path key] }
        row
  unread : ∀ t, Fact t .unread
  ended : ∀ t r, Fact t (.ended r)
  refl : ∀ row, Mono row row
  trans : ∀ row row' row'', Mono row row' → Mono row' row'' → Mono row row''

theorem exclusive_sound (h : ExclusiveRule py files C Good Fact Mono Allowed) :
    (exclusiveOutline Good Fact Mono).Sound (workers py files) C (Move py files)
      fun _ r a => a = .ended r := by
  refine workers_sound ?_ ?_
  · intro c ph i t o k f a' hold hC hi hmove _
    have hinv : ∀ id row, c.world.db.job id = some row → Good c.world.db row := hold.inv
    obtain ⟨hexact, hfact⟩ := hold.loc i t _ hi
    have hallow := h.allowed c i t o k f (ph i) hC hi (hold.follows i t _ hi)
    rcases hmove.db_cases with ⟨hdb, hq⟩ | ⟨s, cont, rfl, hc, hdb, hnext⟩
    · simp only [exclusiveOutline, hdb]
      have hexact' := hexact.quiet hq
      refine ⟨hinv, ⟨hexact', ?_⟩, fun id row hrow => ⟨row, hrow, h.refl row⟩,
        fun j t' p' _ hj => hold.loc j t' p' hj⟩
      exact h.quiet t o f _ _ a' hallow hq hexact'
        (fun job hjob => hinv _ job (hexact' job hjob)) hfact
    · obtain ⟨hhold, hid, -⟩ := hc.holding
      have hrow := hexact s.saved hhold
      obtain ⟨hnew, hexact'⟩ := hexact.commit hc
      obtain ⟨hgood, hmono, hfact'⟩ :=
        h.commit t f _ _ s cont hallow hc hrow (hinv _ _ hrow) hfact
      have hne : ∀ id, id ≠ t.importJobId → (s.commitDb c.world.db).job id = c.world.db.job id :=
        fun id hid' => Session.job_commitDb_of_ne s (by rw [hid]; exact hid')
      simp only [exclusiveOutline, hdb]
      refine ⟨fun id row hr => ?_, ?_, fun id row hr => ?_, fun j t' p' hji hj => ?_⟩
      · by_cases hid' : id = t.importJobId
        · subst hid'
          rw [hnew] at hr
          cases hr
          exact hgood
        · rw [hne id hid'] at hr
          refine h.frame t f _ _ s cont hallow hc hfact row ?_ (hinv id row hr)
          rw [Db.id_of_job hr]
          exact hid'
      · rcases hnext with ⟨-, rfl⟩ | ⟨-, e, rfl⟩
        · exact ⟨hexact', hfact'⟩
        · exact ⟨exact_of_none rfl, h.ended t _⟩
      · by_cases hid' : id = t.importJobId
        · subst hid'
          rw [hrow] at hr
          cases hr
          exact ⟨_, hnew, hmono⟩
        · exact ⟨row, (hne id hid').trans hr, h.refl row⟩
      · obtain ⟨hexj, hfactj⟩ := hold.loc j t' p' hj
        refine ⟨fun job hjob => ?_, hfactj⟩
        cases p' with
        | done r =>
          -- a finished attempt holds nothing
          have hended : ph j = .ended r := hold.follows j t' _ hj
          rw [hended] at hjob
          cases hjob
        | call o' k' =>
          have hid' : t'.importJobId ≠ t.importJobId := fun heq =>
            hji (h.exclusive c _ hC j i _ _ hj hi rfl rfl heq)
          exact (hne _ hid').trans (hexj job hjob)
  · intro c ph x w r hold hC hx
    have hinv : ∀ id row, c.world.db.job id = some row → Good c.world.db row := hold.inv
    have hrefl : ∀ id row, c.world.db.job id = some row →
        ∃ row', c.world.db.job id = some row' ∧ Mono row row' :=
      fun id row hrow => ⟨row, hrow, h.refl row⟩
    rcases Arrival.apply_cases hx with ⟨id, client, name, path, key, rfl, hunused, rfl, rfl⟩ |
      ⟨id, -, -, -, rfl, rfl⟩ | ⟨entry, size, stream, id, -, -, rfl, rfl⟩
    · obtain ⟨hnew, hold'⟩ := h.create c id client name path key hC hunused
      refine ⟨fun id' row hrow => ?_, fun id' row hrow => ?_, fun j t p hj => ?_,
        fun t p hr => by cases hr⟩
      · rcases Db.job_append_cases hrow with hrow | rfl
        · exact hold' row (hinv id' row hrow)
        · exact hnew
      · exact ⟨row, Db.job_append_of_some hrow, h.refl row⟩
      · obtain ⟨hexj, hfactj⟩ := hold.loc j t p hj
        exact ⟨fun job hjob => Db.job_append_of_some (hexj job hjob), hfactj⟩
    · exact ⟨hinv, hrefl, hold.loc, fun t p hr => by cases hr⟩
    · exact ⟨hinv, hrefl, hold.loc, fun t p _ => ⟨exact_of_none rfl, h.unread t⟩⟩

/-- The relation between the rows of one job along a run. -/
theorem ExclusiveRule.mono (h : ExclusiveRule py files C Good Fact Mono Allowed) {w w' : World}
    (hg : Relation.ReflTransGen (exclusiveOutline Good Fact Mono).Guar w w') :
    (exclusiveOutline Good Fact Mono).Guar w w' := by
  intro id row hrow
  induction hg with
  | refl => exact ⟨row, hrow, h.refl row⟩
  | tail _ hg ih =>
    obtain ⟨row', hrow', hle⟩ := ih
    obtain ⟨row'', hrow'', hle'⟩ := hg id row' hrow'
    exact ⟨row'', hrow'', h.trans _ _ _ hle hle'⟩

/-- The rule for runs in which attempts at one job do not overlap: every row of `import_jobs` is
good, and every row is related to what it was before. -/
theorem ExclusiveRule.reaches
    (h : ExclusiveRule py files (fun c e => C c e ∧ System.Exclusive Attempt.importJobId c) Good Fact
      Mono Allowed)
    (hone : ∀ c e, C c e → OneAtATime c e) {w : World}
    (hw : ∀ id row, w.db.job id = some row → Good w.db row) {c d : WorkerPool}
    (hc : (workers py files).Reaches C ⟨w, []⟩ c) (hd : (workers py files).Reaches C c d) :
    (∀ id row, d.world.db.job id = some row → Good d.world.db row) ∧
    ∀ id row, c.world.db.job id = some row →
      ∃ row', d.world.db.job id = some row' ∧ Mono row row' := by
  have hkeep : ∀ (c : WorkerPool) (e : WorkerEvent) (d : WorkerPool),
      System.Exclusive Attempt.importJobId c → C c e →
      (workers py files).next c e = some d → System.Exclusive Attempt.importJobId d :=
    fun c e _ h he hn => (hone c e he).exclusive h hn
  obtain ⟨hc', hexcl⟩ := hc.strengthen (P := System.Exclusive Attempt.importJobId)
    (fun i j p q hi => by simp at hi) hkeep
  obtain ⟨hd', -⟩ := hd.strengthen (P := System.Exclusive Attempt.importJobId) hexcl hkeep
  have hsound := exclusive_sound h
  obtain ⟨⟨ph, hph⟩, -⟩ := workers_reaches hsound hw hc'
  obtain ⟨⟨ph', hph'⟩, hguar⟩ := hsound.reaches hph hd'
  exact ⟨hph'.inv, h.mono hguar⟩

end Rule

end TransactionPlatform
