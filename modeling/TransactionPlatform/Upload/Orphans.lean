import TransactionPlatform.Upload.Rows

/-!
# Files without a job

`create_import` writes the file before it knows whether there will be a job for it, and every exit
removes the file on its own.  Some exits do not: an exception of `file.read` or of `out.write`, of
the first `SELECT`, of a commit that is not an `IntegrityError`, of the rollback, or of `unlink`
itself.
`leavesFile` lists them, and `uploads_in_step_iff` shows that the list is complete: when all calls
have ended, the files are those of the rows exactly if no call has met one of these.
-/

namespace TransactionPlatform

open Interleaved

/-- The files of the upload directory are those of the rows. -/
def InStep (w : UploadWorld) : Prop :=
  ∀ path, w.files path ≠ none ↔ ∃ row ∈ w.db.jobs, row.storagePath = path

/-- The file of a request. -/
def UploadWorld.fileOf (w : UploadWorld) (svc : Service) (r : Request) : Option (List UInt8) :=
  w.files (svc.storagePath r.jobId)

/-- The operation ends the call under this fault and leaves the file of the call without a row. -/
def leavesFile (svc : Service) (r : Request) (w : UploadWorld) : UploadOp → Fault → Bool
  -- the file was created
  | .openWrite _, f => decide (f = .lost)
  | .readChunk, f => decide (f ≠ .ok)
  | .write _ _, f => decide (f ≠ .ok)
  -- the file was not removed
  | .unlink _, f => decide (f = .rejected ∨ f = .failed)
  -- the file is still there: this is the first `SELECT`
  | .selectByKey _, f => decide (f ≠ .ok) && (w.fileOf svc r).isSome
  -- the row does not fit its columns
  | .commitJob job, .ok => !job.storable
  -- the row was not inserted, and the exception is not caught
  | .commitJob job, .lost => !w.accepts job
  | .commitJob _, _ => true
  | .rollback, f => decide (f ≠ .ok)
  | _, _ => false

/-- What a call knows about its file and its row: the row comes after the file, and when the call is
over there is no row without the complete file.  If nothing was left behind, there is no file
without a row either. -/
def FileAt (clean : Prop) (r : Request) (file : Option (List UInt8)) (job : Prop) : Stage → Prop
  | .start => file = none ∧ ¬ job
  | .writing written => file = some written ∧ ¬ job
  | .reject _ => file ≠ none ∧ ¬ job
  | .reselect => file = none ∧ ¬ job
  | .refresh => file = some r.content ∧ job
  | .announce _ => file = some r.content ∧ job
  | .enqueue _ => file = some r.content ∧ job
  | .ended _ => (job → file = some r.content) ∧ (clean → file ≠ none → job)
  | _ => file = some r.content ∧ ¬ job

variable {svc : Service} {r : Request} {o : UploadOp} {f : Fault} {w w' : UploadWorld}
variable {a a' : Stage} {clean : Prop}

theorem fileOf_setFile (w : UploadWorld) (content : Option (List UInt8)) :
    (w.setFile (svc.storagePath r.jobId) content).fileOf svc r = content :=
  Function.update_self ..

theorem ne_none_of_fileOf {content : List UInt8} (h : w.fileOf svc r = some content) :
    w.fileOf svc r ≠ none :=
  Option.ne_none_iff_exists'.mpr ⟨content, h⟩

theorem hasJob_insert (w : UploadWorld) : (w.insert (svc.newJob r)).HasJob r.jobId :=
  ⟨svc.newJob r, List.mem_append_right _ List.mem_cons_self, rfl⟩

/-! ### One move -/

section Ended

variable {file : Option (List UInt8)} {job : Prop} {x : Except UploadExn (ImportJob × Bool)}

/-- A call that has removed its file is over without a trace. -/
theorem FileAt.ended_of_none (hfile : file = none) (hjob : ¬ job) :
    FileAt clean r file job (.ended x) :=
  ⟨fun h => absurd h hjob, fun _ hne => absurd hfile hne⟩

theorem FileAt.ended_of_job (hfile : file = some r.content) (hjob : job) :
    FileAt clean r file job (.ended x) :=
  ⟨fun _ => hfile, fun _ _ => hjob⟩

end Ended

/-- A move whose operation succeeds. -/
theorem FileAt.advance (h : FileAt clean r (w.fileOf svc r) (w.HasJob r.jobId) a)
    (hadv : Advance svc r o w a a') (hclean : clean → leavesFile svc r w o .ok = false) :
    FileAt clean r ((o.exec .ok w).1.fileOf svc r) ((o.exec .ok w).1.HasJob r.jobId) a' := by
  cases hadv with
  | mkdir => exact h
  | openWrite => exact ⟨fileOf_setFile w _, h.2⟩
  | read => exact h
  | tooLarge hlarge => exact ⟨ne_none_of_fileOf h.1, h.2⟩
  | empty hempty => exact ⟨ne_none_of_fileOf h.1, h.2⟩
  | complete hpasses => exact h
  | write =>
    have hfile : w.files (svc.storagePath r.jobId) = some _ := h.1
    refine ⟨(fileOf_setFile w _).trans ?_, h.2⟩
    rw [hfile, Option.getD_some]
  | reject => exact .ended_of_none (fileOf_setFile w none) h.2
  | lookup =>
    change FileAt clean r (w.fileOf svc r) (w.HasJob r.jobId) _
    cases w.jobByKey (svc.idempotencyKey r) with
    | none => exact h
    | some job => exact h
  | found => exact .ended_of_none (fileOf_setFile w none) h.2
  | inserted hacc =>
    have hexec : ((UploadOp.commitJob (svc.newJob r)).exec .ok w).1 = w.insert (svc.newJob r) :=
      congrArg Prod.fst (Fault.commitJob_of_accepts hacc)
    rw [hexec]
    exact ⟨h.1, hasJob_insert w⟩
  | conflict _ hconf =>
    rw [UploadWorld.exec_commitJob_of_conflicts hconf]
    exact h
  | refused hstore =>
    rw [UploadWorld.exec_commitJob_of_not_storable hstore]
    refine ⟨fun hjob => absurd hjob h.2, fun hc => ?_⟩
    have hleft := hclean hc
    rw [leavesFile, hstore] at hleft
    cases hleft
  | rollback => exact h
  | unlink => exact ⟨fileOf_setFile w _, h.2⟩
  | winner hjob => exact .ended_of_none h.1 h.2
  | noWinner hjob => exact .ended_of_none h.1 h.2
  | refresh hjob => exact h
  | missing hjob => exact .ended_of_job h.1 h.2
  | ensureGroup => exact h
  | xadd => exact .ended_of_job h.1 h.2

/-- There is a file and no row for it. -/
def Orphan (svc : Service) (r : Request) (w : UploadWorld) : Prop :=
  w.fileOf svc r ≠ none ∧ ¬ w.HasJob r.jobId

theorem Fault.apply_id (f : Fault) (e : UploadExn) (w : UploadWorld) : (f.apply e id w).1 = w := by
  cases f with
  | ok => rfl
  | rejected => rfl
  | failed => rfl
  | lost => rfl

/-- The call has left nothing, or a row with the complete file. -/
def FileSettled (svc : Service) (r : Request) (w : UploadWorld) : Prop :=
  (w.fileOf svc r = none ∧ ¬ w.HasJob r.jobId) ∨
    (w.fileOf svc r = some r.content ∧ w.HasJob r.jobId)

/-- An `unlink` that fails. -/
theorem unlink_fails (hfile : w.fileOf svc r ≠ none) (hjob : ¬ w.HasJob r.jobId) (hf : f ≠ .ok) :
    (leavesFile svc r w (.unlink (svc.storagePath r.jobId)) f = true ∧
        Orphan svc r ((UploadOp.unlink (svc.storagePath r.jobId)).exec f w).1) ∨
      (leavesFile svc r w (.unlink (svc.storagePath r.jobId)) f = false ∧
        FileSettled svc r ((UploadOp.unlink (svc.storagePath r.jobId)).exec f w).1) := by
  cases f with
  | ok => exact absurd rfl hf
  | rejected => exact .inl ⟨rfl, hfile, hjob⟩
  | failed => exact .inl ⟨rfl, hfile, hjob⟩
  | lost => exact .inr ⟨rfl, .inl ⟨fileOf_setFile w none, hjob⟩⟩

/-- A commit that fails. -/
theorem commit_fails (hfile : w.fileOf svc r = some r.content) (hjob : ¬ w.HasJob r.jobId)
    (hf : f ≠ .ok) :
    (leavesFile svc r w (.commitJob (svc.newJob r)) f = true ∧
        Orphan svc r ((UploadOp.commitJob (svc.newJob r)).exec f w).1) ∨
      (leavesFile svc r w (.commitJob (svc.newJob r)) f = false ∧
        FileSettled svc r ((UploadOp.commitJob (svc.newJob r)).exec f w).1) := by
  have hne : w.fileOf svc r ≠ none := ne_none_of_fileOf hfile
  have hexec : (UploadOp.commitJob (svc.newJob r)).exec f w = f.commitJob (svc.newJob r) w := rfl
  rw [hexec]
  cases hacc : w.accepts (svc.newJob r) with
  | false =>
    rw [Fault.commitJob_of_not_accepts hacc]
    refine .inl ⟨?_, hne, hjob⟩
    cases f with
    | ok => exact absurd rfl hf
    | rejected => rfl
    | failed => rfl
    | lost => rw [leavesFile, hacc, Bool.not_false]
  | true =>
    rw [Fault.commitJob_of_accepts hacc]
    cases f with
    | ok => exact absurd rfl hf
    | rejected => exact .inl ⟨rfl, hne, hjob⟩
    | failed => exact .inl ⟨rfl, hne, hjob⟩
    | lost =>
      refine .inr ⟨?_, .inr ⟨hfile, hasJob_insert w⟩⟩
      rw [leavesFile, hacc, Bool.not_true]

/-- A move whose operation fails: the file is left without a row exactly if `leavesFile` says so. -/
theorem FileAt.of_fail (h : FileAt clean r (w.fileOf svc r) (w.HasJob r.jobId) a)
    (hask : Asks svc r a o) (hf : f ≠ .ok) :
    (leavesFile svc r w o f = true ∧ Orphan svc r (o.exec f w).1) ∨
      (leavesFile svc r w o f = false ∧ FileSettled svc r (o.exec f w).1) := by
  cases hask with
  | mkdir =>
    rw [show (UploadOp.mkdir.exec f w).1 = w from f.apply_id _ w]
    exact .inr ⟨rfl, .inl h⟩
  | openWrite =>
    cases f with
    | ok => exact absurd rfl hf
    | rejected => exact .inr ⟨rfl, .inl h⟩
    | failed => exact .inr ⟨rfl, .inl h⟩
    | lost =>
      exact .inl ⟨rfl, ne_none_of_fileOf (fileOf_setFile w _), h.2⟩
  | readChunk =>
    rw [show (UploadOp.readChunk.exec f w).1 = w from f.apply_id _ w]
    exact .inl ⟨decide_eq_true hf, ne_none_of_fileOf h.1, h.2⟩
  | write =>
    have hne : w.fileOf svc r ≠ none := ne_none_of_fileOf h.1
    cases f with
    | ok => exact absurd rfl hf
    | rejected => exact .inl ⟨rfl, hne, h.2⟩
    | failed => exact .inl ⟨rfl, hne, h.2⟩
    | lost =>
      exact .inl ⟨rfl, ne_none_of_fileOf (fileOf_setFile w _), h.2⟩
  | reject => exact unlink_fails h.1 h.2 hf
  | lookup =>
    rw [show ((UploadOp.selectByKey (svc.idempotencyKey r)).exec f w).1 = w from f.query_fst _ _ w]
    refine .inl ⟨?_, ne_none_of_fileOf h.1, h.2⟩
    rw [leavesFile, decide_eq_true hf, h.1]
    rfl
  | found => exact unlink_fails (ne_none_of_fileOf h.1) h.2 hf
  | insert => exact commit_fails h.1 h.2 hf
  | raced =>
    rw [show (UploadOp.rollback.exec f w).1 = w from f.apply_id _ w]
    exact .inl ⟨decide_eq_true hf, ne_none_of_fileOf h.1, h.2⟩
  | discard => exact unlink_fails (ne_none_of_fileOf h.1) h.2 hf
  | reselect =>
    rw [show ((UploadOp.selectByKey (svc.idempotencyKey r)).exec f w).1 = w from f.query_fst _ _ w]
    refine .inr ⟨?_, .inl h⟩
    rw [leavesFile, h.1, Option.isSome_none, Bool.and_false]
  | refresh =>
    rw [show ((UploadOp.refresh r.jobId).exec f w).1 = w from f.query_fst _ _ w]
    exact .inr ⟨rfl, .inr h⟩
  | announce hid =>
    rw [show (UploadOp.ensureGroup.exec f w).1 = w from f.apply_id _ w]
    exact .inr ⟨rfl, .inr h⟩
  | enqueue hid =>
    refine .inr ⟨rfl, .inr ?_⟩
    cases f with
    | ok => exact absurd rfl hf
    | rejected => exact h
    | failed => exact h
    | lost => exact h

theorem FileSettled.fileAt (h : FileSettled svc r w) (x : Except UploadExn (ImportJob × Bool)) :
    FileAt clean r (w.fileOf svc r) (w.HasJob r.jobId) (.ended x) := by
  rcases h with ⟨hfile, hjob⟩ | ⟨hfile, hjob⟩
  · exact .ended_of_none hfile hjob
  · exact .ended_of_job hfile hjob

/-- The call that makes a move keeps what it knows. -/
theorem FileAt.move (h : FileAt clean r (w.fileOf svc r) (w.HasJob r.jobId) a)
    (hmove : UploadMove svc r o f w a w' a') (hclean : clean → leavesFile svc r w o f = false) :
    FileAt clean r (w'.fileOf svc r) (w'.HasJob r.jobId) a' := by
  cases hmove with
  | ok hask hadv => exact h.advance hadv hclean
  | fail hask hf =>
    rcases h.of_fail hask hf with ⟨hleft, horphan⟩ | ⟨-, hsettled⟩
    · refine ⟨fun hjob => absurd hjob horphan.2, fun hc => ?_⟩
      rw [hclean hc] at hleft
      cases hleft
    · exact hsettled.fileAt _

/-- Of the operations that meet no fault, only a commit leaves the file behind. -/
theorem commit_of_leavesFile (h : leavesFile svc r w o .ok = true) :
    ∃ job, o = .commitJob job ∧ job.storable = false := by
  cases o with
  | commitJob job =>
    rw [leavesFile, Bool.not_eq_true'] at h
    exact ⟨job, rfl, h⟩
  | mkdir => cases h
  | openWrite path => cases h
  | readChunk => cases h
  | write path chunk => cases h
  | unlink path => cases h
  | selectByKey key => cases h
  | rollback => cases h
  | refresh id => cases h
  | ensureGroup => cases h
  | xadd id => cases h

/-- A move that leaves the file without a row ends the call. -/
theorem FileAt.orphan (h : FileAt clean r (w.fileOf svc r) (w.HasJob r.jobId) a)
    (hmove : UploadMove svc r o f w a w' a') (hleft : leavesFile svc r w o f = true) :
    Orphan svc r w' ∧ ∃ x, a' = .ended x := by
  cases hmove with
  | ok hask hadv =>
    obtain ⟨job, rfl, hstore⟩ := commit_of_leavesFile hleft
    cases hadv with
    | inserted hacc =>
      rw [(UploadWorld.accepts_iff.mp hacc).1] at hstore
      cases hstore
    | conflict hfits hconf =>
      rw [hfits] at hstore
      cases hstore
    | refused _ =>
      rw [UploadWorld.exec_commitJob_of_not_storable hstore]
      exact ⟨⟨ne_none_of_fileOf h.1, h.2⟩, _, rfl⟩
  | fail hask hf =>
    rcases h.of_fail hask hf with ⟨-, horphan⟩ | ⟨hkept, -⟩
    · exact ⟨horphan, _, rfl⟩
    · rw [hkept] at hleft
      cases hleft

/-! ### All runs -/

/-- Every file has a row or belongs to a request, and every row belongs to a request, or is older
than all requests and has its file. -/
structure Paired (svc : Service) (w : UploadWorld) : Prop where
  files : ∀ path, w.files path ≠ none →
    (∃ row ∈ w.db.jobs, row.storagePath = path) ∨
      ∃ r ∈ w.requests, svc.storagePath r.jobId = path
  rows : ∀ row ∈ w.db.jobs,
    (∃ r ∈ w.requests, row.id = r.jobId ∧ row.storagePath = svc.storagePath r.jobId) ∨
      (w.files row.storagePath ≠ none ∧
        ∀ r ∈ w.requests, row.id ≠ r.jobId ∧ row.storagePath ≠ svc.storagePath r.jobId)

theorem Paired.start (h : InStep w) (hlog : w.requests = []) : Paired svc w := by
  refine ⟨fun path hfile => .inl ((h path).mp hfile), fun row hrow => .inr ⟨?_, ?_⟩⟩
  · exact (h row.storagePath).mpr ⟨row, hrow, rfl⟩
  · rw [hlog]
    nofun

/-- When every request is settled, the files are those of the rows. -/
theorem Paired.inStep (h : Paired svc w) (hsettled : ∀ r ∈ w.requests, FileSettled svc r w) :
    InStep w := by
  -- the row of a request
  have hrow : ∀ r ∈ w.requests, w.HasJob r.jobId →
      ∃ row ∈ w.db.jobs, row.storagePath = svc.storagePath r.jobId := by
    rintro r hr ⟨row, hrow, hid⟩
    rcases h.rows row hrow with ⟨r', -, hid', hpath⟩ | ⟨-, hold⟩
    · rw [← hid, hid', ← hpath]
      exact ⟨row, hrow, rfl⟩
    · exact absurd hid (hold r hr).1
  intro path
  constructor
  · intro hfile
    rcases h.files path hfile with hjob | ⟨r, hr, rfl⟩
    · exact hjob
    · rcases hsettled r hr with ⟨hnone, -⟩ | ⟨-, hjob⟩
      · exact absurd hnone hfile
      · exact hrow r hr hjob
  · rintro ⟨row, hrow, rfl⟩
    rcases h.rows row hrow with ⟨r, hr, hid, hpath⟩ | ⟨hfile, -⟩
    · rcases hsettled r hr with ⟨-, hjob⟩ | ⟨hfile, -⟩
      · exact absurd ⟨row, hrow, hid⟩ hjob
      · rw [hpath]
        exact ne_none_of_fileOf hfile
    · exact hfile

/-- An orphan is a file without a row. -/
theorem Paired.not_inStep (h : Paired svc w) (hr : r ∈ w.requests) (horphan : Orphan svc r w) :
    ¬ InStep w := by
  intro hstep
  obtain ⟨row, hrow, hpath⟩ := (hstep _).mp horphan.1
  rcases h.rows row hrow with ⟨r', -, hid, hpath'⟩ | ⟨-, hold⟩
  · have hsame : r'.jobId = r.jobId := svc.storagePath_inj (hpath'.symm.trans hpath)
    exact horphan.2 ⟨row, hrow, hid.trans hsame⟩
  · exact (hold r hr).2 hpath

/-- A move changes the file and the row of its own request only. -/
theorem Paired.move (h : Paired svc w) (hr : r ∈ w.requests)
    (hmove : UploadMove svc r o f w a w' a') : Paired svc w' := by
  rcases hmove.effect with rfl | ⟨content, rfl⟩ | ⟨-, -, -, -, rfl⟩ | ⟨-, -, -, rfl⟩
  · exact h
  · have hsame : ∀ path, path ≠ svc.storagePath r.jobId →
        (w.setFile (svc.storagePath r.jobId) content).files path = w.files path :=
      fun path hne => Function.update_of_ne hne ..
    refine ⟨fun path hfile => ?_, fun row hrow => ?_⟩
    · by_cases hpath : path = svc.storagePath r.jobId
      · exact .inr ⟨r, hr, hpath.symm⟩
      · rw [hsame path hpath] at hfile
        exact h.files path hfile
    · rcases h.rows row hrow with hmine | ⟨hfile, hold⟩
      · exact .inl hmine
      · refine .inr ⟨?_, hold⟩
        rw [hsame _ (hold r hr).2]
        exact hfile
  · refine ⟨fun path hfile => ?_, fun row hrow => ?_⟩
    · rcases h.files path hfile with ⟨row, hrow, hpath⟩ | hmine
      · exact .inl ⟨row, List.mem_append_left _ hrow, hpath⟩
      · exact .inr hmine
    · rcases List.mem_append.mp hrow with hrow | hrow
      · exact h.rows row hrow
      · rw [List.mem_singleton.mp hrow]
        exact .inl ⟨r, hr, rfl, rfl⟩
  · exact ⟨h.files, h.rows⟩

theorem Paired.arrive {x : UploadArrival}
    {p : Option (Request × Program UploadOp UploadOp.Ans (Except UploadExn (ImportJob × Bool)))}
    (h : Paired svc w) (hx : x.apply svc w = some (w', p)) : Paired svc w' := by
  rcases UploadArrival.apply_cases hx with ⟨r, -, hu, -, rfl⟩ | ⟨stream, -, rfl, -⟩ |
    ⟨row, -, -, -, rfl⟩
  · obtain ⟨hids, -, hnone, -⟩ := UploadWorld.unused_iff.mp hu
    refine ⟨fun path hfile => ?_, fun row hrow => ?_⟩
    · rcases h.files path hfile with hjob | ⟨r', hr', hpath⟩
      · exact .inl hjob
      · exact .inr ⟨r', List.mem_append_left _ hr', hpath⟩
    · rcases h.rows row hrow with ⟨r', hr', hmine⟩ | ⟨hfile, hold⟩
      · exact .inl ⟨r', List.mem_append_left _ hr', hmine⟩
      · refine .inr ⟨hfile, fun r' hr' => ?_⟩
        rcases List.mem_append.mp hr' with hr' | hr'
        · exact hold r' hr'
        · -- the path of the new request has no file
          rw [List.mem_singleton.mp hr']
          refine ⟨hids row hrow, fun hpath => hfile ?_⟩
          rw [hpath]
          exact hnone
  · exact ⟨h.files, h.rows⟩
  · have hkept : ∀ old : ImportJob,
        (if old.id = row.id then old.overwrite row else old).id = old.id ∧
          (if old.id = row.id then old.overwrite row else old).storagePath = old.storagePath :=
      fun old => ⟨congrArg Prod.fst (upload_work row old),
        congrArg (fun u => u.2.2.2.1) (upload_work row old)⟩
    refine ⟨fun path hfile => ?_, fun new hnew => ?_⟩
    · rcases h.files path hfile with ⟨old, hold, hpath⟩ | hmine
      · exact .inl ⟨_, List.mem_map_of_mem hold, (hkept old).2.trans hpath⟩
      · exact .inr hmine
    · obtain ⟨old, hold, rfl⟩ := List.mem_map.mp hnew
      obtain ⟨hid, hpath⟩ := hkept old
      rw [hid, hpath]
      exact h.rows old hold

/-- Nobody but the call itself touches its file and its row. -/
theorem UploadMove.others {r' : Request} (hmove : UploadMove svc r o f w a w' a')
    (hne : r.jobId ≠ r'.jobId) :
    w'.fileOf svc r' = w.fileOf svc r' ∧ (w'.HasJob r'.jobId ↔ w.HasJob r'.jobId) := by
  have hkept := hmove.kept
  refine ⟨?_, fun hjob => ?_, hkept.jobs _⟩
  · rcases hmove.effect with rfl | ⟨content, rfl⟩ | ⟨-, -, -, -, rfl⟩ | ⟨-, -, -, rfl⟩
    · rfl
    · exact Function.update_of_ne (fun hpath => hne (svc.storagePath_inj hpath).symm) ..
    · rfl
    · rfl
  · rcases hkept.new _ hjob with hjob | heq
    · exact hjob
    · exact absurd (Option.some.inj heq) hne

theorem UploadArrival.others {x : UploadArrival}
    {p : Option (Request × Program UploadOp UploadOp.Ans (Except UploadExn (ImportJob × Bool)))}
    (hx : x.apply svc w = some (w', p)) :
    w'.fileOf svc r = w.fileOf svc r ∧ (w'.HasJob r.jobId ↔ w.HasJob r.jobId) := by
  have hkept := UploadArrival.kept hx
  refine ⟨?_, fun hjob => (hkept.new _ hjob).resolve_right nofun, hkept.jobs _⟩
  rcases UploadArrival.apply_cases hx with ⟨r, -, -, -, rfl⟩ | ⟨stream, -, rfl, -⟩ |
    ⟨row, -, -, -, rfl⟩
  · rfl
  · rfl
  · rfl

/-- The operation that is run ends a call and leaves its file without a row. -/
def orphaning (svc : Service) (c : UploadPool) : UploadEvent → Bool
  | .run i f =>
    match c.procs[i]? with
    | some ⟨r, some (.call o _)⟩ => leavesFile svc r c.world o f
    | _ => false
  | _ => false

/-- The outline of the files. -/
def fileOutline (svc : Service) (clean : Prop) : Outline UploadWorld Request Stage where
  Inv := Paired svc
  Loc r a w := FileAt clean r (w.fileOf svc r) (w.HasJob r.jobId) a
  Guar _ _ := True

theorem fileOutline_sound (svc : Service) (clean : Prop) :
    (fileOutline svc clean).Sound (uploads svc)
      (fun c e => (clean → orphaning svc c e = false) ∧ Logged c) (UploadMove svc)
      fun _ x a => a = .ended x := by
  refine uploads_sound ?_ ?_
  · intro c ph i r o k f a' hold hC hi hmove
    have hat : FileAt clean r (c.world.fileOf svc r) (c.world.HasJob r.jobId) (ph i) :=
      hold.loc i r _ hi
    have hclean : clean → leavesFile svc r c.world o f = false := by
      intro hc
      have hgood := hC.1 hc
      rw [orphaning, hi] at hgood
      exact hgood
    refine ⟨Paired.move hold.inv (hC.2.mem_requests hi) hmove, hat.move hmove hclean, trivial,
      fun j r' p' hji hj => ?_⟩
    have hne : r.jobId ≠ r'.jobId := fun heq => hji (hC.2.index_eq hi hj heq).symm
    obtain ⟨hfile, hjob⟩ := hmove.others hne
    change FileAt clean r' _ _ (ph j)
    rw [hfile, propext hjob]
    exact hold.loc j r' p' hj
  · intro c ph x w p hold _ hx
    refine ⟨Paired.arrive hold.inv hx, trivial, fun i r p hi => ?_, fun r q hp => ?_⟩
    · obtain ⟨hfile, hjob⟩ := UploadArrival.others (r := r) hx
      change FileAt clean r _ _ (ph i)
      rw [hfile, propext hjob]
      exact hold.loc i r p hi
    · subst hp
      obtain ⟨-, hu, -, rfl⟩ := UploadArrival.request_of_apply hx
      have hjob : ¬ c.world.HasJob r.jobId := UploadWorld.not_hasJob_of_unused hu
      obtain ⟨-, -, hnone, -⟩ := UploadWorld.unused_iff.mp hu
      change FileAt clean r (c.world.fileOf svc r) (c.world.HasJob r.jobId) (.initial r)
      unfold Stage.initial
      split
      · exact ⟨hnone, hjob⟩
      · exact .ended_of_none hnone hjob

/-! ### A file that is left stays -/

/-- A call is over, and its file has no row. -/
def Abandoned (svc : Service) (c : UploadPool) : Prop :=
  ∃ p ∈ c.procs, p.live = false ∧ Orphan svc p.tag c.world

/-- A program in a final stage has returned. -/
theorem not_live_of_ended
    {p : Program UploadOp UploadOp.Ans (Except UploadExn (ImportJob × Bool))}
    {x : Except UploadExn (ImportJob × Bool)}
    (h : p.Follows UploadOp.exec (UploadMove svc r) (fun x a => a = .ended x) (.ended x)) :
    (Proc.mk r (some p)).live = false := by
  cases p with
  | done y => rfl
  | call o k =>
    obtain ⟨a', hmove, -⟩ := h .ok emptyUploads
    cases hmove.asks

section Abandoned

variable {c d : UploadPool} {e : UploadEvent} {ph : ℕ → Stage}
variable (hold : UploadsHold svc (fileOutline svc clean) c ph)

include hold

theorem abandoned_of_orphaning (hleft : orphaning svc c e = true)
    (hn : (uploads svc).next c e = some d) : Abandoned svc d := by
  rcases System.next_cases hn with ⟨i, f, r, o, k, rfl, hi, rfl⟩ | ⟨i, r, o, k, rfl, hi, rfl⟩ |
    ⟨x, w, rfl, hx, rfl⟩ | ⟨x, w, r, p, rfl, hx, rfl⟩
  · rw [orphaning, hi] at hleft
    obtain ⟨a', hmove, hfollows⟩ := hold.follows i r _ hi f c.world
    have hat : FileAt clean r (c.world.fileOf svc r) (c.world.HasJob r.jobId) (ph i) :=
      hold.loc i r _ hi
    obtain ⟨horphan, x, rfl⟩ := hat.orphan hmove hleft
    obtain ⟨hlt, -⟩ := List.getElem?_eq_some_iff.mp hi
    exact ⟨_, List.mem_set hlt _, not_live_of_ended hfollows, horphan⟩
  · cases hleft
  · cases hleft
  · cases hleft

/-- Nobody removes the file or inserts a row for it. -/
theorem Abandoned.next (hlog : Logged c) (h : Abandoned svc c)
    (hn : (uploads svc).next c e = some d) : Abandoned svc d := by
  obtain ⟨p, hp, hlive, horphan⟩ := h
  obtain ⟨j, hj⟩ := List.mem_iff_getElem?.mp hp
  -- a program that makes a step is another one
  have hne : ∀ {i r o k}, c.procs[i]? = some ⟨r, some (.call o k)⟩ → j ≠ i := by
    rintro i r o k hi rfl
    rw [hi] at hj
    cases hj
    cases hlive
  have hkeep : ∀ {w' : UploadWorld}, w'.fileOf svc p.tag = c.world.fileOf svc p.tag →
      (w'.HasJob p.tag.jobId ↔ c.world.HasJob p.tag.jobId) → Orphan svc p.tag w' := by
    intro w' hfile hjob
    unfold Orphan
    rw [hfile, hjob]
    exact horphan
  rcases System.next_cases hn with ⟨i, f, r, o, k, rfl, hi, rfl⟩ | ⟨i, r, o, k, rfl, hi, rfl⟩ |
    ⟨x, w, rfl, hx, rfl⟩ | ⟨x, w, r, q, rfl, hx, rfl⟩
  · obtain ⟨a', hmove, -⟩ := hold.follows i r _ hi f c.world
    have hids : r.jobId ≠ p.tag.jobId := fun heq => hne hi (hlog.index_eq hi hj heq).symm
    obtain ⟨hfile, hjob⟩ := UploadMove.others hmove hids
    exact ⟨p, mem_set_of_ne hj (hne hi), hlive, hkeep hfile hjob⟩
  · exact ⟨p, mem_set_of_ne hj (hne hi), hlive, horphan⟩
  · obtain ⟨hfile, hjob⟩ := UploadArrival.others (r := p.tag) hx
    exact ⟨p, hp, hlive, hkeep hfile hjob⟩
  · obtain ⟨hfile, hjob⟩ := UploadArrival.others (r := p.tag) hx
    exact ⟨p, List.mem_append_left _ hp, hlive, hkeep hfile hjob⟩

/-- What was left behind in a run is there in all later states. -/
theorem Abandoned.not_inStep (hclean : ¬ clean) (hlog : Logged c) (h : Abandoned svc c)
    (hd : (uploads svc).Reaches (fun _ _ => True) c d) : ¬ InStep d.world := by
  obtain ⟨hd', hlog'⟩ := hd.strengthen hlog fun c e d h _ hn => h.next hn
  have hd'' : (uploads svc).Reaches
      (fun c e => (clean → orphaning svc c e = false) ∧ Logged c) c d :=
    hd'.mono fun c e hC => ⟨fun hc => absurd hc hclean, hC.2⟩
  obtain ⟨-, ⟨p, hp, -, horphan⟩, ph', hold'⟩ := (fileOutline_sound svc clean).strengthen hold h
    (fun c ph e d ph' hold h hC hn _ => h.next hold hC.2 hn) hd''
  have hmem : p.tag ∈ d.world.requests := by
    rw [hlog'.requests]
    exact List.mem_map_of_mem hp
  exact Paired.not_inStep hold'.inv hmem horphan

end Abandoned

/-- What is known of a run. -/
theorem fileOutline_reaches (clean : Prop) (hstart : InStep w) (hlog : w.requests = [])
    {C : UploadPool → UploadEvent → Prop} {c : UploadPool}
    (hC : ∀ c e, C c e → clean → orphaning svc c e = false)
    (hc : (uploads svc).Reaches C ⟨w, []⟩ c) :
    Logged c ∧ ∃ ph, UploadsHold svc (fileOutline svc clean) c ph := by
  obtain ⟨hc', hlogged⟩ := Logged.reaches hlog hc
  obtain ⟨hhold, -⟩ := (fileOutline_sound svc clean).reaches
    (Outline.holds_empty (Paired.start hstart hlog) fun _ => .start)
    (hc'.mono fun c e hC' => ⟨hC c e hC'.1, hC'.2⟩)
  exact ⟨hlogged, hhold⟩

/-- Consider a run of any number of requests that starts with exactly the files of the rows, and in
which all calls have ended, each in any way.  Then the files are again those of the rows, and the
file of every new job holds the uploaded bytes, exactly if no operation of the run has ended a call
in a way that leaves its file behind. -/
theorem uploads_in_step_iff (svc : Service) (w : UploadWorld) (hstart : InStep w)
    (hlog : w.requests = []) (es : List UploadEvent) (c : UploadPool)
    (hrun : (uploads svc).perform (fun _ _ => true) ⟨w, []⟩ es = some c)
    (hended : ∀ p ∈ c.procs, ∃ x, p.result = some x) :
    (InStep c.world ∧ ∀ p ∈ c.procs, c.world.HasJob p.tag.jobId →
        c.world.fileOf svc p.tag = some p.tag.content) ↔
      ∀ (n : ℕ) (e : UploadEvent) (d : UploadPool), es[n]? = some e →
        (uploads svc).perform (fun _ _ => true) ⟨w, []⟩ (es.take n) = some d →
        orphaning svc d e = false := by
  constructor
  · rintro ⟨hstep, -⟩ n e d he hd
    obtain ⟨hfront, d', hn, hback⟩ := System.reaches_around hrun he hd
    cases hleft : orphaning svc d e with
    | false => rfl
    | true =>
      obtain ⟨hlogged, ph, hold⟩ := fileOutline_reaches False hstart hlog
        (fun _ _ _ hc => hc.elim) hfront
      obtain ⟨hlogged', ph', hold'⟩ := fileOutline_reaches False hstart hlog
        (fun _ _ _ hc => hc.elim) (hfront.tail trivial hn)
      exact absurd hstep ((abandoned_of_orphaning hold hleft hn).not_inStep hold' id hlogged' hback)
  · intro hgood
    obtain ⟨hlogged, ph, hold⟩ := fileOutline_reaches True hstart hlog
      (fun _ _ hC _ => hC) (System.reaches_of_forall hrun hgood)
    have hat : ∀ p ∈ c.procs,
        (c.world.HasJob p.tag.jobId → c.world.fileOf svc p.tag = some p.tag.content) ∧
          (c.world.fileOf svc p.tag ≠ none → c.world.HasJob p.tag.jobId) := by
      intro p hp
      obtain ⟨i, hi⟩ := List.mem_iff_getElem?.mp hp
      obtain ⟨x, hx⟩ := hended p hp
      obtain ⟨hfinal, hloc⟩ := hold.of_result hi hx
      rw [hfinal] at hloc
      exact ⟨hloc.1, hloc.2 trivial⟩
    refine ⟨Paired.inStep hold.inv fun r hr => ?_, fun p hp => (hat p hp).1⟩
    rw [hlogged.requests] at hr
    obtain ⟨p, hp, rfl⟩ := List.mem_map.mp hr
    obtain ⟨hfile, hjob⟩ := hat p hp
    by_cases hnone : c.world.fileOf svc p.tag = none
    · refine .inl ⟨hnone, fun hjob' => ?_⟩
      rw [hfile hjob'] at hnone
      cases hnone
    · exact .inr ⟨hfile (hjob hnone), hjob hnone⟩

theorem inStep_emptyUploads : InStep emptyUploads :=
  fun _ => iff_of_false (fun hne => hne rfl) nofun

theorem sample_uploads_in_step :
    ∃ c, (uploads sampleService).perform (fun _ _ => true) ⟨emptyUploads, []⟩
        (.arrive (.request (sampleRequest firstClient firstJob)) :: uploadRuns 0 10) = some c ∧
      InStep c.world := by
  have hrun : ((uploads sampleService).perform (fun c e => !orphaning sampleService c e)
      ⟨emptyUploads, []⟩ (.arrive (.request (sampleRequest firstClient firstJob)) ::
        uploadRuns 0 10)).map (fun c => c.procs.all fun p => p.result.isSome) = some true := by
    decide +kernel
  obtain ⟨c, hc, hreturned⟩ := Option.map_eq_some_iff.mp hrun
  obtain ⟨hperform, htest⟩ := System.forall_of_perform hc
  have hiff := uploads_in_step_iff sampleService emptyUploads inStep_emptyUploads rfl _ c hperform
    fun p hp => Option.isSome_iff_exists.mp (List.all_eq_true.mp hreturned p hp)
  refine ⟨c, hperform, (hiff.mpr fun n e d he hd => ?_).1⟩
  exact (Bool.not_eq_true' _).mp (htest n e d he hd)

/-- A key of 129 characters: nothing fails, but the row does not fit, the commit raises, and the
file stays without a job. -/
theorem long_key_leaves_file :
    InStep emptyUploads ∧
      ∃ c, (uploads sampleService).perform (fun _ _ => true) ⟨emptyUploads, []⟩
          (.arrive (.request longKeyRequest) :: uploadRuns 0 7) = some c ∧
        (∀ p ∈ c.procs, ∃ x, p.result = some x) ∧ ¬ InStep c.world := by
  have hrun : ((uploads sampleService).perform (fun _ _ => true) ⟨emptyUploads, []⟩
      (.arrive (.request longKeyRequest) :: uploadRuns 0 7)).map (fun c =>
        (c.procs.all fun p => p.result.isSome,
          (c.world.files (sampleService.storagePath firstJob)).isSome, c.world.db.jobs.length)) =
      some (true, true, 0) := by decide +kernel
  obtain ⟨c, hc, hout⟩ := Option.map_eq_some_iff.mp hrun
  simp only [Prod.mk.injEq] at hout
  obtain ⟨hreturned, hfile, hjobs⟩ := hout
  refine ⟨inStep_emptyUploads, c, hc,
    fun p hp => Option.isSome_iff_exists.mp (List.all_eq_true.mp hreturned p hp), fun hstep => ?_⟩
  obtain ⟨row, hrow, -⟩ := (hstep _).mp (Option.isSome_iff_ne_none.mp hfile)
  rw [List.length_eq_zero_iff.mp hjobs] at hrow
  cases hrow

end TransactionPlatform
