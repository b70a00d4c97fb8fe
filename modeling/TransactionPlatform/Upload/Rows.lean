import TransactionPlatform.Upload.Stages

/-!
# The rows of `import_jobs` under concurrent requests

No step of a request or of a worker deletes a row or an entry.  A call of `create_import` inserts at
most its own row, and the columns it fills in are never written again.  `Kept` says this once for
all steps.
-/

namespace TransactionPlatform

open Interleaved

/-- The table has a job with this id. -/
def UploadWorld.HasJob (w : UploadWorld) (id : Uuid) : Prop := ∃ row ∈ w.db.jobs, row.id = id

instance (w : UploadWorld) (id : Uuid) : Decidable (w.HasJob id) :=
  inferInstanceAs (Decidable (∃ row ∈ w.db.jobs, row.id = id))

/-- A row with the id of the request is the row of the request. -/
def Owned (svc : Service) (r : Request) (w : UploadWorld) : Prop :=
  ∀ row ∈ w.db.jobs, row.id = r.jobId → row.upload = (svc.newJob r).upload

variable {svc : Service} {r : Request} {o : UploadOp} {f : Fault} {w w' : UploadWorld}
variable {a a' : Stage}

/-- Different ids have different paths. -/
theorem Service.storagePath_inj (svc : Service) {id id' : Uuid}
    (h : svc.storagePath id = svc.storagePath id') : id = id' := by
  have htext : id.text = id'.text := by
    have hlist := congrArg String.toList h
    simp only [storagePath, String.toList_append, List.append_assoc, List.append_cancel_left_eq,
      List.append_cancel_right_eq] at hlist
    exact String.toList_injective hlist
  cases id
  cases id'
  cases htext
  rfl

theorem UploadWorld.hasJob_of_job {id : Uuid} {row : ImportJob} (h : w.db.job id = some row) :
    w.HasJob id :=
  ⟨row, List.mem_of_find?_eq_some h, Db.id_of_job h⟩

theorem UploadWorld.not_hasJob_of_job {id : Uuid} (h : w.db.job id = none) : ¬ w.HasJob id := by
  rintro ⟨row, hrow, hid⟩
  exact List.find?_eq_none.mp h row hrow (decide_eq_true hid)

/-- A new id has no row. -/
theorem UploadWorld.not_hasJob_of_unused {id : Uuid} (h : w.unused svc id = true) :
    ¬ w.HasJob id := by
  rintro ⟨row, hrow, hid⟩
  exact (UploadWorld.unused_iff.mp h).1 row hrow hid

theorem UploadWorld.hasJob_of_jobByKey {key : String} {job : ImportJob}
    (h : w.jobByKey key = some job) : w.HasJob job.id :=
  ⟨job, List.mem_of_find?_eq_some h, rfl⟩

/-- The lookup by the key finds a row with this key. -/
theorem UploadWorld.key_of_jobByKey {key : String} {job : ImportJob}
    (h : w.jobByKey key = some job) : job.idempotencyKey = key := by
  have hkey := List.find?_some h
  exact of_decide_eq_true hkey

/-- `XADD` enqueues the id. -/
theorem enqueued_xadd (s : Stream) (id : Uuid) : (s.xadd id).Enqueued id :=
  ⟨⟨id, .fresh⟩, List.mem_append_right _ List.mem_cons_self, rfl⟩

/-- Nothing is deleted; the only new row is the one of `r`; the columns of the upload stay. -/
structure Kept (id : Option Uuid) (w w' : UploadWorld) : Prop where
  jobs : ∀ id, w.HasJob id → w'.HasJob id
  new : ∀ id', w'.HasJob id' → w.HasJob id' ∨ id = some id'
  stream : ∀ id, w.stream.Enqueued id → w'.stream.Enqueued id
  upload : ∀ row' ∈ w'.db.jobs, id ≠ some row'.id → ∃ row ∈ w.db.jobs, row.upload = row'.upload

/-- The rows are the same. -/
theorem Kept.of_eq {id : Option Uuid} (hdb : w'.db = w.db)
    (hstream : ∀ id, w.stream.Enqueued id → w'.stream.Enqueued id) : Kept id w w' := by
  refine ⟨?_, ?_, hstream, ?_⟩
  · intro id hjob
    rw [UploadWorld.HasJob, hdb]
    exact hjob
  · intro id' hjob
    rw [UploadWorld.HasJob, hdb] at hjob
    exact .inl hjob
  · intro row' hrow' _
    rw [hdb] at hrow'
    exact ⟨row', hrow', rfl⟩

/-- A move of a call. -/
theorem UploadMove.kept (hmove : UploadMove svc r o f w a w' a') : Kept (some r.jobId) w w' := by
  rcases hmove.effect with rfl | ⟨content, rfl⟩ | ⟨-, -, -, -, rfl⟩ | ⟨-, -, -, rfl⟩
  · exact .of_eq rfl fun _ henq => henq
  · exact .of_eq rfl fun _ henq => henq
  · refine ⟨?_, ?_, fun _ henq => henq, ?_⟩
    · rintro id ⟨row, hrow, hid⟩
      exact ⟨row, List.mem_append_left _ hrow, hid⟩
    · rintro id ⟨row, hrow, hid⟩
      rcases List.mem_append.mp hrow with hrow | hrow
      · exact .inl ⟨row, hrow, hid⟩
      · rw [List.mem_singleton.mp hrow] at hid
        exact .inr (congrArg some hid)
    · intro row' hrow' hne
      rcases List.mem_append.mp hrow' with hrow' | hrow'
      · exact ⟨row', hrow', rfl⟩
      · rw [List.mem_singleton.mp hrow'] at hne
        exact absurd rfl hne
  · refine .of_eq rfl ?_
    rintro id ⟨x, hx, hid⟩
    exact ⟨x, List.mem_append_left _ hx, hid⟩

/-- What a worker commits keeps the columns of the upload. -/
theorem upload_work (row old : ImportJob) :
    (if old.id = row.id then old.overwrite row else old).upload = old.upload := by
  split
  · rfl
  · rfl

/-- A commit of a worker inserts no row. -/
theorem kept_work (w : UploadWorld) (row : ImportJob) :
    Kept none w { w with db := w.db.updateJob row.id fun old => old.overwrite row } := by
  have hid : ∀ old : ImportJob, (if old.id = row.id then old.overwrite row else old).id = old.id :=
    fun old => congrArg Prod.fst (upload_work row old)
  refine ⟨?_, ?_, fun _ henq => henq, ?_⟩
  · rintro id ⟨old, hold, rfl⟩
    exact ⟨_, List.mem_map_of_mem hold, hid old⟩
  · rintro id ⟨new, hnew, rfl⟩
    obtain ⟨old, hold, rfl⟩ := List.mem_map.mp hnew
    exact .inl ⟨old, hold, (hid old).symm⟩
  · intro new hnew _
    obtain ⟨old, hold, rfl⟩ := List.mem_map.mp hnew
    exact ⟨old, hold, (upload_work row old).symm⟩

/-- An arrival. -/
theorem UploadArrival.kept {x : UploadArrival}
    {p : Option (Request × Program UploadOp UploadOp.Ans (Except UploadExn (ImportJob × Bool)))}
    (hx : x.apply svc w = some (w', p)) : Kept none w w' := by
  rcases UploadArrival.apply_cases hx with ⟨r, -, -, -, rfl⟩ | ⟨stream, -, rfl, hstream⟩ |
    ⟨row, -, -, -, rfl⟩
  · exact .of_eq rfl fun _ henq => henq
  · refine .of_eq rfl ?_
    rintro id ⟨x, hx, rfl⟩
    obtain ⟨i, hi⟩ := List.mem_iff_getElem?.mp hx
    rcases hstream with ⟨entry, id', -, hclaim⟩ | ⟨entry, -, rfl⟩
    · obtain ⟨y, hy, -⟩ := Stream.getElem?_claim hclaim hi
      exact ⟨_, List.mem_of_getElem? hy, rfl⟩
    · obtain ⟨y, hy, -⟩ := Stream.getElem?_xack (e := entry) hi
      exact ⟨_, List.mem_of_getElem? hy, rfl⟩
  · exact kept_work w row

/-- What others do leaves the row of the request alone. -/
theorem Owned.kept {id : Option Uuid} (h : Owned svc r w) (hkept : Kept id w w')
    (hne : id ≠ some r.jobId) : Owned svc r w' := by
  intro row' hrow' hid
  obtain ⟨row, hrow, hup⟩ := hkept.upload row' hrow' (by rw [hid]; exact hne)
  rw [← hup]
  exact h row hrow ((congrArg Prod.fst hup).trans hid)

/-- A call keeps its own row. -/
theorem Owned.move (h : Owned svc r w) (hmove : UploadMove svc r o f w a w' a') :
    Owned svc r w' := by
  rcases hmove.effect with rfl | ⟨content, rfl⟩ | ⟨-, -, -, -, rfl⟩ | ⟨-, -, -, rfl⟩
  · exact h
  · exact h
  · intro row hrow hid
    rcases List.mem_append.mp hrow with hrow | hrow
    · exact h row hrow hid
    · rw [List.mem_singleton.mp hrow]
  · exact h

end TransactionPlatform
