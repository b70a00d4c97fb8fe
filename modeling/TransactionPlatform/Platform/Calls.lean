import TransactionPlatform.Upload.Polling
import TransactionPlatform.Worker.EndToEnd
import TransactionPlatform.Worker.Footprint

/-!
# What the workers can rely on

A call of `create_import` commits its own row only, enqueues its own job only, once and behind the
row, and a file that belongs to a row is never written again.
-/

namespace TransactionPlatform

open Interleaved

variable {svc : Service} {r : Request} {o : UploadOp} {f : Fault} {w w' : UploadWorld}
variable {a a' : Stage} {C : UploadPool → UploadEvent → Prop} {c d : UploadPool} {i : ℕ}

/-! ### A call enqueues its job once -/

/-- What arrives from outside adds no entry. -/
theorem UploadArrival.enqueued_of_apply {x : UploadArrival}
    {p : Option (Request × Program UploadOp UploadOp.Ans (Except UploadExn (ImportJob × Bool)))}
    (hx : x.apply svc w = some (w', p)) {id : Uuid} (h : w'.stream.Enqueued id) :
    w.stream.Enqueued id := by
  rcases UploadArrival.apply_cases hx with ⟨r, -, -, -, rfl⟩ | ⟨stream, -, rfl, hstream⟩ |
    ⟨row, -, -, -, rfl⟩
  · exact h
  · obtain ⟨y, hy, rfl⟩ := h
    rcases hstream with ⟨entry, id', -, hclaim⟩ | ⟨entry, -, rfl⟩
    · exact Stream.mem_claim hclaim hy
    · exact Stream.mem_xack hy
  · exact h

/-- The entry of a call is the last thing it does. -/
theorem UploadMove.enqueued_of_own (hmove : UploadMove svc r o f w a w' a')
    (ha' : ∀ x, a' ≠ .ended x) : w'.stream = w.stream := by
  rcases hmove.effect with rfl | ⟨content, rfl⟩ | ⟨-, -, -, -, rfl⟩ | ⟨-, rfl, -, -⟩
  · rfl
  · rfl
  · rfl
  · cases hmove with
    | ok hask hadv =>
      cases hadv
      exact absurd rfl (ha' _)
    | fail hask hf => exact absurd rfl (ha' _)

/-- The entries of other calls are not touched. -/
theorem UploadMove.enqueued_of_other (hmove : UploadMove svc r o f w a w' a') {id : Uuid}
    (hne : r.jobId ≠ id) (h : w'.stream.Enqueued id) : w.stream.Enqueued id := by
  rcases hmove.effect with rfl | ⟨content, rfl⟩ | ⟨-, -, -, -, rfl⟩ | ⟨-, -, -, rfl⟩
  · exact h
  · exact h
  · exact h
  · obtain ⟨y, hy, rfl⟩ := h
    rcases List.mem_append.mp hy with hy | hy
    · exact ⟨y, hy, rfl⟩
    · rw [List.mem_singleton.mp hy] at hne
      exact absurd rfl hne

/-- A call that has not ended has not enqueued its job. -/
def announceOutline : Outline UploadWorld Request Stage where
  Inv _ := True
  Loc r a w := (∀ x, a ≠ .ended x) → ¬ w.stream.Enqueued r.jobId
  Guar _ _ := True

theorem announceOutline_sound (svc : Service) :
    announceOutline.Sound (uploads svc) (fun c e => C c e ∧ Logged c) (UploadMove svc)
      fun _ x a => a = .ended x := by
  refine uploads_sound ?_ ?_
  · intro c ph i r o k f a' hold hC hi hmove
    refine ⟨trivial, fun ha' => ?_, trivial, fun j r' p' hji hj hph henq => ?_⟩
    · have hask := hmove.asks
      have hnot : ¬ c.world.stream.Enqueued r.jobId := by
        refine hold.loc i r _ hi fun x hx => ?_
        rw [hx] at hask
        cases hask
      rw [hmove.enqueued_of_own ha']
      exact hnot
    · refine hold.loc j r' p' hj hph (hmove.enqueued_of_other (fun heq => ?_) henq)
      exact hji (hC.2.index_eq hi hj heq).symm
  · intro c ph x w p hold _ hx
    refine ⟨trivial, trivial, fun i r p hi hph henq => ?_, fun r q hp _ henq => ?_⟩
    · exact hold.loc i r p hi hph (UploadArrival.enqueued_of_apply hx henq)
    · subst hp
      obtain ⟨-, hu, -, rfl⟩ := UploadArrival.request_of_apply hx
      exact (UploadWorld.unused_iff.mp hu).2.1 henq

/-- The entry a call is about to add is that of its own job, which has a row and no entry yet. -/
theorem enqueue_once (hc : (uploads svc).Reaches C ⟨emptyUploads, []⟩ c) {id : Uuid}
    {k : (UploadOp.xadd id).Ans →
      Program UploadOp UploadOp.Ans (Except UploadExn (ImportJob × Bool))}
    (hi : c.procs[i]? = some ⟨r, some (.call (.xadd id) k)⟩) :
    c.world.HasJob id ∧ ¬ c.world.stream.Enqueued id := by
  obtain ⟨hc', -⟩ := Logged.reaches rfl hc
  obtain ⟨-, ph, hold⟩ := fileOutline_reaches False inStep_emptyUploads rfl
    (fun _ _ _ h => h.elim) hc
  obtain ⟨⟨ph', hold'⟩, -⟩ := (announceOutline_sound svc).reaches
    (Outline.holds_empty trivial fun _ => .start) hc'
  obtain ⟨a', hmove, -⟩ := hold.follows i r _ hi .ok c.world
  obtain ⟨a'', hmove', -⟩ := hold'.follows i r _ hi .ok c.world
  have hask := hmove.asks
  have hask' := hmove'.asks
  have hat : FileAt False r (c.world.fileOf svc r) (c.world.HasJob r.jobId) (ph i) :=
    hold.loc i r _ hi
  have hnot := hold'.loc i r _ hi
  generalize ph i = a at hask hat
  generalize ph' i = a₂ at hask' hnot
  cases hask with
  | enqueue hid =>
    cases hask' with
    | enqueue hid' => exact ⟨hat.2, hnot fun x hx => by cases hx⟩

/-- The row a call is about to commit is its own. -/
theorem commit_of_call (hc : (uploads svc).Reaches C ⟨emptyUploads, []⟩ c) {job : ImportJob}
    {k : (UploadOp.commitJob job).Ans →
      Program UploadOp UploadOp.Ans (Except UploadExn (ImportJob × Bool))}
    (hi : c.procs[i]? = some ⟨r, some (.call (.commitJob job) k)⟩) : job = svc.newJob r := by
  obtain ⟨-, ph, hold⟩ := fileOutline_reaches False inStep_emptyUploads rfl
    (fun _ _ _ h => h.elim) hc
  obtain ⟨a', hmove, -⟩ := hold.follows i r _ hi .ok c.world
  have hask := hmove.asks
  generalize ph i = a at hask
  cases hask
  rfl

/-! ### One row for every key -/

/-- The unique constraint on `idempotency_key` holds at all times. -/
theorem distinct_keys (hc : (uploads svc).Reaches C ⟨emptyUploads, []⟩ c) :
    (c.world.db.jobs.map ImportJob.idempotencyKey).Nodup := by
  induction hc with
  | refl => exact List.nodup_nil
  | @tail c e d _ _ hn ih =>
    rcases System.next_cases hn with ⟨i, f, t, o, k, -, hi, rfl⟩ | ⟨i, t, o, k, -, hi, rfl⟩ |
      ⟨x, w, -, hx, rfl⟩ | ⟨x, w, t, p, -, hx, rfl⟩
    · show ((o.exec f c.world).1.db.jobs.map ImportJob.idempotencyKey).Nodup
      rcases UploadOp.exec_cases o f c.world with h | ⟨path, content, h, -⟩ |
        ⟨job, -, hacc, -, h⟩ | ⟨id, -, -, h⟩
      · rw [h]
        exact ih
      · rw [h]
        exact ih
      · rw [h]
        show ((c.world.db.jobs ++ [job]).map ImportJob.idempotencyKey).Nodup
        rw [List.map_append, List.map_singleton, ← List.concat_eq_append]
        refine ih.concat fun hmem => ?_
        -- the key of a row that is there conflicts
        obtain ⟨row, hrow, hkey⟩ := List.mem_map.mp hmem
        have hconflict := List.any_eq_false.mp (UploadWorld.accepts_iff.mp hacc).2 row hrow
        exact absurd (decide_eq_true (Or.inr hkey)) hconflict
      · rw [h]
        exact ih
    · exact ih
    · rcases UploadArrival.apply_cases hx with ⟨r, -, -, hp, -⟩ | ⟨stream, -, rfl, -⟩ |
        ⟨row, -, -, -, rfl⟩
      · cases hp
      · exact ih
      · have hsame : (c.world.db.updateJob row.id fun old => old.overwrite row).jobs.map
            ImportJob.idempotencyKey = c.world.db.jobs.map ImportJob.idempotencyKey := by
          rw [Db.updateJob, KeyedTable.updateKey, List.map_map]
          exact List.map_congr_left fun old _ =>
            congrArg (fun u => u.2.2.2.2) (upload_work row old)
        exact hsame ▸ ih
    · obtain ⟨-, -, -, rfl⟩ := UploadArrival.request_of_apply hx
      exact ih

/-! ### The files of the rows -/

/-- The history grows. -/
theorem requests_subset (hc : (uploads svc).Reaches C c d) :
    ∀ r ∈ c.world.requests, r ∈ d.world.requests := by
  induction hc with
  | refl => exact fun r hr => hr
  | tail _ _ hn ih =>
    intro r hr
    have hr' := ih r hr
    rcases System.next_cases hn with ⟨i, f, t, o, k, -, hi, rfl⟩ | ⟨i, t, o, k, -, hi, rfl⟩ |
      ⟨x, w, -, hx, rfl⟩ | ⟨x, w, t, p, -, hx, rfl⟩
    · rw [← o.exec_requests f] at hr'
      exact hr'
    · exact hr'
    · rcases UploadArrival.apply_cases hx with ⟨r, -, -, hp, -⟩ | ⟨stream, -, rfl, -⟩ |
        ⟨row, -, -, -, rfl⟩
      · cases hp
      · exact hr'
      · exact hr'
    · obtain ⟨-, -, -, rfl⟩ := UploadArrival.request_of_apply hx
      exact List.mem_append_left _ hr'

/-- What is known of the rows: each is that of a request, and they stay. -/
theorem requested_reaches (hc : (uploads svc).Reaches C ⟨emptyUploads, []⟩ c)
    (hd : (uploads svc).Reaches C c d) :
    Logged d ∧ Requested svc c.world ∧ RowsStay c.world d.world := by
  obtain ⟨hc', hlogged⟩ := Logged.reaches rfl hc
  obtain ⟨hd', hlogged'⟩ := hd.strengthen hlogged fun _ _ _ h _ hn => h.next hn
  obtain ⟨⟨ph, hold⟩, -⟩ := (presentOutline_sound svc).reaches
    (Outline.holds_empty (fun row hrow => by cases hrow) fun _ => .start)
    (hc'.mono fun _ _ h => ⟨trivial, h.2⟩)
  obtain ⟨-, hguar⟩ := (presentOutline_sound svc).reaches hold
    (hd'.mono fun _ _ h => ⟨trivial, h.2⟩)
  exact ⟨hlogged', hold.inv, .of_guar hguar⟩

/-- Every row is that of a request, and its file holds what the request has sent. -/
theorem file_of_mem (hc : (uploads svc).Reaches C ⟨emptyUploads, []⟩ c) {row : ImportJob}
    (hrow : row ∈ c.world.db.jobs) :
    ∃ r ∈ c.world.requests, row.upload = (svc.newJob r).upload ∧
      c.world.files row.storagePath = some r.content := by
  obtain ⟨hlogged, hrequested, -⟩ := requested_reaches hc .refl
  obtain ⟨r, hr, hup⟩ := hrequested row hrow
  refine ⟨r, hr, hup, ?_⟩
  have hid : row.id = r.jobId := id_of_upload hup
  cases hjob : c.world.db.job r.jobId with
  | none => exact absurd (decide_eq_true hid) (List.find?_eq_none.mp hjob row hrow)
  | some job =>
    obtain ⟨r', hr', hup'⟩ := hrequested job (List.mem_of_find?_eq_some hjob)
    have hid' : job.id = r'.jobId := id_of_upload hup'
    obtain rfl := hlogged.request_eq hr hr' ((Db.id_of_job hjob).symm.trans hid')
    rw [storagePath_of_upload (hup.trans hup'.symm)]
    exact file_of_row inStep_emptyUploads rfl (hc.mono fun _ _ _ => trivial) hr hjob

/-- The file of a row stays as it is. -/
theorem files_stay (hc : (uploads svc).Reaches C ⟨emptyUploads, []⟩ c)
    (hd : (uploads svc).Reaches C c d) {row : ImportJob} (hrow : row ∈ c.world.db.jobs) :
    ∃ row' ∈ d.world.db.jobs, row'.upload = row.upload ∧
      d.world.files row'.storagePath = c.world.files row.storagePath := by
  obtain ⟨r, hr, hup, hfile⟩ := file_of_mem hc hrow
  obtain ⟨hlogged, -, hstay⟩ := requested_reaches hc hd
  obtain ⟨row', hrow', hup'⟩ := hstay row hrow
  obtain ⟨r', hr', hup'', hfile'⟩ := file_of_mem (hc.trans hd) hrow'
  have hid : r.jobId = r'.jobId := id_of_upload (hup.symm.trans (hup'.symm.trans hup''))
  obtain rfl := hlogged.request_eq (requests_subset hd r hr) hr' hid
  exact ⟨row', hrow', hup', hfile'.trans hfile.symm⟩

end TransactionPlatform
