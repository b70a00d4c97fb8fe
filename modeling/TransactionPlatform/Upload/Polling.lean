import TransactionPlatform.Listing.ImportStatus
import TransactionPlatform.Upload.Rows

/-!
# Polling an accepted import

`create_import_endpoint` answers 202 with the id of a job, and the client asks `get_import_status` for
this id from then on.  Jobs are looked up by key without regard to the client, but shown to their
client only: the id a client gets can be polled exactly if the job is its own, and this never
changes, whatever other requests and the workers do.
-/

namespace TransactionPlatform

open Interleaved

variable {svc : Service} {r : Request} {o : UploadOp} {f : Fault} {w w' : UploadWorld}
variable {a a' : Stage}

/-! ### The endpoint -/

/-- `ImportCreateResponse`. -/
structure ImportCreateResponse where
  importId : Uuid
  status : String
  deriving DecidableEq

/-- `create_import_endpoint` with what `create_import` returns. -/
def importCreateResponse (x : ImportJob × Bool) : ImportCreateResponse :=
  ⟨x.1.id, x.1.status.value⟩

/-! ### Rows stay -/

/-- Every row is still there, with the columns of its upload. -/
def RowsStay (w w' : UploadWorld) : Prop :=
  ∀ row ∈ w.db.jobs, ∃ row' ∈ w'.db.jobs, row'.upload = row.upload

theorem RowsStay.of_eq (h : w'.db = w.db) : RowsStay w w' := by
  intro row hrow
  rw [h]
  exact ⟨row, hrow, rfl⟩

theorem RowsStay.trans {w'' : UploadWorld} (h : RowsStay w w') (h' : RowsStay w' w'') :
    RowsStay w w'' := by
  intro row hrow
  obtain ⟨row', hrow', hup⟩ := h row hrow
  obtain ⟨row'', hrow'', hup'⟩ := h' row' hrow'
  exact ⟨row'', hrow'', hup'.trans hup⟩

theorem RowsStay.of_guar (h : Relation.ReflTransGen RowsStay w w') : RowsStay w w' := by
  induction h with
  | refl => exact .of_eq rfl
  | tail _ hstep ih => exact ih.trans hstep

theorem UploadMove.rowsStay (hmove : UploadMove svc r o f w a w' a') : RowsStay w w' := by
  rcases hmove.effect with rfl | ⟨content, rfl⟩ | ⟨-, -, -, -, rfl⟩ | ⟨-, -, -, rfl⟩
  · exact .of_eq rfl
  · exact .of_eq rfl
  · exact fun row hrow => ⟨row, List.mem_append_left _ hrow, rfl⟩
  · exact .of_eq rfl

theorem UploadArrival.rowsStay {x : UploadArrival}
    {p : Option (Request × Program UploadOp UploadOp.Ans (Except UploadExn (ImportJob × Bool)))}
    (hx : x.apply svc w = some (w', p)) : RowsStay w w' := by
  rcases UploadArrival.apply_cases hx with ⟨r, -, -, -, rfl⟩ | ⟨stream, -, rfl, -⟩ |
    ⟨row, -, -, -, rfl⟩
  · exact .of_eq rfl
  · exact .of_eq rfl
  · exact fun old hold => ⟨_, List.mem_map_of_mem hold, upload_work row old⟩

/-! ### The job of a call -/

/-- Every row is the row of a request. -/
def Requested (svc : Service) (w : UploadWorld) : Prop :=
  ∀ row ∈ w.db.jobs, ∃ r ∈ w.requests, row.upload = (svc.newJob r).upload

/-- The table has a row with the columns of the upload of `job`. -/
def Present (w : UploadWorld) (job : ImportJob) : Prop :=
  ∃ row ∈ w.db.jobs, row.upload = job.upload

theorem Present.of_mem {job : ImportJob} (h : job ∈ w.db.jobs) : Present w job := ⟨job, h, rfl⟩

theorem Present.mono {job : ImportJob} (h : Present w job) (hstay : RowsStay w w') :
    Present w' job := by
  obtain ⟨row, hrow, hup⟩ := h
  obtain ⟨row', hrow', hup'⟩ := hstay row hrow
  exact ⟨row', hrow', hup'.trans hup⟩

/-- The job a call has in hand is in the table. -/
def PresentAt (w : UploadWorld) : Stage → Prop
  | .found job => Present w job
  | .announce job => Present w job
  | .enqueue job => Present w job
  | .ended (.ok (job, _)) => Present w job
  | _ => True

theorem PresentAt.mono (h : PresentAt w a) (hstay : RowsStay w w') : PresentAt w' a := by
  cases a with
  | found job => exact Present.mono h hstay
  | announce job => exact Present.mono h hstay
  | enqueue job => exact Present.mono h hstay
  | ended x =>
    cases x with
    | ok y => exact Present.mono h hstay
    | error e => trivial
  | _ => trivial

/-- A move of the call. -/
theorem PresentAt.move (h : PresentAt w a) (hmove : UploadMove svc r o f w a w' a') :
    PresentAt w' a' := by
  have hstay := hmove.rowsStay
  cases hmove with
  | fail hask hf => trivial
  | ok hask hadv =>
    refine PresentAt.mono ?_ hstay
    cases hadv with
    | lookup =>
      cases hjob : w.jobByKey (svc.idempotencyKey r) with
      | none => trivial
      | some job => exact Present.of_mem (List.mem_of_find?_eq_some hjob)
    | winner hjob => exact Present.of_mem (List.mem_of_find?_eq_some hjob)
    | refresh hjob => exact Present.of_mem (List.mem_of_find?_eq_some hjob)
    | found => exact h
    | ensureGroup => exact h
    | xadd => exact h
    -- the other stages have no job in hand
    | _ => trivial

theorem Requested.move (h : Requested svc w) (hr : r ∈ w.requests)
    (hmove : UploadMove svc r o f w a w' a') : Requested svc w' := by
  rcases hmove.effect with rfl | ⟨content, rfl⟩ | ⟨-, -, -, -, rfl⟩ | ⟨-, -, -, rfl⟩
  · exact h
  · exact h
  · intro row hrow
    rcases List.mem_append.mp hrow with hrow | hrow
    · exact h row hrow
    · rw [List.mem_singleton.mp hrow]
      exact ⟨r, hr, rfl⟩
  · exact h

theorem Requested.arrive {x : UploadArrival}
    {p : Option (Request × Program UploadOp UploadOp.Ans (Except UploadExn (ImportJob × Bool)))}
    (h : Requested svc w) (hx : x.apply svc w = some (w', p)) : Requested svc w' := by
  rcases UploadArrival.apply_cases hx with ⟨r, -, -, -, rfl⟩ | ⟨stream, -, rfl, -⟩ |
    ⟨row, -, -, -, rfl⟩
  · intro row hrow
    obtain ⟨r', hr', hup⟩ := h row hrow
    exact ⟨r', List.mem_append_left _ hr', hup⟩
  · exact h
  · intro new hnew
    obtain ⟨old, hold, rfl⟩ := List.mem_map.mp hnew
    obtain ⟨r, hr, hup⟩ := h old hold
    exact ⟨r, hr, (upload_work row old).trans hup⟩

/-- The outline of the jobs that are returned. -/
def presentOutline (svc : Service) : Outline UploadWorld Request Stage where
  Inv := Requested svc
  Loc _ a w := PresentAt w a
  Guar := RowsStay

theorem presentOutline_sound (svc : Service) :
    (presentOutline svc).Sound (uploads svc) (fun c _ => True ∧ Logged c) (UploadMove svc)
      fun _ x a => a = .ended x := by
  refine uploads_sound ?_ ?_
  · intro c ph i r o k f a' hold hC hi hmove
    have hinv : Requested svc c.world := hold.inv
    have hat : PresentAt c.world (ph i) := hold.loc i r _ hi
    exact ⟨hinv.move (hC.2.mem_requests hi) hmove, hat.move hmove, hmove.rowsStay,
      fun j r' p' _ hj => PresentAt.mono (hold.loc j r' p' hj) hmove.rowsStay⟩
  · intro c ph x w p hold _ hx
    have hinv : Requested svc c.world := hold.inv
    have hstay := UploadArrival.rowsStay hx
    refine ⟨hinv.arrive hx, hstay, fun i r p hi => PresentAt.mono (hold.loc i r p hi) hstay,
      fun r q _ => ?_⟩
    change PresentAt w (.initial r)
    unfold Stage.initial
    split
    · trivial
    · trivial

/-! ### The answers -/

/-- What is visible of a job that is in the table: its client, and nobody else, is answered. -/
theorem getImportStatus_of_present (hids : ∀ r ∈ w.requests, ∀ r' ∈ w.requests,
    r.jobId = r'.jobId → r = r') (hrows : Requested svc w) {job : ImportJob} (h : Present w job)
    (clientId : Uuid) :
    (clientId = job.clientId →
      ∃ s, getImportStatus w.db clientId job.id = .ok s ∧ s.importId = job.id) ∧
    (clientId ≠ job.clientId →
      getImportStatus w.db clientId job.id =
        .error (.HTTPException 404 "Import not found")) := by
  obtain ⟨row, hrow, hup⟩ := h
  have hid : row.id = job.id := congrArg (fun u => u.1) hup
  have hclient : row.clientId = job.clientId := congrArg (fun u => u.2.1) hup
  unfold getImportStatus
  constructor
  · rintro rfl
    cases hfind : w.db.jobs.find? fun x => decide (x.id = job.id ∧ x.clientId = job.clientId) with
    | none => exact absurd (decide_eq_true ⟨hid, hclient⟩) (List.find?_eq_none.mp hfind row hrow)
    | some found =>
      have hfound := List.find?_some hfind
      exact ⟨found.statusResponse, rfl, (of_decide_eq_true hfound).1⟩
  · intro hne
    cases hfind : w.db.jobs.find? fun x => decide (x.id = job.id ∧ x.clientId = clientId) with
    | none => rfl
    | some found =>
      -- a row with this id has been inserted by the same request
      have hfound := List.find?_some hfind
      obtain ⟨hid', hclient'⟩ := of_decide_eq_true hfound
      obtain ⟨r, hr, hup⟩ := hrows row hrow
      obtain ⟨r', hr', hup'⟩ := hrows found (List.mem_of_find?_eq_some hfind)
      have hsame : r = r' := by
        refine hids r hr r' hr' ?_
        have hrid : row.id = r.jobId := congrArg (fun u => u.1) hup
        have hrid' : found.id = r'.jobId := congrArg (fun u => u.1) hup'
        rw [← hrid, ← hrid', hid, hid']
      subst hsame
      refine absurd ?_ hne
      rw [← hclient', ← hclient]
      exact congrArg (fun u => u.2.1) (hup'.trans hup.symm)

/-- In every run of the API, whatever requests and workers do at the same time and whatever fails:
when a call of `create_import` has returned a job, its client can poll the id it was given exactly
if the job is its own.  Then the answer is about this job at all later times, and else it is 404 at all
later times. -/
theorem accepted_import_polled (svc : Service) {w : UploadWorld} (hlog : w.requests = [])
    (hjobs : w.db.jobs = []) {c d : UploadPool}
    (hc : (uploads svc).Reaches (fun _ _ => True) ⟨w, []⟩ c)
    (hd : (uploads svc).Reaches (fun _ _ => True) c d) {p : UploadProc} (hp : p ∈ c.procs)
    {job : ImportJob} {existing : Bool} (hres : p.result = some (.ok (job, existing))) :
    let importId := (importCreateResponse (job, existing)).importId
    (p.tag.clientId = job.clientId → ∃ s,
      getImportStatus d.world.db p.tag.clientId importId = .ok s ∧ s.importId = importId) ∧
    (p.tag.clientId ≠ job.clientId →
      getImportStatus d.world.db p.tag.clientId importId =
        .error (.HTTPException 404 "Import not found")) := by
  have hempty : UploadsHold svc (presentOutline svc) ⟨w, []⟩ fun _ => .start := by
    refine Outline.holds_empty (fun row hrow => ?_) _
    rw [hjobs] at hrow
    cases hrow
  obtain ⟨hc', hlogged⟩ := Logged.reaches hlog hc
  obtain ⟨hd', hlogged'⟩ := hd.strengthen hlogged fun _ _ _ h _ hn => h.next hn
  obtain ⟨⟨ph, hold⟩, -⟩ := (presentOutline_sound svc).reaches hempty hc'
  obtain ⟨⟨ph', hold'⟩, hguar⟩ := (presentOutline_sound svc).reaches hold hd'
  -- the row is in the table when the call returns, and stays there
  obtain ⟨i, hi⟩ := List.mem_iff_getElem?.mp hp
  obtain ⟨hfinal, hat⟩ := hold.of_result hi hres
  rw [hfinal] at hat
  have hstay : RowsStay c.world d.world := .of_guar hguar
  exact getImportStatus_of_present (fun r hr r' hr' => hlogged'.request_eq hr hr') hold'.inv
    (Present.mono hat hstay) p.tag.clientId

/-- Two clients upload with the same header: the second is given the job of the first. -/
def sampleForeign : List UploadEvent :=
  .arrive (.request (sampleRequest firstClient firstJob)) :: (uploadRuns 0 10 ++
    .arrive (.request (sampleRequest secondClient secondJob)) :: uploadRuns 1 7)

/-- The first client can poll its import, the second is told that there is none. -/
theorem sample_imports_polled :
    ∃ c : UploadPool, (uploads sampleService).Reaches (fun _ _ => True) ⟨emptyUploads, []⟩ c ∧
      (∃ s, getImportStatus c.world.db firstClient firstJob = .ok s ∧ s.importId = firstJob) ∧
      getImportStatus c.world.db secondClient firstJob =
        .error (.HTTPException 404 "Import not found") := by
  have hrun : ((uploads sampleService).perform (fun _ _ => true) ⟨emptyUploads, []⟩
      sampleForeign).map (fun c => c.procs.map fun p =>
        (p.tag.clientId, (answerOf p).map fun y => (y.1.id, y.1.clientId))) =
      some [(firstClient, some (firstJob, firstClient)),
        (secondClient, some (firstJob, firstClient))] := by
    decide +kernel
  obtain ⟨c, hc, hout⟩ := Option.map_eq_some_iff.mp hrun
  have hreach : (uploads sampleService).Reaches (fun _ _ => True) ⟨emptyUploads, []⟩ c :=
    System.reaches_of_perform (fun _ _ _ => trivial) hc
  -- what the theorem says of the call of a client
  have hpolled : ∀ clientId, (clientId, some (firstJob, firstClient)) ∈ c.procs.map (fun p =>
        (p.tag.clientId, (answerOf p).map fun y => (y.1.id, y.1.clientId))) →
      (clientId = firstClient → ∃ s, getImportStatus c.world.db clientId firstJob = .ok s ∧
        s.importId = firstJob) ∧
      (clientId ≠ firstClient → getImportStatus c.world.db clientId firstJob =
        .error (.HTTPException 404 "Import not found")) := by
    intro clientId hmem
    obtain ⟨p, hp, heq⟩ := List.mem_map.mp hmem
    obtain ⟨rfl, hanswer⟩ := Prod.mk.inj heq
    obtain ⟨⟨job, existing⟩, hanswer, hjob⟩ := Option.map_eq_some_iff.mp hanswer
    obtain ⟨hid, hclient⟩ := Prod.mk.inj hjob
    have hpoll := accepted_import_polled sampleService (w := emptyUploads) rfl rfl hreach .refl hp
      (result_of_answerOf hanswer)
    simp only [importCreateResponse] at hpoll
    rwa [hid, hclient] at hpoll
  rw [hout] at hpolled
  exact ⟨c, hreach, (hpolled firstClient List.mem_cons_self).1 rfl,
    (hpolled secondClient (List.mem_cons_of_mem _ List.mem_cons_self)).2 (by decide)⟩

end TransactionPlatform
