import TransactionPlatform.Listing.ImportStatus
import TransactionPlatform.Platform.Views
import TransactionPlatform.Upload.Enqueue
import TransactionPlatform.Worker.Handover
import TransactionPlatform.Worker.Ledger
import TransactionPlatform.Worker.Recovery

/-!
# What the platform guarantees

The results on the uploads and on the workers, joined over the whole platform.  What is in the table
of transactions is what `validate_row` makes of the files that clients have sent, and all of it is
there when a job is completed; of the requests with one idempotency key at most one has put something
there; and an upload whose row is committed can be brought to its end at any time.
-/

namespace TransactionPlatform

open Interleaved ConsumerGroup

variable {svc : Service} {py : Python} {files : String → Option Csv} {c c' : Platform} {r : Request}

/-- `validate_row` accepts a record of the file that the request has sent. -/
def Request.Accepts (r : Request) (py : Python) (v : ValidRow) : Prop :=
  ∃ (csv : Csv) (i : ℕ) (row : Row), parseCsv py r.content = some csv ∧ csv.rows[i]? = some row ∧
    py.validateRow row (i + 1) = .accepted v

/-! ### From the requests to the transactions -/

section Requests

variable (hup : (uploads svc).Reaches (fun _ _ => True) ⟨emptyUploads, []⟩ c.uploadView)

/-- The outline of the ledger holds of the attempts. -/
theorem Attended.ledger {c : Fleet} {d : WorkerPool} (h : Attended py files c d) :
    ∃ ph, (ledgerOutline py files []).Holds (workers py files) (Move py files)
      (fun _ r a => a = .ended r) d ph := by
  have hempty : Unprocessed ⟨[], [], []⟩ := ⟨List.nodup_nil, fun id job hjob => by cases hjob⟩
  have hinit : (ledgerOutline py files []).Inv ⟨⟨[], [], []⟩, [], [], 0⟩ := hempty.ledger
  exact (workers_reaches (ledgerOutline_sound py files []) hinit h.reaches).1

/-- The ledger of the platform. -/
theorem Attended.ledger_inv {c : Fleet} {d : WorkerPool} (h : Attended py files c d) :
    Ledger py files [] c.backend.db := by
  obtain ⟨ph, hold⟩ := h.ledger
  have hinv : Ledger py files [] d.world.db := hold.inv
  rwa [h.mirrors.world] at hinv

include hup

/-- The row of a request has what the request has sent. -/
theorem upload_of_request (hr : r ∈ c.calls.world.requests) {job : ImportJob}
    (hjob : c.calls.world.backend.db.job r.jobId = some job) :
    job.upload = (svc.newJob r).upload := by
  obtain ⟨r', hr', hrec, -⟩ := file_of_mem hup (List.mem_of_find?_eq_some hjob)
  obtain ⟨hlogged, -, -⟩ := requested_reaches hup .refl
  have hid : r.jobId = r'.jobId := (Db.id_of_job hjob).symm.trans (id_of_upload hrec)
  obtain rfl := hlogged.request_eq hr hr' hid
  exact hrec

theorem clientId_of_request (hr : r ∈ c.calls.world.requests) {job : ImportJob}
    (hjob : c.calls.world.backend.db.job r.jobId = some job) : job.clientId = r.clientId :=
  congrArg (fun u => u.2.1) (upload_of_request hup hr hjob)

theorem key_of_request (hr : r ∈ c.calls.world.requests) {job : ImportJob}
    (hjob : c.calls.world.backend.db.job r.jobId = some job) :
    job.idempotencyKey = svc.idempotencyKey r :=
  congrArg (fun u => u.2.2.2.2) (upload_of_request hup hr hjob)

/-- What the workers read for the row of a request is what the request has sent. -/
theorem csvFiles_of_request (hr : r ∈ c.calls.world.requests) {job : ImportJob}
    (hjob : c.calls.world.backend.db.job r.jobId = some job) :
    c.calls.world.csvFiles py job.storagePath = parseCsv py r.content := by
  have hfile : c.calls.world.files job.storagePath = some r.content :=
    file_of_row inStep_emptyUploads rfl hup hr hjob
  rw [PlatformState.csvFiles, hfile]
  rfl

/-- A transaction from a file comes from what a request has sent. -/
theorem accepts_of_fromFile {x : Transaction}
    (h : FromFile py (c.calls.world.csvFiles py) c.calls.world.backend.db x) :
    ∃ r ∈ c.calls.world.requests, ∃ v, r.Accepts py v ∧ x = v.transaction r.jobId := by
  obtain ⟨id, job, csv, hjob, hcsv, hmem⟩ := h
  obtain ⟨i, row, v, -, -, hrow, hv, rfl⟩ := mem_accepted hmem
  obtain ⟨r, hr, hrec, hfile⟩ := file_of_mem hup (List.mem_of_find?_eq_some hjob)
  have hid : r.jobId = id := (id_of_upload hrec).symm.trans (Db.id_of_job hjob)
  have hfile' : c.calls.world.files job.storagePath = some r.content := hfile
  rw [PlatformState.csvFiles, hfile'] at hcsv
  exact ⟨r, hr, v, ⟨csv, i, row, hcsv, hrow, hv⟩, by rw [hid]⟩

/-- What the request of a completed job has sent is in the table. -/
theorem covers_request {initial : List Transaction}
    (h : Ledger py (c.calls.world.csvFiles py) initial c.calls.world.backend.db)
    (hr : r ∈ c.calls.world.requests) {job : ImportJob}
    (hjob : c.calls.world.backend.db.job r.jobId = some job) (hst : job.status = .COMPLETED)
    {v : ValidRow} (hv : r.Accepts py v) :
    ∃ x ∈ c.calls.world.backend.db.transactions, x.transactionId = v.transactionId := by
  obtain ⟨csv, i, row, hcsv, hrow, hv⟩ := hv
  obtain ⟨hi, -⟩ := List.getElem?_eq_some_iff.mp hrow
  exact (h.covered _ job hjob).completed hst csv ((csvFiles_of_request hup hr hjob).trans hcsv)
    (v.transaction job.id) (mem_accepted_of_row (Nat.zero_le i) hi hrow hv)

end Requests

/-- In every run of the platform the workers keep the ledger. -/
theorem ledger_of_platform (hc : (platform svc py).Reaches (fun _ _ => True) .empty c) :
    (uploads svc).Reaches (fun _ _ => True) ⟨emptyUploads, []⟩ c.uploadView ∧
      Ledger py (c.calls.world.csvFiles py) [] c.calls.world.backend.db := by
  obtain ⟨hup, hfleet⟩ := couples_true.views hc
  obtain ⟨d, hd⟩ := exists_attended (hfleet _ fun _ _ => rfl)
  exact ⟨hup, hd.ledger_inv⟩

/-- The ledger of the platform, whatever calls and workers do at the same time and whatever fails:
ids of transactions are unique, every transaction is what `validate_row` has returned for a record of
the file that some request has sent, transactions are only appended, and those of a completed job are
all there. -/
theorem platform_ledger (svc : Service) (py : Python)
    (hc : (platform svc py).Reaches (fun _ _ => True) .empty c)
    (hc' : (platform svc py).Reaches (fun _ _ => True) c c') :
    (c'.calls.world.backend.db.transactions.map Transaction.transactionId).Nodup ∧
    (∀ x ∈ c'.calls.world.backend.db.transactions,
      ∃ r ∈ c'.calls.world.requests, ∃ v, r.Accepts py v ∧ x = v.transaction r.jobId) ∧
    c.calls.world.backend.db.transactions <+: c'.calls.world.backend.db.transactions ∧
    ∀ r ∈ c'.calls.world.requests, ∀ job, c'.calls.world.backend.db.job r.jobId = some job →
      job.status = .COMPLETED → ∀ v, r.Accepts py v →
      ∃ x ∈ c'.calls.world.backend.db.transactions, x.transactionId = v.transactionId := by
  obtain ⟨hup, hfleet⟩ := couples_true.views hc
  obtain ⟨hup', hfleet'⟩ := couples_true.views_between hup hfleet hc'
  obtain ⟨hshows, hbetween⟩ := hfleet' (c'.calls.world.csvFiles py) fun _ _ => rfl
  -- the attempts at both times
  obtain ⟨d, hd⟩ := exists_attended (hfleet _ hshows)
  obtain ⟨d', hreach, hmirror⟩ := (carries_true py).reaches hd.mirrors hbetween
  have hd' : Attended py (c'.calls.world.csvFiles py) c'.fleetView d' :=
    ⟨hmirror, hd.reaches.trans hreach⟩
  have hledger : Ledger py (c'.calls.world.csvFiles py) [] c'.calls.world.backend.db :=
    hd'.ledger_inv
  refine ⟨hledger.nodup, fun x hx => ?_, ?_, ?_⟩
  · rcases hledger.origin x hx with hnil | hfile
    · cases hnil
    · exact accepts_of_fromFile (hup.trans hup') hfile
  · obtain ⟨ph, hold⟩ := hd.ledger
    obtain ⟨-, hguar⟩ := (ledgerOutline_sound py _ []).reaches hold hreach
    have hsub := prefix_of_guar hguar
    rwa [hd.mirrors.world, hmirror.world] at hsub
  · intro r hr job hjob hst v hv
    exact covers_request (hup.trans hup') hledger hr hjob hst hv

/-- The uploaded table is imported, and its transaction is traced back to the request. -/
theorem sample_platform_ledger :
    ∃ c c' : Platform, c.calls.world.backend.db.transactions = [] ∧
      (platform sampleService .ascii).Reaches (fun _ _ => True) c c' ∧
      c'.calls.world.requests = [tableRequest] ∧
      (c'.calls.world.backend.db.transactions.map Transaction.transactionId) = ["T1"] ∧
      ∃ v, tableRequest.Accepts .ascii v ∧ v.transactionId = "T1" := by
  have hrun : ((platform sampleService .ascii).perform (fun _ _ => true) .empty sampleUpload).bind
      (fun c => ((platform sampleService .ascii).perform (fun _ _ => true) c sampleImport).map
        fun c' => (c.calls.world.backend.db.transactions,
          decide (c'.calls.world.requests = [tableRequest]),
          c'.calls.world.backend.db.transactions.map Transaction.transactionId)) =
      some ([], true, ["T1"]) := by
    decide +kernel
  obtain ⟨c, hc, hout⟩ := Option.bind_eq_some_iff.mp hrun
  obtain ⟨c', hc', hout'⟩ := Option.map_eq_some_iff.mp hout
  simp only [Prod.mk.injEq, decide_eq_true_eq] at hout'
  obtain ⟨hnone, hrequests, hids⟩ := hout'
  have hreach' : (platform sampleService .ascii).Reaches (fun _ _ => True) c c' :=
    Machine.reaches_of_perform (fun _ _ _ => trivial) hc'
  obtain ⟨-, horigin, -, -⟩ := platform_ledger sampleService .ascii
    (Machine.reaches_of_perform (fun _ _ _ => trivial) hc) hreach'
  have hmem : "T1" ∈ c'.calls.world.backend.db.transactions.map Transaction.transactionId := by
    rw [hids]
    exact List.mem_cons_self
  obtain ⟨x, hx, hid⟩ := List.mem_map.mp hmem
  obtain ⟨r, hr, v, hv, rfl⟩ := horigin x hx
  rw [hrequests] at hr
  obtain rfl := List.mem_singleton.mp hr
  exact ⟨c, c', hnone, hreach', hrequests, hids, v, hv, hid⟩

/-- A runtime that hands out two lines of a file before it finds that the file is not UTF-8. -/
def Python.lateError : Python := { Python.ascii with linesDecoded := fun _ => 2 }

/-- The upload of the table ends with a byte that is not UTF-8. -/
def brokenRequest : Request :=
  { tableRequest with
    chunks := tableRequest.chunks ++ [[0xFF]]
    chunks_ne := by decide +kernel }

/-- The first record of the broken table is imported before the reader raises. -/
example : ((platform sampleService .lateError).perform (fun _ _ => true) .empty
    (.api (.arrive brokenRequest) :: List.replicate 12 (.api (.run 0 .ok)) ++
      .fleet (.start sampleSettings) :: (steps 0 15).map .fleet)).map (fun c =>
        ((c.calls.world.backend.db.job firstJob).map fun job => (job.status, job.retryCount),
          c.calls.world.backend.db.transactions.map Transaction.transactionId)) =
    some (some (.QUEUED, 1), ["T1"]) := by
  decide +kernel

/-! ### A retry is not imported again -/

/-- The row behind a transaction of a request. -/
theorem exists_row_of_origin {x : Transaction}
    (h : FromFile py (c.calls.world.csvFiles py) c.calls.world.backend.db x)
    (hid : x.importJobId = some r.jobId) :
    ∃ job, c.calls.world.backend.db.job r.jobId = some job := by
  obtain ⟨id, job, csv, hjob, -, hmem⟩ := h
  obtain ⟨i, row, v, -, -, -, -, rfl⟩ := mem_accepted hmem
  have hsame : id = r.jobId := Option.some.inj hid
  exact ⟨job, hsame ▸ hjob⟩

/-- However often an upload is retried with its idempotency key, with whatever file, at most one of
the requests puts transactions into the table. -/
theorem retried_upload_imported_once (svc : Service) (py : Python)
    (hc : (platform svc py).Reaches (fun _ _ => True) .empty c) {r r' : Request}
    (hr : r ∈ c.calls.world.requests) (hr' : r' ∈ c.calls.world.requests)
    (hkey : svc.idempotencyKey r = svc.idempotencyKey r') {x x' : Transaction}
    (hx : x ∈ c.calls.world.backend.db.transactions) (hid : x.importJobId = some r.jobId)
    (hx' : x' ∈ c.calls.world.backend.db.transactions) (hid' : x'.importJobId = some r'.jobId) :
    r = r' := by
  obtain ⟨hup, hledger⟩ := ledger_of_platform hc
  obtain ⟨job, hjob⟩ := exists_row_of_origin ((hledger.origin x hx).resolve_left nofun) hid
  obtain ⟨job', hjob'⟩ := exists_row_of_origin ((hledger.origin x' hx').resolve_left nofun) hid'
  have hrow := List.mem_of_find?_eq_some hjob
  have hrow' := List.mem_of_find?_eq_some hjob'
  -- both rows have the key, so they are one row
  have hkeys : job.idempotencyKey = job'.idempotencyKey := by
    rw [key_of_request hup hr hjob, key_of_request hup hr' hjob', hkey]
  obtain rfl := List.inj_on_of_nodup_map (distinct_keys hup) hrow hrow' hkeys
  obtain ⟨hlogged, -, -⟩ := requested_reaches hup .refl
  exact hlogged.request_eq hr hr' ((Db.id_of_job hjob).symm.trans (Db.id_of_job hjob'))

/-- The client retries with another file before the worker starts. -/
def sampleRetriedUpload : List PlatformEvent :=
  sampleUpload ++ .api (.arrive (sampleRequest firstClient secondJob)) ::
    List.replicate 7 (.api (.run 1 .ok)) ++ sampleImport

/-- Nothing comes from the second file. -/
theorem sample_retry_not_imported :
    ∃ c : Platform,
      c.calls.world.requests = [tableRequest, sampleRequest firstClient secondJob] ∧
      c.calls.world.backend.db.transactions.map Transaction.importJobId = [some firstJob] ∧
      ∀ x ∈ c.calls.world.backend.db.transactions, x.importJobId ≠ some secondJob := by
  have hrun : ((platform sampleService .ascii).perform (fun _ _ => true) .empty
      sampleRetriedUpload).map (fun c => (decide (c.calls.world.requests =
        [tableRequest, sampleRequest firstClient secondJob]),
        c.calls.world.backend.db.transactions.map Transaction.importJobId)) =
      some (true, [some firstJob]) := by
    decide +kernel
  obtain ⟨c, hc, hout⟩ := Option.map_eq_some_iff.mp hrun
  simp only [Prod.mk.injEq, decide_eq_true_eq] at hout
  obtain ⟨hrequests, hids⟩ := hout
  refine ⟨c, hrequests, hids, fun x' hx' hid' => ?_⟩
  have hmem : some firstJob ∈ c.calls.world.backend.db.transactions.map Transaction.importJobId := by
    rw [hids]
    exact List.mem_cons_self
  obtain ⟨x, hx, hid⟩ := List.mem_map.mp hmem
  have hr : tableRequest ∈ c.calls.world.requests := by
    rw [hrequests]
    exact List.mem_cons_self
  have hr' : sampleRequest firstClient secondJob ∈ c.calls.world.requests := by
    rw [hrequests]
    exact List.mem_cons_of_mem _ List.mem_cons_self
  have hsame := retried_upload_imported_once sampleService .ascii
    (Machine.reaches_of_perform (fun _ _ _ => trivial) hc) hr hr' rfl hx hid hx' hid'
  exact absurd (congrArg Request.jobId hsame) (by decide)

/-! ### An upload can be brought to its end -/

/-- Nothing goes wrong between the row of an upload and its entry, no worker claims an entry that is
in the hands of another one, and no `XACK` raises after it took effect. -/
def Platform.Careful (py : Python) (c : Platform) : PlatformEvent → Prop
  | .api e => EnqueueSafe c.uploadView (uploadEvent e)
  | .fleet e => c.fleetView.Undisturbed py e ∧ c.fleetView.AckNotLost e

/-- Only the `n`-th worker takes steps, all of them succeed, and time passes. -/
def Platform.OnlyHealthy (n : ℕ) (c : Platform) : PlatformEvent → Prop
  | .api _ => False
  | .fleet e => TransactionPlatform.OnlyHealthy n c.fleetView e

theorem couples_careful (py : Python) : Couples (Platform.Careful py) EnqueueSafe fun c e =>
    c.Undisturbed py e ∧ c.AckNotLost e := by
  refine ⟨fun _ _ h => h, fun _ x _ => trivial, fun _ _ h => h, fun c e he => ?_⟩
  cases e with
  | create id clientId filename path key => exact ⟨trivial, trivial⟩
  | createGroup => exact ⟨trivial, trivial⟩
  | enqueue id => exact ⟨trivial, trivial⟩
  | _ => cases he

/-- What a fleet does with one healthy worker, the platform does. -/
theorem Platform.reaches_withFleet {n : ℕ} {b b' : Fleet}
    (h : (fleet py (c.calls.world.csvFiles py)).Reaches (TransactionPlatform.OnlyHealthy n) b b') :
    (platform svc py).Reaches (Platform.OnlyHealthy n) (c.withFleet b) (c.withFleet b') := by
  induction h with
  | refl => exact .refl
  | @tail b₁ b₂ e _ he hn ih =>
    refine ih.tail (e := .fleet e) he ?_
    have hof : e.ofWorkers = true := by
      cases e with
      | step i f => rfl
      | tick ms => rfl
      | _ => cases he
    have hn' : Fleet.next py (c.calls.world.csvFiles py) b₁ e = some b₂ := hn
    show (bif e.ofWorkers then (b₁.next py (c.calls.world.csvFiles py) e).map _ else none) = _
    rw [hof, hn']
    rfl

/-- When the stream is drained, every enqueued job is completed or failed. -/
theorem Drains.finished {w w' : World} (h : Drains py files w w') (hdrop : NotDropped w)
    (hacked : ∀ (e : ℕ) id y, w'.stream[e]? = some ⟨id, y⟩ → y = .acked) {id : Uuid}
    (henq : w.stream.Enqueued id) {job : ImportJob} (hjob : w.db.job id = some job) :
    ∃ job', w'.db.job id = some job' ∧ job'.status.terminal = true := by
  obtain ⟨job', hjob'⟩ := h.exists_job id ⟨job, hjob⟩
  refine ⟨job', hjob', ?_⟩
  cases hst : job.status.terminal with
  | false =>
    obtain ⟨e, y, he, hy⟩ := Stream.unacked_iff.mp (hdrop.unacked id job hjob hst henq)
    obtain ⟨y', hy', -, hterm⟩ := h.entry e id y he
    exact hterm hy (hacked e id y' hy') job' hjob'
  | true =>
    obtain ⟨⟨_, y⟩, hx, rfl⟩ := henq
    obtain ⟨e, he⟩ := List.mem_iff_getElem?.mp hx
    obtain ⟨y', hy', hsame, hterm⟩ := h.entry e _ y he
    by_cases hy : y = .acked
    · rw [(hsame hy).2, hjob] at hjob'
      cases hjob'
      exact hst
    · exact hterm hy (hacked e _ y' hy') job' hjob'

/-- A job that could be imported has not failed then. -/
theorem Drains.completed {w w' : World} (h : Drains py files w w') {id : Uuid}
    {job job' : ImportJob} (hjob : w.db.job id = some job) (hjob' : w'.db.job id = some job')
    (hterm : job'.status.terminal = true) (hv : Viable py files job) : job'.status = .COMPLETED := by
  obtain ⟨job₁, hjob₁, hv₁⟩ := h.viable id job hjob hv
  rw [hjob'] at hjob₁
  cases hjob₁
  rcases hv₁.state with hst | ⟨hopen, -⟩
  · exact hst
  · rw [hterm] at hopen
    cases hopen

/-- The client and the columns take whatever an import makes of the file of the request. -/
def Request.Stores (r : Request) (py : Python) : Prop :=
  ∀ csv, parseCsv py r.content = some csv → ∀ row ∈ csv.rows, stores py r.jobId row = true

/-- The files that the workers still have to read are those of requests. -/
theorem storing_of_requests
    (hup : (uploads svc).Reaches (fun _ _ => True) ⟨emptyUploads, []⟩ c.uploadView)
    (hstores : ∀ r ∈ c.calls.world.requests,
      c.calls.world.backend.world.stream.Unacked r.jobId → r.Stores py) :
    Storing py (c.calls.world.csvFiles py) c.calls.world.backend.world := by
  intro e id y hy hya job hjob csv hcsv row hrow
  obtain ⟨r, hr, hrec, hfile⟩ := file_of_mem hup (List.mem_of_find?_eq_some hjob)
  have hid : job.id = r.jobId := id_of_upload hrec
  have hunacked : c.calls.world.backend.world.stream.Unacked r.jobId := by
    rw [← hid, Db.id_of_job hjob]
    exact Stream.unacked_iff.mpr ⟨e, y, hy, hya⟩
  have hfile' : c.calls.world.files job.storagePath = some r.content := hfile
  rw [PlatformState.csvFiles, hfile'] at hcsv
  rw [hid]
  exact hstores r hr hunacked csv hcsv row hrow

/-- A fresh worker brings every enqueued job to its end. -/
theorem careful_drains (hc : (platform svc py).Reaches (Platform.Careful py) .empty c)
    (hstores : ∀ r ∈ c.calls.world.requests,
      c.calls.world.backend.world.stream.Unacked r.jobId → r.Stores py) (s : WorkerSettings) :
    ∃ b : Fleet, (platform svc py).Reaches (Platform.OnlyHealthy c.workers.length)
        (c.withFleet ⟨c.calls.world.backend, c.workers ++ [⟨s, false, .starting⟩]⟩)
        (c.withFleet b) ∧
      ∀ id job, c.calls.world.backend.world.stream.Enqueued id →
        c.calls.world.backend.db.job id = some job →
        ∃ job', b.backend.db.job id = some job' ∧ job'.status.terminal = true ∧
          (Viable py (c.calls.world.csvFiles py) job → job'.status = .COMPLETED) := by
  obtain ⟨hup, hfleet⟩ := (couples_careful py).views hc
  have hfleet' := hfleet (c.calls.world.csvFiles py) fun _ _ => rfl
  obtain ⟨d, hd⟩ := exists_attended hfleet'
  have hdrop : NotDropped c.calls.world.backend.world := by
    refine undisturbed_notDropped List.nodup_nil ⟨?_, ?_⟩ hfleet'
    · rintro x hx
      cases hx
    · rintro id row hrow
      cases hrow
  have hnodup : ({ c.calls.world.backend with
      stream := c.calls.world.backend.stream.create } : Backend).world.enqueued.Nodup := by
    rw [Backend.enqueued_world]
    exact hd.mirrors.nodup
  -- the worker creates the group and drains the stream
  obtain ⟨b', hdrain, hdrains, hpending, hdelivered⟩ :=
    test_drains py (c.calls.world.csvFiles py) c.workers s rfl hnodup
      (storing_of_requests (hup.mono fun _ _ _ => trivial) hstores)
  refine ⟨⟨b', c.workers ++ [⟨s, false, .test⟩]⟩,
    Platform.reaches_withFleet ((reaches_step rfl).trans hdrain), fun id job henq hjob => ?_⟩
  obtain ⟨job', hjob', hterm⟩ := hdrains.finished hdrop
    (fun e id y hy => acked_of_drained hpending hdelivered hy) henq hjob
  exact ⟨job', hjob', hterm, hdrains.completed hjob hjob' hterm⟩

/-- A row that is committed, and whose call is over, has an entry. -/
theorem enqueued_of_pursued (h : Pursued c.uploadView)
    (hover : ∀ p ∈ c.calls.procs, p.tag.jobId = r.jobId → p.live = false) {job : ImportJob}
    (hjob : c.calls.world.backend.db.job r.jobId = some job) :
    c.calls.world.backend.world.stream.Enqueued r.jobId := by
  rcases h r.jobId ⟨job, List.mem_of_find?_eq_some hjob, Db.id_of_job hjob⟩ with henq |
    ⟨p, hp, hlive, hid⟩
  · exact henq
  · rw [hover p hp hid] at hlive
    cases hlive

/-- No upload is lost, whatever else fails, if nothing goes wrong between the row of an upload and
its entry, no worker claims an entry that is in the hands of another one and no `XACK` raises after
it took effect.  At any time at which the client and the columns take the rows of the uploads that
are not acknowledged, a fresh worker for which nothing fails, while nobody else does anything,
brings every upload whose row is committed and whose call is over to its end: its client is told
that it is completed or failed.  It is completed if the file can be imported and the job has not run
out of retries, and then all that `validate_row` accepts of the file is in the table. -/
theorem platform_recovers (svc : Service) (py : Python)
    (hc : (platform svc py).Reaches (Platform.Careful py) .empty c)
    (hstores : ∀ r ∈ c.calls.world.requests,
      c.calls.world.backend.world.stream.Unacked r.jobId → r.Stores py) (s : WorkerSettings) :
    ∃ c₁ c', (platform svc py).next c (.fleet (.start s)) = some c₁ ∧
      (platform svc py).Reaches (Platform.OnlyHealthy c.workers.length) c₁ c' ∧
      ∀ r ∈ c.calls.world.requests,
        (∀ p ∈ c.calls.procs, p.tag.jobId = r.jobId → p.live = false) →
        ∀ job, c.calls.world.backend.db.job r.jobId = some job →
        ∃ answer, getImportStatus c'.calls.world.backend.db r.clientId r.jobId = .ok answer ∧
          (answer.status = "COMPLETED" ∨ answer.status = "FAILED") ∧
          ((∃ csv, parseCsv py r.content = some csv ∧ csv.Importable py) →
            job.status = .COMPLETED ∨ job.status.terminal = false ∧ job.retryCount < maxRetries →
            answer.status = "COMPLETED") ∧
          (answer.status = "COMPLETED" → ∀ v, r.Accepts py v →
            ∃ x ∈ c'.calls.world.backend.db.transactions, x.transactionId = v.transactionId) := by
  obtain ⟨hup, -⟩ := (couples_careful py).views hc
  obtain ⟨-, hpursued, -⟩ :=
    pursued_reaches (fun _ _ h => h) (fun row hrow => by cases hrow) rfl hup
  obtain ⟨b, hreach, hjobs⟩ := careful_drains hc hstores s
  refine ⟨_, c.withFleet b, rfl, hreach, fun r hr hover job hjob => ?_⟩
  obtain ⟨job', hjob', hterm, hcompleted⟩ :=
    hjobs r.jobId job (enqueued_of_pursued hpursued hover hjob) hjob
  -- the whole run
  have hall : (platform svc py).Reaches (fun _ _ => True) .empty (c.withFleet b) :=
    ((hc.mono fun _ _ _ => trivial).tail (e := .fleet (.start s)) trivial rfl).trans
      (hreach.mono fun _ _ _ => trivial)
  obtain ⟨hup', hledger⟩ := ledger_of_platform hall
  have hr' : r ∈ (c.withFleet b).calls.world.requests := hr
  have hanswer := getImportStatus_of_job hjob'
  rw [clientId_of_request hup' hr' hjob'] at hanswer
  refine ⟨_, hanswer, ?_, fun hcsv hstate => ?_, fun hst v hv => ?_⟩
  · rcases ImportStatus.terminal_iff.mp hterm with hst | hst
    · exact .inl (congrArg ImportStatus.value hst)
    · exact .inr (congrArg ImportStatus.value hst)
  · obtain ⟨csv, hcsv, himportable⟩ := hcsv
    have hread : c.calls.world.csvFiles py job.storagePath = parseCsv py r.content :=
      csvFiles_of_request (hup.mono fun _ _ _ => trivial) hr hjob
    exact ImportStatus.value_eq_completed.mpr
      (hcompleted ⟨⟨csv, hread.trans hcsv, himportable⟩, hstate⟩)
  · exact covers_request hup' hledger hr' hjob' (ImportStatus.value_eq_completed.mp hst) hv

/-- A test for `Platform.Careful`. -/
def Platform.Careful.test (c : Platform) : PlatformEvent → Bool
  | .api e => enqueueTest c.uploadView (uploadEvent e)
  | .fleet e => Fleet.Timely.test c.fleetView e

theorem Platform.Careful.of_test {e : PlatformEvent} (h : Platform.Careful.test c e = true) :
    c.Careful py e := by
  cases e with
  | api e => exact (@enqueueSafe_of_test sampleService _ _ h).1
  | fleet e =>
    refine ⟨(Fleet.Timely.of_test h).1.undisturbed, ?_⟩
    cases e with
    | step i f =>
      obtain ⟨-, hstep⟩ := Bool.and_eq_true_iff.mp h
      obtain rfl : f = .ok := of_decide_eq_true (Bool.and_eq_true_iff.mp hstep).1
      trivial
    | _ => trivial

/-- The worker that has started on the table is killed. -/
def sampleInterrupted : List PlatformEvent :=
  sampleUpload ++ .fleet (.start sampleSettings) :: (steps 0 13).map .fleet ++ [.fleet (.kill 0)]

/-- The table can be imported. -/
theorem importable_tableRequest :
    ∃ csv, parseCsv .ascii tableRequest.content = some csv ∧ csv.Importable .ascii := by
  refine ⟨_, parseCsv_isFile .ascii isFile_tableRequest, ?_, rfl, fun i row e hrow hraised => ?_⟩
  · refine List.filter_eq_nil_iff.mpr fun name hname hdec => ?_
    exact of_decide_eq_true hdec (by rw [← fieldnames_writtenTable] at hname; exact hname)
  · obtain ⟨record, hrecord, rfl⟩ := List.mem_map.mp (List.mem_of_getElem? hrow)
    exact returns_writtenTable record hrecord e hraised

theorem stores_tableRequest : tableRequest.Stores .ascii := by
  intro csv hcsv row hrow
  rw [parseCsv_isFile .ascii isFile_tableRequest] at hcsv
  cases hcsv
  obtain ⟨record, hrecord, rfl⟩ := List.mem_map.mp hrow
  exact stores_writtenTable record hrecord

/-- The next worker finishes its work. -/
theorem sample_platform_recovers :
    ∃ c c₁ c' : Platform,
      (c.calls.world.backend.db.job firstJob).map ImportJob.status = some .PROCESSING ∧
      (platform sampleService .ascii).next c (.fleet (.start sampleSettings)) = some c₁ ∧
      (platform sampleService .ascii).Reaches (Platform.OnlyHealthy c.workers.length) c₁ c' ∧
      ∃ answer, getImportStatus c'.calls.world.backend.db firstClient firstJob = .ok answer ∧
        answer.status = "COMPLETED" := by
  have hrun : ((platform sampleService .ascii).perform Platform.Careful.test .empty
      sampleInterrupted).map (fun c => (decide (c.calls.world.requests = [tableRequest]),
        c.calls.procs.all fun p => !p.live,
        (c.calls.world.backend.db.job firstJob).map fun job => (job.status, job.retryCount))) =
      some (true, true, some (.PROCESSING, 0)) := by
    decide +kernel
  obtain ⟨c, hc, hout⟩ := Option.map_eq_some_iff.mp hrun
  simp only [Prod.mk.injEq, decide_eq_true_eq] at hout
  obtain ⟨hrequests, hover, hstate⟩ := hout
  obtain ⟨job, hjob, heq⟩ := Option.map_eq_some_iff.mp hstate
  obtain ⟨hst, hretry⟩ := Prod.mk.inj heq
  obtain ⟨c₁, c', hstart, hreach, hall⟩ := platform_recovers sampleService .ascii
    (Machine.reaches_of_perform (fun _ _ h => Platform.Careful.of_test h) hc)
    (fun r hr _ => by
      rw [hrequests] at hr
      rw [List.mem_singleton.mp hr]
      exact stores_tableRequest) sampleSettings
  have hlive : ∀ p ∈ c.calls.procs, p.tag.jobId = tableRequest.jobId → p.live = false :=
    fun p hp _ => by simpa using List.all_eq_true.mp hover p hp
  obtain ⟨answer, hanswer, -, hcompleted, -⟩ := hall tableRequest
    (by rw [hrequests]; exact List.mem_cons_self) hlive job hjob
  refine ⟨c, c₁, c', by rw [hjob, ← hst]; rfl, hstart, hreach, answer, hanswer, ?_⟩
  exact hcompleted importable_tableRequest (.inr ⟨by rw [hst]; rfl, by rw [hretry]; decide⟩)

end TransactionPlatform
