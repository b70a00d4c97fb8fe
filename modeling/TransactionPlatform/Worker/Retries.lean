import TransactionPlatform.Worker.Exclusive

/-!
# Giving a job up

The deliveries of one entry, processed one after another.  An attempt whose `_run_import` raises is
counted in `retry_count` by the `except` block, and a job without retries left is failed and
acknowledged.  The count only reaches the database if the session can still commit: after a failure
in Postgres it cannot, the attempt is not counted, and such a job is delivered for ever.
-/

namespace TransactionPlatform

open Interleaved

/-- How one delivery is handled: the batch size of the worker and the faults its operations meet. -/
structure Handling where
  batchSize : ℕ
  fault : ℕ → WorkerOp → Fault

/-- One delivery of the entry and the call of `process_entry` that handles it; an acknowledged entry
is not delivered. -/
def Handling.deliver (py : Python) (files : String → Option Csv) (entry : ℕ) (x : Handling)
    (w : World) : World × Option (Except Exn Unit) :=
  match w.stream.claim entry with
  | none => (w, none)
  | some (s, id) => (processEntry py x.batchSize entry id).play (WorkerOp.exec files)
      (fun n o => some (x.fault n o)) 0 { w with stream := s }

/-- The operations of the call, with the faults they meet. -/
def Handling.operations (py : Python) (files : String → Option Csv) (entry : ℕ) (x : Handling)
    (w : World) : List (WorkerOp × Fault) :=
  match w.stream.claim entry with
  | none => []
  | some (s, id) => (processEntry py x.batchSize entry id).played (WorkerOp.exec files)
      (fun n o => some (x.fault n o)) 0 { w with stream := s }

/-- The job is loaded in a state in which `process_entry` calls `_run_import`. -/
def entersRunImport (w : World) (id : Uuid) : Bool :=
  (w.db.job id).any fun job => decide (job.status ≠ .COMPLETED ∧ job.retryCount < maxRetries)

/-- The call has raised. -/
def raised : Option (Except Exn Unit) → Bool
  | some (.error _) => true
  | _ => false

/-- The operation fails in Postgres, or it is an acknowledgement that fails. -/
def WorkerOp.uncounted (f : Fault) : WorkerOp → Bool
  | execute stmt => decide (stmt.outcome f = .error .DBAPIError)
  | selectJob _ | commit _ | xack _ => decide (f ≠ .ok)
  | _ => false

/-- No statement of the delivery fails in Postgres, nor its commits and acknowledgements: what
raises in `_run_import` is the file, the reader, `validate_row`, or a statement that is refused
before it is sent. -/
def Handling.SparesDatabase (py : Python) (files : String → Option Csv) (entry : ℕ) (w : World)
    (x : Handling) : Prop :=
  ∀ p ∈ x.operations py files entry w, p.1.uncounted p.2 = false

/-- A run of deliveries of one entry, handled as `P` says, in which every call of `_run_import` ends
in an exception.  The numbers count the deliveries and the calls of `_run_import`. -/
inductive PoisonRun (py : Python) (files : String → Option Csv) (P : World → Handling → Prop)
    (entry : ℕ) (id : Uuid) (w₀ : World) : ℕ → ℕ → World → Prop where
  | start : PoisonRun py files P entry id w₀ 0 0 w₀
  /-- Between two deliveries anything happens that is not about the job. -/
  | other {n m : ℕ} {w w' : World} (h : PoisonRun py files P entry id w₀ n m w)
      (hjob : w'.db.job id = w.db.job id) (hentry : w'.stream[entry]? = w.stream[entry]?) :
      PoisonRun py files P entry id w₀ n m w'
  | deliver {n m : ℕ} {w : World} {x : Handling} (h : PoisonRun py files P entry id w₀ n m w)
      (hx : P w x)
      (hraise : entersRunImport w id = true → raised (x.deliver py files entry w).2 = true) :
      PoisonRun py files P entry id w₀ (n + 1) (bif entersRunImport w id then m + 1 else m)
        (x.deliver py files entry w).1

/-! ### One delivery -/

/-- The entry of the job is in the pending list. -/
def PendingEntry (t : Attempt) (w : World) : Prop :=
  w.stream[t.entry]? = some ⟨t.importJobId, .pending⟩

/-- The phases of an attempt at a job that was loaded with the retry count `r`. -/
def RetryAt (r : ℕ) (t : Attempt) (w : World) : Phase → Prop
  | .unread => PendingEntry t w ∧ ∃ job, w.db.job t.importJobId = some job ∧ job.retryCount = r ∧
      job.status ≠ .COMPLETED
  | .giveUp job => PendingEntry t w ∧ maxRetries ≤ r ∧ job.retryCount = r
  | .start job => PendingEntry t w ∧ r < maxRetries ∧ job.retryCount = r
  | .scan job _ => PendingEntry t w ∧ r < maxRetries ∧ job.retryCount = r
  | .ackTry _ => r < maxRetries
  | .ack => PendingEntry t w ∧ maxRetries ≤ r ∧ ∃ job, w.db.job t.importJobId = some job ∧
      job.retryCount = r ∧ job.status = .FAILED
  | .handle s _ => PendingEntry t w ∧ r < maxRetries ∧ ∀ db, (s.commitJob db).retryCount = r + 1 ∧
      (s.commitJob db).status = .QUEUED
  | .ended (.ok _) => maxRetries ≤ r → w.stream[t.entry]? = some ⟨t.importJobId, .acked⟩ ∧
      ∃ job, w.db.job t.importJobId = some job ∧ job.retryCount = r ∧ job.status = .FAILED
  | .ended (.error _) => PendingEntry t w ∧ r < maxRetries ∧
      ∃ job, w.db.job t.importJobId = some job ∧ job.retryCount = r + 1 ∧ job.status = .QUEUED

variable {py : Python} {files : String → Option Csv} {t : Attempt} {r : ℕ}

/-- What `_load_job` finds decides how the attempt goes on. -/
theorem retryAt_loaded {w : World} (h : RetryAt r t w .unread) :
    RetryAt r t w (.loaded (w.db.job t.importJobId)) := by
  obtain ⟨hpend, job, hjob, hretry, hst⟩ := h
  rw [hjob, Phase.loaded, if_neg hst]
  split
  · next hle => exact ⟨hpend, by omega, hretry⟩
  · next hlt => exact ⟨hpend, by omega, hretry⟩

/-- One operation of an attempt that spares the database. -/
theorem RetryAt.move {o : WorkerOp} {f : Fault} {w w' : World} {a a' : Phase}
    (h : RetryAt r t w a) (hexact : Exact t w.db a)
    (hf : o.uncounted f = false) (hmove : Move py files t o f w a w' a') : RetryAt r t w' a' := by
  cases hmove with
  | load => exact retryAt_loaded h
  | stay hdb hstream ha =>
    cases a with
    | ended r => exact absurd rfl (ha r)
    | unread => simpa only [RetryAt, PendingEntry, hdb, hstream] using h
    | giveUp job => simpa only [RetryAt, PendingEntry, hdb, hstream] using h
    | start job => simpa only [RetryAt, PendingEntry, hdb, hstream] using h
    | scan job base => simpa only [RetryAt, PendingEntry, hdb, hstream] using h
    | ackTry job => exact h
    | ack => simpa only [RetryAt, PendingEntry, hdb, hstream] using h
    | handle s e => simpa only [RetryAt, PendingEntry, hdb, hstream] using h
  | fail hr =>
    cases hr with
    | load hne => exact absurd (by simpa [WorkerOp.uncounted] using hf) hne
    | server hid hcsv hb hmem hout => exact absurd hout (of_decide_eq_false hf)
    | insert hid hcsv hb hmem hvalid hout =>
      refine ⟨h.1, h.2.1, fun db => ?_⟩
      simp only [Session.commitJob, Session.transaction_inserts]
      exact ⟨congrArg (· + 1) h.2.2, rfl⟩
    | update hid hcsv hb hout =>
      refine ⟨h.1, h.2.1, fun db => ?_⟩
      simp only [Session.commitJob, Session.transaction_advance]
      exact ⟨congrArg (· + 1) h.2.2, rfl⟩
    | openCsv hid hwhy => exact ⟨h.1, h.2.1, fun db => ⟨congrArg (· + 1) h.2.2, rfl⟩⟩
    | readRow hid hwhy => exact ⟨h.1, h.2.1, fun db => ⟨congrArg (· + 1) h.2.2, rfl⟩⟩
  | @commit s _ _ _ cont e hc =>
    obtain rfl : f = .ok := by simpa [WorkerOp.uncounted] using hf
    obtain ⟨hnew, -⟩ := hexact.commit hc
    cases hc with
    | giveUp hid => exact ⟨h.1, h.2.1, _, hnew, h.2.2, rfl⟩
    | start hid => exact h
    | batch hid hcsv hcol hb hlt hfits =>
      refine ⟨h.1, h.2.1, ?_⟩
      simp only [Session.commitJob, Batch.work, Session.transaction_batch]
      exact h.2.2
    | finish hid hcsv hcol hlen hend => exact h.2.1
    | reject hid hcsv hcol => exact h.2.1
    | handle hid =>
      obtain ⟨h1, h2⟩ := h.2.2 w.db
      exact ⟨h.1, h.2.1, _, hnew, h1, h2⟩
  | ack =>
    obtain rfl : f = .ok := by simpa [WorkerOp.uncounted] using hf
    exact fun _ => ⟨Stream.xack_pending h.1, h.2.2⟩
  | ackTry hid =>
    obtain rfl : f = .ok := by simpa [WorkerOp.uncounted] using hf
    exact fun hle => absurd hle (Nat.not_le.mpr h)

/-- One delivery of an entry that is not acknowledged, for a job that is not completed: an attempt
that raises is counted and the entry stays, a job without retries is failed and acknowledged. -/
theorem Handling.SparesDatabase.deliver {x : Handling} {w : World} {entry : ℕ}
    (hx : x.SparesDatabase py files entry w) {id : Uuid} {y : Delivery} {job : ImportJob}
    (hentry : w.stream[entry]? = some ⟨id, y⟩) (hy : y ≠ .acked)
    (hjob : w.db.job id = some job) (hst : job.status ≠ .COMPLETED) :
    let out := x.deliver py files entry w
    (raised out.2 = true →
      out.1.stream[entry]? = some ⟨id, .pending⟩ ∧ ∃ job', out.1.db.job id = some job' ∧
        job'.retryCount = job.retryCount + 1 ∧ job'.status = .QUEUED) ∧
    (maxRetries ≤ job.retryCount →
      out.1.stream[entry]? = some ⟨id, .acked⟩ ∧ ∃ job', out.1.db.job id = some job' ∧
        job'.retryCount = job.retryCount ∧ job'.status = .FAILED) := by
  intro out
  obtain ⟨s, hclaim⟩ := Stream.exists_claim hentry hy
  obtain ⟨-, hpend, -⟩ := Stream.claim_eq_some hclaim
  have hout : out = (processEntry py x.batchSize entry id).play (WorkerOp.exec files)
      (fun n o => some (x.fault n o)) 0 { w with stream := s } := by
    simp only [out, Handling.deliver, hclaim]
  have hops : x.operations py files entry w =
      (processEntry py x.batchSize entry id).played (WorkerOp.exec files)
        (fun n o => some (x.fault n o)) 0 { w with stream := s } := by
    simp only [Handling.operations, hclaim]
  obtain ⟨a, ⟨hretry, -⟩, hended⟩ :=
    (processEntry_follows py files ⟨id, entry, x.batchSize⟩).play
      (g := fun n o => some (x.fault n o)) (n := 0) (w := { w with stream := s })
      (J := fun w a => RetryAt job.retryCount ⟨id, entry, x.batchSize⟩ w a ∧
        Exact ⟨id, entry, x.batchSize⟩ w.db a)
      ⟨⟨hpend, job, hjob, rfl, hst⟩, exact_of_none rfl⟩
      (fun o f w a w' a' hmem hJ hmove =>
        ⟨hJ.1.move hJ.2 (hx (o, f) (hops ▸ hmem)) hmove, hJ.2.move hmove⟩)
  obtain ⟨res, hres⟩ : ∃ res, out.2 = some res := by
    rw [hout]
    exact Program.exists_play_eq_some _ (fun n o => by simp) 0 _ _
  rw [← hout] at hretry hended
  rw [hended res hres] at hretry
  constructor
  · intro hraise
    rw [hres] at hraise
    cases res with
    | ok u => cases hraise
    | error e => exact ⟨hretry.1, hretry.2.2⟩
  · intro hle
    cases res with
    | ok u => exact hretry hle
    | error e => exact absurd hle (Nat.not_le.mpr hretry.2.1)

/-! ### Runs of deliveries -/

/-- A job whose every import raises is given up, as long as the exceptions do not come from
Postgres: each of the first deliveries increases `retry_count` by one and leaves the entry
un-acknowledged, no more than `MAX_RETRIES` of them call `_run_import`, and the next delivery fails
the job and acknowledges the entry. -/
theorem poison_pill_given_up (py : Python) (files : String → Option Csv) {w₀ w : World}
    {entry n m : ℕ} {id : Uuid} {job₀ : ImportJob} (hjob : w₀.db.job id = some job₀)
    (hretry : job₀.retryCount = 0) (hst : job₀.status = .QUEUED)
    (hentry : w₀.stream[entry]? = some ⟨id, .fresh⟩)
    (hrun : PoisonRun py files (Handling.SparesDatabase py files entry) entry id w₀ n m w) :
    m ≤ maxRetries ∧
    (n ≤ maxRetries → m = n ∧ ∃ job y, w.db.job id = some job ∧ job.retryCount = n ∧
      w.stream[entry]? = some ⟨id, y⟩ ∧ y ≠ .acked) ∧
    (maxRetries < n → ∃ job, w.db.job id = some job ∧ job.status = .FAILED ∧
      w.stream[entry]? = some ⟨id, .acked⟩) := by
  -- the state after `n` deliveries
  suffices hstate :
      (n ≤ maxRetries ∧ m = n ∧ ∃ job y, w.db.job id = some job ∧ job.retryCount = n ∧
        job.status ≠ .COMPLETED ∧ w.stream[entry]? = some ⟨id, y⟩ ∧ y ≠ .acked) ∨
      (maxRetries < n ∧ m = maxRetries ∧ ∃ job, w.db.job id = some job ∧
        job.retryCount = maxRetries ∧ job.status = .FAILED ∧
        w.stream[entry]? = some ⟨id, .acked⟩) by
    rcases hstate with ⟨hn, rfl, job, y, h1, h2, -, h4, h5⟩ | ⟨hn, rfl, job, h1, -, h3, h4⟩
    · exact ⟨hn, fun _ => ⟨rfl, job, y, h1, h2, h4, h5⟩, fun hlt => by omega⟩
    · exact ⟨Nat.le_refl _, fun hle => by omega, fun _ => ⟨job, h1, h3, h4⟩⟩
  induction hrun with
  | start => exact .inl ⟨Nat.zero_le _, rfl, job₀, .fresh, hjob, hretry, by simp [hst], hentry, by simp⟩
  | other h hj he ih => rwa [hj, he]
  | @deliver n m w x h hx hraise ih =>
    rcases ih with ⟨hn, rfl, job, y, h1, h2, h3, h4, h5⟩ | ⟨hn, rfl, job, h1, h2, h3, h4⟩
    · obtain ⟨hcount, hgive⟩ := hx.deliver h4 h5 h1 h3
      rcases Nat.lt_or_ge m maxRetries with hlt | hge
      · have henter : entersRunImport w id = true := by
          simp only [entersRunImport, h1, Option.any_some, decide_eq_true_eq]
          exact ⟨h3, by omega⟩
        obtain ⟨hpend, job', hjob', hr, hq⟩ := hcount (hraise henter)
        rw [henter, cond_true]
        exact .inl ⟨hlt, rfl, job', .pending, hjob', by omega, by simp [hq], hpend, by simp⟩
      · have henter : entersRunImport w id = false := by
          simp only [entersRunImport, h1, Option.any_some, decide_eq_false_iff_not]
          omega
        obtain ⟨hack, job', hjob', hr, hf⟩ := hgive (by omega)
        rw [henter, cond_false]
        exact .inr ⟨by omega, by omega, job', hjob', by omega, hf, hack⟩
    · have henter : entersRunImport w id = false := by
        simp only [entersRunImport, h1, Option.any_some, decide_eq_false_iff_not]
        omega
      have hsame : (x.deliver py files entry w).1 = w := by
        simp only [Handling.deliver, Stream.claim_acked h4]
      rw [henter, cond_false, hsame]
      exact .inr ⟨by omega, rfl, job, h1, h2, h3, h4⟩

/-- A delivery for which the upload cannot be opened. -/
def missingUpload : Handling :=
  ⟨1, fun _ o => match o with
    | .openCsv _ => .failed
    | _ => .ok⟩

/-- A row whose amount has more digits than its column. -/
def hugeAmountRow : Row :=
  [("transaction_id", "T1"), ("account_id", "A1"), ("type", "CREDIT"),
    ("amount", "10000000000000000"), ("currency", "USD"), ("timestamp", "2026-09-01T10:00:00Z")]

/-- A file with this row alone. -/
def hugeAmountCsv : Csv := ⟨requiredColumns, [hugeAmountRow], false⟩

/-- A delivery for which nothing fails but what the file itself makes fail. -/
def undisturbed : Handling := ⟨1, fun _ _ => .ok⟩

section Redeliver

variable (csv : Csv) (x : Handling) (w : World)

/-- The world after `n` deliveries that are handled in the same way. -/
def redeliver : ℕ → World
  | 0 => w
  | n + 1 => (x.deliver .ascii (sampleFiles csv) 0 (redeliver n)).1

/-- How many of them call `_run_import`. -/
def calls (id : Uuid) : ℕ → ℕ
  | 0 => 0
  | n + 1 => bif entersRunImport (redeliver csv x w n) id then calls id n + 1 else calls id n

/-- Deliveries that are handled in the same way are a run, as long as they raise. -/
theorem poisonRun_redeliver {P : World → Handling → Prop} (id : Uuid) :
    ∀ n, (∀ k < n, P (redeliver csv x w k) x) →
    (∀ k < n, entersRunImport (redeliver csv x w k) id = true →
      raised (x.deliver .ascii (sampleFiles csv) 0 (redeliver csv x w k)).2 = true) →
    PoisonRun .ascii (sampleFiles csv) P 0 id w n (calls csv x w id n) (redeliver csv x w n)
  | 0, _, _ => .start
  | n + 1, hx, h => (poisonRun_redeliver id n (fun k hk => hx k (Nat.lt_succ_of_lt hk))
      fun k hk => h k (Nat.lt_succ_of_lt hk)).deliver (hx n (Nat.lt_succ_self n))
      (h n (Nat.lt_succ_self n))

end Redeliver

theorem sample_poison_pill_given_up :
    ∃ m w, PoisonRun .ascii (sampleFiles sampleCsv)
        (Handling.SparesDatabase .ascii (sampleFiles sampleCsv) 0) 0 sampleId sampleWorld 4 m w ∧
        m ≤ maxRetries ∧ ∃ job, w.db.job sampleId = some job ∧ job.status = .FAILED ∧
        w.stream[0]? = some ⟨sampleId, .acked⟩ := by
  have hjob : sampleWorld.db.job sampleId = some sampleJob := by decide +kernel
  have hspares : ∀ k < 4, ∀ p ∈ missingUpload.operations .ascii (sampleFiles sampleCsv) 0
      (redeliver sampleCsv missingUpload sampleWorld k), p.1.uncounted p.2 = false := by
    decide +kernel
  have hrun := poisonRun_redeliver sampleCsv missingUpload sampleWorld sampleId 4
    (P := Handling.SparesDatabase .ascii (sampleFiles sampleCsv) 0) hspares (by decide +kernel)
  obtain ⟨hle, -, hgive⟩ :=
    poison_pill_given_up .ascii (sampleFiles sampleCsv) hjob rfl rfl rfl hrun
  exact ⟨_, _, hrun, hle, hgive (by decide)⟩

/-- The exception of a failed statement is not counted: Postgres refuses an amount that has more
digits than its column, and after four deliveries, each of which has called `_run_import`, the job
has no retry on its count, it is not failed, and its entry is pending. -/
theorem failed_statement_not_counted :
    ∃ w, PoisonRun .ascii (sampleFiles hugeAmountCsv) (fun _ x => ∀ n o, x.fault n o = .ok) 0 sampleId
        sampleWorld 4 4 w ∧
      (w.db.job sampleId).map (fun job => (job.retryCount, job.status)) = some (0, .PROCESSING) ∧
      w.stream[0]? = some ⟨sampleId, .pending⟩ := by
  have hrun := poisonRun_redeliver hugeAmountCsv undisturbed sampleWorld sampleId 4
    (P := fun _ x => ∀ n o, x.fault n o = .ok) (fun _ _ _ _ => rfl) (by decide +kernel)
  have hcalls : calls hugeAmountCsv undisturbed sampleWorld sampleId 4 = 4 := by decide +kernel
  rw [hcalls] at hrun
  exact ⟨_, hrun, by decide +kernel, by decide +kernel⟩

end TransactionPlatform
