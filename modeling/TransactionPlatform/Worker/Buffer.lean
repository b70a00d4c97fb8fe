import Mathlib.Order.Nat
import TransactionPlatform.Worker.ImportWorker

/-!
# What the buffers of an attempt hold

The rows of the file that `validate_row` accepts, `accepted`, are the reference for everything an
attempt inserts.  The loop of `_run_import` drops accepted rows whose id it has seen in the file, so
its buffer is a part of them; `Buffered` says that on every table that has the ids seen before the
last commit, inserting the buffer is the same as inserting all accepted rows since that commit.  Row
by row the two buffers are `fresh` and `reported`, where a repetition counts from the row the
attempt started behind, and `RowFits` says that the columns take what a row leaves there.
-/

namespace TransactionPlatform

open KeyedTable

/-- What the rows numbered `start + 1` to `upTo` leave, given what each of them leaves. -/
def perRow {β : Type} (g : ℕ → Option β) (start upTo : ℕ) : List β :=
  (List.range' start (upTo - start)).filterMap g

section Accepted

variable (py : Python) (jobId : Uuid)

/-- The transaction of a row that `validate_row` accepts. -/
def acceptedRow (row : Row) : Option Transaction :=
  match py.validateRow row 0 with
  | .accepted v => some (v.transaction jobId)
  | _ => none

/-- The transactions of the accepted rows numbered `start + 1` to `upTo`. -/
def accepted (rows : List Row) (start upTo : ℕ) : List Transaction :=
  ((rows.take upTo).drop start).filterMap (acceptedRow py jobId)

/-- The record of a row that `validate_row` rejects, or accepts although its id has been seen. -/
def errorRecord (seen : List String) (rowNumber : ℕ) (row : Row) : Option ImportError :=
  match py.validateRow row rowNumber with
  | .raised _ => none
  | .rejected error => some ⟨jobId, rowNumber, rejectedId py row, error⟩
  | .accepted v =>
    if v.transactionId ∈ seen then
      some ⟨jobId, rowNumber, some v.transactionId, "duplicate transaction_id within this file"⟩
    else none

/-- The record of the row numbered `i + 1`, for an attempt that started behind the row `base`. -/
def reportedRow (rows : List Row) (base i : ℕ) : Option ImportError :=
  rows[i]?.bind fun row =>
    errorRecord py jobId ((accepted py jobId rows base i).map Transaction.transactionId) (i + 1) row

/-- The records of the rows numbered `start + 1` to `upTo`, for an attempt that started behind the
row `base`. -/
def reported (rows : List Row) (base start upTo : ℕ) : List ImportError :=
  perRow (reportedRow py jobId rows base) start upTo

/-- The transaction of the row numbered `i + 1`, for an attempt that started behind the row `base`:
the row is accepted and its id is new. -/
def freshRow (rows : List Row) (base i : ℕ) : Option Transaction :=
  rows[i]?.bind fun row => (acceptedRow py jobId row).filter fun t =>
    decide (t.transactionId ∉ (accepted py jobId rows base i).map Transaction.transactionId)

/-- The transactions of the rows numbered `start + 1` to `upTo`, for an attempt that started behind
the row `base`. -/
def fresh (rows : List Row) (base start upTo : ℕ) : List Transaction :=
  perRow (freshRow py jobId rows base) start upTo

/-- The client and the columns take what the row numbered `i + 1` leaves in the buffers of an
attempt that started behind the row `base`. -/
structure RowFits (rows : List Row) (base i : ℕ) : Prop where
  transaction : ∀ t, freshRow py jobId rows base i = some t →
    t.timestamp.representableInUtc = true ∧ t.fitsColumns = true
  error : ∀ e, reportedRow py jobId rows base i = some e → e.storable = true

instance (rows : List Row) (base i : ℕ) : Decidable (RowFits py jobId rows base i) :=
  decidable_of_iff
    ((∀ t ∈ freshRow py jobId rows base i,
      t.timestamp.representableInUtc = true ∧ t.fitsColumns = true) ∧
      ∀ e ∈ reportedRow py jobId rows base i, e.storable = true)
    ⟨fun h => ⟨h.1, h.2⟩, fun h => ⟨h.transaction, h.error⟩⟩

/-- The client and the columns take whatever an import makes of the row. -/
def stores (row : Row) : Bool :=
  match py.validateRow row 0 with
  | .raised _ => true
  | .rejected error => (ImportError.mk jobId 0 (rejectedId py row) error).storable
  | .accepted v => v.timestamp.representableInUtc && (v.transaction jobId).fitsColumns

end Accepted

variable {py : Python} {jobId : Uuid} {rows : List Row}

/-- `validate_row` does not look at the row number. -/
theorem acceptedRow_eq_some {row : Row} {n : ℕ} {v : ValidRow}
    (h : py.validateRow row n = .accepted v) :
    acceptedRow py jobId row = some (v.transaction jobId) := by
  have h0 : py.validateRow row 0 = .accepted v := h
  rw [acceptedRow, h0]

@[simp] theorem accepted_self (n : ℕ) : accepted py jobId rows n n = [] := by
  rw [accepted, List.drop_eq_nil_of_le, List.filterMap_nil]
  exact List.length_take_le n rows

/-- An interval of rows split at a row number. -/
theorem accepted_append {k m n : ℕ} (hkm : k ≤ m) (hmn : m ≤ n) :
    accepted py jobId rows k m ++ accepted py jobId rows m n = accepted py jobId rows k n := by
  rw [accepted, accepted, accepted, ← List.filterMap_append]
  congr 1
  have htake : rows.take m = (rows.take n).take m := by rw [List.take_take, min_eq_left hmn]
  rw [htake, List.drop_take]
  conv_rhs => rw [← List.take_append_drop (m - k) ((rows.take n).drop k)]
  rw [List.drop_drop]
  congr 2
  omega

/-- The interval grows by one row. -/
theorem accepted_succ {k n : ℕ} {row : Row} (hk : k ≤ n) (hrow : rows[n]? = some row) :
    accepted py jobId rows k (n + 1) =
      accepted py jobId rows k n ++ (acceptedRow py jobId row).toList := by
  rw [← accepted_append hk (Nat.le_succ n)]
  congr 1
  obtain ⟨hn, rfl⟩ := List.getElem?_eq_some_iff.mp hrow
  rw [accepted, List.take_add_one, hrow, List.drop_append_of_le_length (by simp; omega),
    List.drop_eq_nil_of_le (List.length_take_le n rows)]
  cases hr : acceptedRow py jobId rows[n] with
  | none => simp [hr]
  | some t => simp [hr]

/-- The members of `accepted`, by row number. -/
theorem mem_accepted {k n : ℕ} {t : Transaction} (h : t ∈ accepted py jobId rows k n) :
    ∃ (i : ℕ) (row : Row) (v : ValidRow), k ≤ i ∧ i < n ∧ rows[i]? = some row ∧
      py.validateRow row (i + 1) = .accepted v ∧ t = v.transaction jobId := by
  obtain ⟨row, hrow, ht⟩ := List.mem_filterMap.mp h
  obtain ⟨i, hi⟩ := List.mem_iff_getElem?.mp hrow
  rw [List.getElem?_drop, List.getElem?_take] at hi
  split at hi
  · next hlt =>
    rw [acceptedRow] at ht
    split at ht
    · next v hv => exact ⟨k + i, row, v, by omega, hlt, hi, hv, (Option.some.inj ht).symm⟩
    · cases ht
  · cases hi

/-- An accepted row is a member of `accepted`. -/
theorem mem_accepted_of_row {k n i : ℕ} {row : Row} {v : ValidRow} (hk : k ≤ i) (hn : i < n)
    (hrow : rows[i]? = some row) (hv : py.validateRow row (i + 1) = .accepted v) :
    v.transaction jobId ∈ accepted py jobId rows k n := by
  refine List.mem_filterMap.mpr ⟨row, ?_, acceptedRow_eq_some hv⟩
  refine List.mem_iff_getElem?.mpr ⟨i - k, ?_⟩
  rw [List.getElem?_drop, List.getElem?_take, if_pos (by omega)]
  rw [show k + (i - k) = i by omega]
  exact hrow

/-- Only membership in the ids seen matters. -/
theorem errorRecord_congr {seen seen' : List String} {n : ℕ} {row : Row}
    (h : ∀ v, py.validateRow row n = .accepted v →
      (v.transactionId ∈ seen ↔ v.transactionId ∈ seen')) :
    errorRecord py jobId seen n row = errorRecord py jobId seen' n row := by
  unfold errorRecord
  split
  · rfl
  · rfl
  · next v hv => rw [if_congr (h v hv) rfl rfl]

section PerRow

variable {β : Type} {g : ℕ → Option β}

@[simp] theorem perRow_self (n : ℕ) : perRow g n n = [] := by
  rw [perRow, Nat.sub_self, List.range'_zero, List.filterMap_nil]

/-- An interval of rows split at a row number. -/
theorem perRow_append {k m n : ℕ} (hkm : k ≤ m) (hmn : m ≤ n) :
    perRow g k m ++ perRow g m n = perRow g k n := by
  obtain ⟨d, rfl⟩ := Nat.exists_eq_add_of_le hkm
  obtain ⟨e, rfl⟩ := Nat.exists_eq_add_of_le hmn
  have hsum : k + d + e - k = d + e := by omega
  rw [perRow, perRow, perRow, ← List.filterMap_append, Nat.add_sub_cancel_left,
    Nat.add_sub_cancel_left, hsum, List.range'_append_1]

/-- The interval grows by one row. -/
theorem perRow_succ {k n : ℕ} (hk : k ≤ n) :
    perRow g k (n + 1) = perRow g k n ++ (g n).toList := by
  rw [← perRow_append hk (Nat.le_succ n)]
  congr 1
  rw [perRow, Nat.succ_eq_add_one, Nat.add_sub_cancel_left, List.range'_one]
  cases hr : g n with
  | none => simp [hr]
  | some e => simp [hr]

/-- Something holds of everything the rows leave if it holds row by row. -/
theorem forall_mem_perRow {p : β → Prop} {k n : ℕ} :
    (∀ x ∈ perRow g k n, p x) ↔ ∀ i, k ≤ i → i < n → ∀ x, g i = some x → p x := by
  have hi : ∀ i, i ∈ List.range' k (n - k) ↔ k ≤ i ∧ i < n := fun i => by
    rw [List.mem_range'_1]
    omega
  constructor
  · intro h i hk hn x hx
    exact h x (List.mem_filterMap.mpr ⟨i, (hi i).mpr ⟨hk, hn⟩, hx⟩)
  · intro h x hx
    obtain ⟨i, hmem, hx⟩ := List.mem_filterMap.mp hx
    exact h i ((hi i).mp hmem).1 ((hi i).mp hmem).2 x hx

end PerRow

/-! ### The buffers -/

/-- The loop variables `b` of an attempt that started behind the row `base` and has committed up to
the row `last`. -/
structure Buffered (py : Python) (jobId : Uuid) (rows : List Row) (base last : ℕ) (b : Batch) :
    Prop where
  /-- The attempt has committed at least what it found. -/
  base_le : base ≤ last
  last_le : last ≤ b.rowNumber
  rowNumber_le : b.rowNumber ≤ rows.length
  /-- Every row since the last commit is in one of the two buffers. -/
  length_eq : b.valid.length + b.errors.length = b.rowNumber - last
  /-- `seen_in_file` holds the ids of the accepted rows this attempt has read. -/
  mem_seen : ∀ x, x ∈ b.seenInFile ↔
    ∃ t ∈ accepted py jobId rows base b.rowNumber, t.transactionId = x
  /-- Inserting the buffer is inserting the accepted rows since the last commit. -/
  insert_valid : ∀ T : List Transaction,
    (∀ t ∈ accepted py jobId rows base last, HasKey Transaction.transactionId T t.transactionId) →
    insertAbsent Transaction.transactionId T b.valid =
      insertAbsent Transaction.transactionId T (accepted py jobId rows last b.rowNumber)
  /-- The buffered transactions carry the id of the job. -/
  job_valid : ∀ t ∈ b.valid, t.importJobId = some jobId
  /-- The buffered errors are about distinct rows since the last commit. -/
  nodup_errors : (b.errors.map ImportError.rowNumber).Nodup
  job_errors : ∀ e ∈ b.errors, e.importJobId = jobId ∧ last < e.rowNumber ∧
    e.rowNumber ≤ b.rowNumber
  /-- The buffered errors are the records of the rows since the last commit. -/
  errors_eq : b.errors = reported py jobId rows base last b.rowNumber
  /-- The buffered transactions are those of the rows since the last commit. -/
  valid_eq : b.valid = fresh py jobId rows base last b.rowNumber
  /-- No row the attempt has read makes `validate_row` raise. -/
  not_raised : ∀ (i : ℕ) (row : Row) (e : String), base ≤ i → i < b.rowNumber →
    rows[i]? = some row → py.validateRow row (i + 1) ≠ .raised e

/-- The next row is recorded as the loop body does, by the ids seen in the file. -/
theorem Buffered.reportedRow_eq {base last : ℕ} {b : Batch} {row : Row}
    (h : Buffered py jobId rows base last b) (hrow : rows[b.rowNumber]? = some row) :
    reportedRow py jobId rows base b.rowNumber =
      errorRecord py jobId b.seenInFile (b.rowNumber + 1) row := by
  rw [reportedRow, hrow, Option.bind_some]
  refine errorRecord_congr fun v _ => ?_
  rw [h.mem_seen, List.mem_map]

/-- The next row is inserted as the loop body does, by the ids seen in the file. -/
theorem Buffered.freshRow_eq {base last : ℕ} {b : Batch} {row : Row}
    (h : Buffered py jobId rows base last b) (hrow : rows[b.rowNumber]? = some row) :
    freshRow py jobId rows base b.rowNumber =
      (acceptedRow py jobId row).filter fun t => decide (t.transactionId ∉ b.seenInFile) := by
  rw [freshRow, hrow, Option.bind_some]
  congr 1
  funext t
  rw [decide_eq_decide, h.mem_seen, List.mem_map]

/-- The records of a batch are about rows behind the checkpoint, so they repeat none. -/
theorem nodup_errors_append {base last : ℕ} {b : Batch} {errors : List ImportError}
    (hb : Buffered py jobId rows base last b)
    (hnodup : ((errors.filter fun e => e.importJobId = jobId).map ImportError.rowNumber).Nodup)
    (hle : ∀ e ∈ errors, e.importJobId = jobId → e.rowNumber ≤ last) :
    (((errors ++ b.errors).filter fun e => e.importJobId = jobId).map
      ImportError.rowNumber).Nodup := by
  have hall : (b.errors.filter fun e => e.importJobId = jobId) = b.errors :=
    List.filter_eq_self.mpr fun e he => decide_eq_true (hb.job_errors e he).1
  rw [List.filter_append, hall, List.map_append]
  refine List.nodup_append.mpr ⟨hnodup, hb.nodup_errors, ?_⟩
  intro n hn m hm heq
  obtain ⟨e, he, rfl⟩ := List.mem_map.mp hn
  obtain ⟨e', he', rfl⟩ := List.mem_map.mp hm
  obtain ⟨hmem, hid⟩ := List.mem_filter.mp he
  have h1 := hle e hmem (of_decide_eq_true hid)
  have h2 := (hb.job_errors e' he').2.1
  omega

/-- Before the first row behind the checkpoint nothing is buffered. -/
theorem Buffered.start {n : ℕ} (hn : n ≤ rows.length) :
    Buffered py jobId rows n n ⟨n, [], [], []⟩ where
  base_le := Nat.le_refl n
  last_le := Nat.le_refl n
  rowNumber_le := hn
  length_eq := by simp
  mem_seen x := by simp
  insert_valid T _ := by simp
  job_valid t ht := by simp at ht
  nodup_errors := by simp
  job_errors e he := by simp at he
  errors_eq := by simp [reported]
  valid_eq := by simp [fresh]
  not_raised i row e hi hi' := by
    have h' : i < n := hi'
    omega

/-- After a commit of the buffers they are empty. -/
theorem Buffered.flush {base last : ℕ} {b : Batch} (h : Buffered py jobId rows base last b) :
    Buffered py jobId rows base b.rowNumber { b with valid := [], errors := [] } where
  base_le := h.base_le.trans h.last_le
  last_le := Nat.le_refl _
  rowNumber_le := h.rowNumber_le
  length_eq := by simp
  mem_seen := h.mem_seen
  insert_valid T _ := by simp
  job_valid t ht := by simp at ht
  nodup_errors := by simp
  job_errors e he := by simp at he
  errors_eq := by simp [reported]
  valid_eq := by simp [fresh]
  not_raised := h.not_raised

/-- No row up to the next one makes `validate_row` raise. -/
theorem Buffered.not_raised_succ {base last : ℕ} {b : Batch} {row : Row}
    (h : Buffered py jobId rows base last b) (hrow : rows[b.rowNumber]? = some row)
    (hraise : ∀ e, py.validateRow row (b.rowNumber + 1) ≠ .raised e) :
    ∀ (i : ℕ) (row : Row) (e : String), base ≤ i → i < b.rowNumber + 1 → rows[i]? = some row →
      py.validateRow row (i + 1) ≠ .raised e := by
  intro i row' e hi hi' hrow'
  rcases Nat.lt_succ_iff_lt_or_eq.mp hi' with hi' | rfl
  · exact h.not_raised i row' e hi hi' hrow'
  · rw [hrow] at hrow'
    cases hrow'
    exact hraise e

/-- The buffered errors are still about rows since the last commit when a row is read. -/
theorem Buffered.job_errors_succ {base last : ℕ} {b : Batch}
    (h : Buffered py jobId rows base last b) :
    ∀ e ∈ b.errors, e.importJobId = jobId ∧ last < e.rowNumber ∧
      e.rowNumber ≤ b.rowNumber + 1 := by
  intro e he
  obtain ⟨hjob, hlast, hle⟩ := h.job_errors e he
  exact ⟨hjob, hlast, hle.trans (Nat.le_succ _)⟩

/-- A transaction with the id of a row that was read is not inserted again. -/
theorem Buffered.insert_repeated {base last : ℕ} {b : Batch} {t : Transaction}
    (h : Buffered py jobId rows base last b)
    (ht : ∃ t' ∈ accepted py jobId rows base b.rowNumber, t'.transactionId = t.transactionId)
    {T : List Transaction}
    (hT : ∀ t ∈ accepted py jobId rows base last,
      HasKey Transaction.transactionId T t.transactionId) :
    insertAbsent Transaction.transactionId
        (insertAbsent Transaction.transactionId T (accepted py jobId rows last b.rowNumber)) [t] =
      insertAbsent Transaction.transactionId T (accepted py jobId rows last b.rowNumber) := by
  obtain ⟨t', ht', heq⟩ := ht
  rw [← accepted_append h.base_le h.last_le] at ht'
  refine insertAbsent_eq_self_iff.mpr fun r hr => ?_
  rw [List.mem_singleton.mp hr, ← heq]
  rcases List.mem_append.mp ht' with ht' | ht'
  · exact (hT t' ht').mono (prefix_insertAbsent _ _)
  · exact hasKey_insertAbsent ht'

/-- A row that goes to the error buffer: it is not accepted, or its id has been seen. -/
theorem Buffered.addError {base last : ℕ} {b : Batch} {row : Row} {error : ImportError}
    (h : Buffered py jobId rows base last b) (hrow : rows[b.rowNumber]? = some row)
    (herr : error.importJobId = jobId ∧ error.rowNumber = b.rowNumber + 1)
    (hrec : errorRecord py jobId b.seenInFile (b.rowNumber + 1) row = some error)
    (hraise : ∀ e, py.validateRow row (b.rowNumber + 1) ≠ .raised e)
    (hseen : ∀ v, py.validateRow row (b.rowNumber + 1) = .accepted v →
      v.transactionId ∈ b.seenInFile) :
    Buffered py jobId rows base last
      { b with rowNumber := b.rowNumber + 1, errors := b.errors ++ [error] } := by
  obtain ⟨hlt, -⟩ := List.getElem?_eq_some_iff.mp hrow
  have hb : base ≤ b.rowNumber := h.base_le.trans h.last_le
  -- the new accepted row, if there is one, has the id of an accepted row before it
  have hold : ∀ t ∈ (acceptedRow py jobId row).toList,
      ∃ t' ∈ accepted py jobId rows base b.rowNumber, t'.transactionId = t.transactionId := by
    intro t ht
    rw [Option.mem_toList, acceptedRow] at ht
    split at ht
    · next v hv =>
      cases ht
      exact (h.mem_seen v.transactionId).mp (hseen v hv)
    · cases ht
  refine ⟨h.base_le, h.last_le.trans (Nat.le_succ _), hlt, ?_, ?_, ?_, h.job_valid, ?_, ?_, ?_, ?_,
    ?_⟩
  · have := h.length_eq
    have := h.last_le
    simp only [List.length_append, List.length_singleton]
    omega
  · intro x
    rw [h.mem_seen x]
    simp only [accepted_succ hb hrow]
    constructor
    · rintro ⟨t, ht, rfl⟩
      exact ⟨t, List.mem_append_left _ ht, rfl⟩
    · rintro ⟨t, ht, rfl⟩
      rcases List.mem_append.mp ht with ht | ht
      · exact ⟨t, ht, rfl⟩
      · exact hold t ht
  · intro T hT
    simp only [accepted_succ h.last_le hrow, insertAbsent_append, h.insert_valid T hT]
    cases hr : acceptedRow py jobId row with
    | none => rfl
    | some t => exact (h.insert_repeated (hold t (by simp [hr])) hT).symm
  · simp only [List.map_append, List.map_singleton, List.nodup_append, List.nodup_singleton,
      true_and]
    refine ⟨h.nodup_errors, ?_⟩
    rintro n hn _ hm rfl
    obtain ⟨e, he, rfl⟩ := List.mem_map.mp hn
    have := (h.job_errors e he).2.2
    rw [List.mem_singleton, herr.2] at hm
    omega
  · intro e he
    have hle := h.last_le
    rcases List.mem_append.mp he with he | he
    · exact h.job_errors_succ e he
    · rw [List.mem_singleton.mp he, herr.2]
      exact ⟨herr.1, by omega, Nat.le_refl _⟩
  · have hsucc := perRow_succ (g := reportedRow py jobId rows base) h.last_le
    rw [h.reportedRow_eq hrow, hrec] at hsucc
    rw [h.errors_eq]
    exact hsucc.symm
  · have hnone : freshRow py jobId rows base b.rowNumber = none := by
      rw [h.freshRow_eq hrow, Option.filter_eq_none_iff]
      intro t ht
      obtain ⟨t', ht', heq⟩ := hold t (Option.mem_toList.mpr ht)
      exact fun hnew => of_decide_eq_true hnew ((h.mem_seen _).mpr ⟨t', ht', heq⟩)
    have hsucc := perRow_succ (g := freshRow py jobId rows base) h.last_le
    rw [hnone, Option.toList_none, List.append_nil] at hsucc
    exact h.valid_eq.trans hsucc.symm
  · exact h.not_raised_succ hrow hraise

/-- An accepted row with a new id goes to the buffer of valid rows. -/
theorem Buffered.addValid {base last : ℕ} {b : Batch} {row : Row} {v : ValidRow}
    (h : Buffered py jobId rows base last b) (hrow : rows[b.rowNumber]? = some row)
    (hv : py.validateRow row (b.rowNumber + 1) = .accepted v)
    (hnew : v.transactionId ∉ b.seenInFile) :
    Buffered py jobId rows base last
      { b with
        rowNumber := b.rowNumber + 1
        valid := b.valid ++ [v.transaction jobId]
        seenInFile := v.transactionId :: b.seenInFile } := by
  obtain ⟨hlt, -⟩ := List.getElem?_eq_some_iff.mp hrow
  have hb : base ≤ b.rowNumber := h.base_le.trans h.last_le
  have hacc : acceptedRow py jobId row = some (v.transaction jobId) := acceptedRow_eq_some hv
  refine ⟨h.base_le, h.last_le.trans (Nat.le_succ _), hlt, ?_, ?_, ?_, ?_, h.nodup_errors, ?_, ?_,
    ?_, ?_⟩
  · have := h.length_eq
    have := h.last_le
    simp only [List.length_append, List.length_singleton]
    omega
  · intro x
    simp only [accepted_succ hb hrow, hacc, Option.toList_some, List.mem_cons, h.mem_seen x,
      List.mem_append, List.not_mem_nil, or_false]
    constructor
    · rintro (rfl | ⟨t, ht, rfl⟩)
      · exact ⟨_, .inr rfl, rfl⟩
      · exact ⟨t, .inl ht, rfl⟩
    · rintro ⟨t, ht | rfl, rfl⟩
      · exact .inr ⟨t, ht, rfl⟩
      · exact .inl rfl
  · intro T hT
    simp only [accepted_succ h.last_le hrow, hacc, Option.toList_some, insertAbsent_append,
      h.insert_valid T hT]
  · intro t ht
    rcases List.mem_append.mp ht with ht | ht
    · exact h.job_valid t ht
    · rw [List.mem_singleton.mp ht]
      rfl
  · exact h.job_errors_succ
  · have hnone : errorRecord py jobId b.seenInFile (b.rowNumber + 1) row = none := by
      rw [errorRecord, hv]
      exact if_neg hnew
    have hsucc := perRow_succ (g := reportedRow py jobId rows base) h.last_le
    rw [h.reportedRow_eq hrow, hnone, Option.toList_none, List.append_nil] at hsucc
    exact h.errors_eq.trans hsucc.symm
  · have hsome : freshRow py jobId rows base b.rowNumber = some (v.transaction jobId) := by
      rw [h.freshRow_eq hrow, hacc, Option.filter_some]
      exact if_pos (decide_eq_true hnew)
    have hsucc := perRow_succ (g := freshRow py jobId rows base) h.last_le
    rw [hsome, Option.toList_some] at hsucc
    rw [h.valid_eq]
    exact hsucc.symm
  · exact h.not_raised_succ hrow fun e => by simp [hv]

/-- One turn of the loop keeps the description of the buffers. -/
theorem Buffered.classify {base last : ℕ} {b b' : Batch} {row : Row}
    (h : Buffered py jobId rows base last b) (hrow : rows[b.rowNumber]? = some row)
    (hc : classify py jobId row b = .ok b') :
    Buffered py jobId rows base last b' ∧ b'.rowNumber = b.rowNumber + 1 := by
  simp only [TransactionPlatform.classify] at hc
  split at hc
  · cases hc
  · next error hv =>
    cases hc
    exact ⟨h.addError hrow ⟨rfl, rfl⟩ (by rw [errorRecord, hv]) (by simp [hv]) (by simp [hv]), rfl⟩
  · next v hv =>
    split at hc
    · next hseen =>
      cases hc
      have hrec : errorRecord py jobId b.seenInFile (b.rowNumber + 1) row = some ⟨jobId,
          b.rowNumber + 1, some v.transactionId, "duplicate transaction_id within this file"⟩ := by
        rw [errorRecord, hv]
        exact if_pos hseen
      refine ⟨h.addError hrow ⟨rfl, rfl⟩ hrec (by simp [hv]) ?_, rfl⟩
      intro v' hv'
      rw [hv] at hv'
      cases hv'
      exact hseen
    · next hnew =>
      cases hc
      exact ⟨h.addValid hrow hv hnew, rfl⟩

/-- The inserts of a batch are taken exactly if what each of its rows leaves is. -/
theorem Buffered.taken_iff {base last : ℕ} {b : Batch} (h : Buffered py jobId rows base last b) :
    (∀ stmt ∈ inserts b.valid b.errors, stmt.taken = true) ↔
      ∀ i, last ≤ i → i < b.rowNumber → RowFits py jobId rows base i := by
  rw [inserts_taken_iff, h.valid_eq, h.errors_eq, fresh, reported, forall_mem_perRow,
    forall_mem_perRow]
  exact ⟨fun h i hk hn => ⟨h.1 i hk hn, h.2 i hk hn⟩,
    fun h => ⟨fun i hk hn => (h i hk hn).transaction, fun i hk hn => (h i hk hn).error⟩⟩

/-- The record of a row that is accepted but has been seen fits if its transaction does. -/
theorem storable_repeated {v : ValidRow} {n : ℕ} (h : (v.transaction jobId).fitsColumns = true) :
    (ImportError.mk jobId n (some v.transactionId)
      "duplicate transaction_id within this file").storable = true := by
  have hid : fitsColumn 128 v.transactionId = true := by
    simp only [Transaction.fitsColumns, Bool.and_eq_true] at h
    exact h.1.1.1
  have htext : fitsColumn 1024 "duplicate transaction_id within this file" = true := by
    decide +kernel
  simp only [ImportError.storable, Option.all_some, hid, htext, Bool.and_self]

/-- An attempt that started earlier has seen more ids, and leaves a record where the later one
leaves a transaction. -/
theorem RowFits.of_le {base₀ base i : ℕ} (h : RowFits py jobId rows base i) (hle : base₀ ≤ base)
    (hi : base ≤ i) : RowFits py jobId rows base₀ i := by
  have hseen : ∀ x ∈ (accepted py jobId rows base i).map Transaction.transactionId,
      x ∈ (accepted py jobId rows base₀ i).map Transaction.transactionId := by
    intro x hx
    rw [← accepted_append hle hi, List.map_append]
    exact List.mem_append_right _ hx
  constructor
  · intro t ht
    refine h.transaction t ?_
    obtain ⟨row, hrow, ht⟩ := Option.bind_eq_some_iff.mp ht
    obtain ⟨hacc, hnew⟩ := Option.filter_eq_some_iff.mp ht
    refine Option.bind_eq_some_iff.mpr ⟨row, hrow, Option.filter_eq_some_iff.mpr ⟨hacc, ?_⟩⟩
    exact decide_eq_true fun hold => of_decide_eq_true hnew (hseen _ hold)
  · intro e he
    obtain ⟨row, hrow, he⟩ := Option.bind_eq_some_iff.mp he
    unfold errorRecord at he
    split at he
    · cases he
    · next error hv =>
      refine h.error e (Option.bind_eq_some_iff.mpr ⟨row, hrow, ?_⟩)
      rw [errorRecord, hv]
      exact he
    · next v hv =>
      split at he
      · by_cases hold : v.transactionId ∈
            (accepted py jobId rows base i).map Transaction.transactionId
        · refine h.error e (Option.bind_eq_some_iff.mpr ⟨row, hrow, ?_⟩)
          rw [errorRecord, hv]
          exact (if_pos hold).trans he
        · -- the later attempt inserts the row, so its id fits the column
          have hfresh : freshRow py jobId rows base i = some (v.transaction jobId) := by
            rw [freshRow, hrow, Option.bind_some, acceptedRow_eq_some hv, Option.filter_some]
            exact if_pos (decide_eq_true hold)
          obtain ⟨-, hfits⟩ := h.transaction _ hfresh
          cases he
          exact storable_repeated hfits
      · cases he

/-- A row that is taken in every case fits wherever an attempt starts. -/
theorem rowFits_of_stores {base i : ℕ}
    (h : ∀ row, rows[i]? = some row → stores py jobId row = true) :
    RowFits py jobId rows base i := by
  constructor
  · intro t ht
    obtain ⟨row, hrow, ht⟩ := Option.bind_eq_some_iff.mp ht
    obtain ⟨hacc, -⟩ := Option.filter_eq_some_iff.mp ht
    have hrow := h row hrow
    unfold acceptedRow at hacc
    unfold stores at hrow
    split at hacc
    · next v hv =>
      rw [hv] at hrow
      cases hacc
      exact Bool.and_eq_true_iff.mp hrow
    · cases hacc
  · intro e he
    obtain ⟨row, hrow, he⟩ := Option.bind_eq_some_iff.mp he
    have hrow := h row hrow
    have hnumber : py.validateRow row (i + 1) = py.validateRow row 0 := rfl
    unfold errorRecord at he
    rw [hnumber] at he
    unfold stores at hrow
    split at he
    · cases he
    · next error hv =>
      rw [hv] at hrow
      cases he
      exact hrow
    · next v hv =>
      rw [hv] at hrow
      split at he
      · cases he
        exact storable_repeated (Bool.and_eq_true_iff.mp hrow).2
      · cases he

/-- The loop only raises when `validate_row` does. -/
theorem classify_error {b : Batch} {row : Row} {e : Exn} (hc : classify py jobId row b = .error e) :
    ∃ name, py.validateRow row (b.rowNumber + 1) = .raised name := by
  simp only [classify] at hc
  split at hc
  · next name hv => exact ⟨name, hv⟩
  · cases hc
  · split at hc <;> cases hc

end TransactionPlatform
