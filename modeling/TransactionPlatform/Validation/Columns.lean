import TransactionPlatform.Amount
import TransactionPlatform.Validation.Outcome
import TransactionPlatform.Worker.Buffer

/-!
# Rows against the columns they are written to

A batch is one `INSERT` for its transactions and one for its error records, so a row that does not
fit its columns fails the whole batch.  The validator and the schema describe a legal row twice:
`accepted_row_storable_iff` and `rejected_row_recordable_iff` say for which rows the two agree.
-/

namespace TransactionPlatform

/-! ### Accepted rows -/

/-- The constraints of the columns of `transactions`. -/
structure Transaction.Storable (t : Transaction) : Prop where
  transactionId : t.transactionId ≠ "" ∧ fitsColumn 128 t.transactionId = true
  accountId : t.accountId ≠ "" ∧ fitsColumn 128 t.accountId = true
  currency : t.currency.length = 3
  timestamp : t.timestamp.utcoffset.isSome = true ∧ t.timestamp.representableInUtc = true
  positive : ∃ q, t.amount.value = some q ∧ 0 < q
  amount : t.amount.FitsNumeric

/-- The fields of the row are within the limits of the columns that the validator does not check. -/
structure WithinColumns (py : Python) (row : Row) : Prop where
  transactionId : fitsColumn 128 (py.field row "transaction_id") = true
  accountId : fitsColumn 128 (py.field row "account_id") = true
  amount : ∀ d q, py.decimal (py.field row "amount") = some d → d.value = some q → q < 10 ^ 16
  timestamp : ∀ dt, py.parseTimestamp (py.field row "timestamp") = some dt →
    dt.representableInUtc = true

variable {py : Python} {row : Row}

/-- A parsed timestamp has an offset. -/
theorem utcoffset_of_parseTimestamp {s : String} {dt : Datetime}
    (h : py.parseTimestamp s = some dt) : dt.utcoffset.isSome = true := by
  unfold Python.parseTimestamp at h
  split at h
  · cases h
  · obtain ⟨dt', -, rfl⟩ := Option.map_eq_some_iff.mp h
    cases hoff : dt'.utcoffset with
    | none => rfl
    | some offset =>
      dsimp only
      rw [hoff]
      rfl

/-- A number with at most two decimal places, in hundredths. -/
theorem fitsNumeric_iff_hundredths {coefficient : ℕ} {exponent : ℤ} (hexp : -2 ≤ exponent) :
    (Decimal.finite false coefficient exponent).FitsNumeric ↔
      coefficient * 10 ^ (exponent + 2).toNat < 10 ^ 18 := by
  have hvalue := Decimal.value_eq_hundredths coefficient hexp
  constructor
  · rintro ⟨k, hk, hlt⟩
    rw [hvalue] at hk
    have heq : ((coefficient * 10 ^ (exponent + 2).toNat : ℕ) : ℤ) = k := by
      have hdiv := Option.some.inj hk
      field_simp at hdiv
      exact_mod_cast hdiv
    have hlt' := lt_of_abs_lt hlt
    rw [← heq] at hlt'
    exact_mod_cast hlt'
  · intro hlt
    refine ⟨_, hvalue, ?_⟩
    rw [abs_of_nonneg (Int.natCast_nonneg _)]
    exact_mod_cast hlt

/-- A positive number with at most two decimal places fits the column of the amounts exactly if it
is below `10 ^ 16`. -/
theorem fitsNumeric_iff {coefficient : ℕ} {exponent : ℤ} (hexp : -2 ≤ exponent) :
    (Decimal.finite false coefficient exponent).FitsNumeric ↔
      ∀ q, (Decimal.finite false coefficient exponent).value = some q → q < 10 ^ 16 := by
  have hbound : ∀ k : ℕ, ((k : ℤ) : ℚ) / 100 < 10 ^ 16 ↔ k < 10 ^ 18 := by
    intro k
    rw [div_lt_iff₀ (by norm_num)]
    norm_num
  rw [fitsNumeric_iff_hundredths hexp, Decimal.value_eq_hundredths coefficient hexp]
  exact ⟨fun hlt q hq => Option.some.inj hq ▸ (hbound _).mpr hlt, fun hlt => (hbound _).mp (hlt _ rfl)⟩

/-- The column refuses the same numbers. -/
theorem fitsColumn_iff_fitsNumeric {coefficient : ℕ} {exponent : ℤ} (hexp : -2 ≤ exponent) :
    (Decimal.finite false coefficient exponent).fitsColumn = true ↔
      (Decimal.finite false coefficient exponent).FitsNumeric := by
  rw [fitsNumeric_iff_hundredths hexp]
  unfold Decimal.fitsColumn Numeric.column
  dsimp only
  rw [if_pos hexp, decide_eq_true_iff]
  rfl

theorem positive_value {coefficient : ℕ} (exponent : ℤ) (h : coefficient ≠ 0) :
    ∃ q, (Decimal.finite false coefficient exponent).value = some q ∧ 0 < q := by
  refine ⟨_, rfl, ?_⟩
  have hpos : (0 : ℚ) < coefficient := by exact_mod_cast Nat.pos_of_ne_zero h
  exact mul_pos hpos (zpow_pos (by norm_num) exponent)

/-- The transaction of an accepted row satisfies the constraints of its table exactly if the row is
within the limits of the columns: the lengths and the characters of the ids, the size of the amount,
and the range of the timestamp in UTC. -/
theorem accepted_row_storable_iff (py : Python) (row : Row) (n : ℕ) (v : ValidRow) (jobId : Uuid)
    (h : py.validateRow row n = .accepted v) :
    (v.transaction jobId).Storable ↔ WithinColumns py row := by
  have hout := validateRow_outcome py row n
  rw [h] at hout
  cases hout with
  | @accepted type coefficient exponent timestamp hrow hshape hcur hts =>
    have hoffset := utcoffset_of_parseTimestamp hts
    have hnumeric : (Decimal.finite false coefficient exponent).FitsNumeric ↔ ∀ q,
        (Decimal.finite false coefficient exponent).value = some q → q < 10 ^ 16 :=
      fitsNumeric_iff hrow.precise
    constructor
    · intro hst
      refine ⟨hst.transactionId.2, hst.accountId.2, ?_, ?_⟩
      · intro d q hd hq
        rw [hrow.amount] at hd
        cases hd
        exact hnumeric.mp hst.amount q hq
      · intro dt hdt
        rw [hts] at hdt
        cases hdt
        exact hst.timestamp.2
    · intro hwithin
      exact ⟨⟨hrow.transactionId, hwithin.transactionId⟩, ⟨hrow.accountId, hwithin.accountId⟩,
        hshape.1, ⟨hoffset, hwithin.timestamp _ hts⟩, positive_value exponent hrow.positive,
        hnumeric.mpr fun q hq => hwithin.amount _ q hrow.amount hq⟩

/-- Three letters fit any place that has room for them: NUL is not a letter. -/
theorem fitsColumn_of_currencyShape {n : ℕ} (hn : 3 ≤ n) (h : py.currencyShape row) :
    fitsColumn n (py.currency row) = true := by
  have hnul : (py.currency row).toList.contains (Char.ofNat 0) = false := by
    rw [List.contains_eq_mem, decide_eq_false_iff_not]
    intro hmem
    have halpha : py.isalpha (Char.ofNat 0) = true := List.all_eq_true.mp h.2 _ hmem
    rw [py.isalpha_ascii _ (by decide)] at halpha
    exact absurd halpha (by decide)
  unfold fitsColumn
  rw [hnul, decide_eq_true (h.1.trans_le hn)]
  rfl

/-- The import can write an accepted row exactly if the row is within the limits. -/
theorem stores_of_accepted {n : ℕ} {v : ValidRow} (h : py.validateRow row n = .accepted v)
    (jobId : Uuid) : stores py jobId row = true ↔ WithinColumns py row := by
  have h0 : py.validateRow row 0 = .accepted v := h
  have hout := validateRow_outcome py row n
  rw [h] at hout
  unfold stores
  rw [h0]
  simp only [Transaction.fitsColumns, Bool.and_eq_true]
  cases hout with
  | @accepted type coefficient exponent timestamp hrow hshape hcur hts =>
    have hcurrency : fitsColumn 3 (py.currency row) = true :=
      fitsColumn_of_currencyShape (Nat.le_refl 3) hshape
    have hamount : (Decimal.finite false coefficient exponent).fitsColumn = true ↔
        ∀ q, (Decimal.finite false coefficient exponent).value = some q → q < 10 ^ 16 :=
      (fitsColumn_iff_fitsNumeric hrow.precise).trans (fitsNumeric_iff hrow.precise)
    constructor
    · rintro ⟨htime, ⟨⟨hid, hacc⟩, -⟩, hnumeric⟩
      refine ⟨hid, hacc, fun d q hd hq => ?_, fun dt hdt => ?_⟩
      · rw [hrow.amount] at hd
        cases hd
        exact hamount.mp hnumeric q hq
      · rw [hts] at hdt
        cases hdt
        exact htime
    · intro hwithin
      exact ⟨hwithin.timestamp _ hts, ⟨⟨hwithin.transactionId, hwithin.accountId⟩, hcurrency⟩,
        hamount.mpr fun q hq => hwithin.amount _ q hrow.amount hq⟩

/-- A row whose `transaction_id` has `n` characters. -/
def sampleLongId (n : ℕ) : Row :=
  ("transaction_id", String.ofList (List.replicate n 'T')) :: (sampleAmount "10.50").tail

theorem sample_row_storable :
    ∃ v, Python.ascii.validateRow (sampleAmount "10.50") 1 = .accepted v ∧
      (v.transaction sampleId).Storable := by
  obtain ⟨v, hv⟩ : ∃ v, Python.ascii.validateRow (sampleAmount "10.50") 1 = .accepted v :=
    ⟨⟨"T1", "A1", .CREDIT, .finite false 1050 (-2), "USD", ⟨2026, 9, 1, 10, 0, 0, 0, some 0⟩⟩,
      by decide +kernel⟩
  refine ⟨v, hv, (accepted_row_storable_iff .ascii (sampleAmount "10.50") 1 v sampleId hv).mpr ?_⟩
  have hamount : Python.ascii.decimal (Python.ascii.field (sampleAmount "10.50") "amount") =
      some (.finite false 1050 (-2)) := by decide +kernel
  have htime : Python.ascii.parseTimestamp
      (Python.ascii.field (sampleAmount "10.50") "timestamp") =
      some ⟨2026, 9, 1, 10, 0, 0, 0, some 0⟩ := by decide +kernel
  refine ⟨by decide +kernel, by decide +kernel, fun d q hd hq => ?_, fun dt hdt => ?_⟩
  · rw [hamount] at hd
    cases hd
    cases hq
    norm_num
  · rw [htime] at hdt
    cases hdt
    decide +kernel

/-- A `transaction_id` of 129 characters and an amount of `10 ^ 16` are accepted and cannot be
stored. -/
theorem accepted_row_too_large :
    (∃ v, Python.ascii.validateRow (sampleLongId 129) 1 = .accepted v ∧
      ¬ (v.transaction sampleId).Storable) ∧
    ∃ v, Python.ascii.validateRow (sampleAmount "10000000000000000") 1 = .accepted v ∧
      ¬ (v.transaction sampleId).Storable := by
  constructor
  · refine ⟨⟨String.ofList (List.replicate 129 'T'), "A1", .CREDIT, .finite false 1050 (-2), "USD",
      ⟨2026, 9, 1, 10, 0, 0, 0, some 0⟩⟩, by decide +kernel, fun h => ?_⟩
    have hlong : fitsColumn 128 (String.ofList (List.replicate 129 'T')) = false := by
      decide +kernel
    have hfits := h.transactionId.2
    exact absurd (hlong.symm.trans hfits) nofun
  · refine ⟨⟨"T1", "A1", .CREDIT, .finite false (10 ^ 16) 0, "USD",
      ⟨2026, 9, 1, 10, 0, 0, 0, some 0⟩⟩, by decide +kernel, fun h => ?_⟩
    have hlt := (fitsNumeric_iff (by decide)).mp h.amount _ rfl
    norm_num at hlt

/-! ### Rejected rows -/

/-- The value of the row that the error text quotes, if it quotes one, with the room that the text
leaves for it in the column: the raw type, the stripped amount, the raw currency or the stripped
timestamp, whichever check is the first to fail. -/
def Python.quoted (py : Python) (row : Row) : Option (ℕ × String) :=
  if py.field row "transaction_id" = "" ∨ py.field row "account_id" = "" then none
  else match Python.allowedType (py.upperText (py.field row "type")) with
    | none => some (977, Python.shown row "type")
    | some _ => match py.decimal (py.field row "amount") with
      | none => some (986, py.field row "amount")
      | some (.finite false coefficient exponent) =>
        if coefficient = 0 ∨ exponent < -2 then none
        else if (py.currency row).length ≠ 3 ∨ ¬ (py.currency row).toList.all py.isalpha = true then
          some (984, Python.shown row "currency")
        else if py.currency row ∉ commonCurrencies then none
        else match py.parseTimestamp (py.field row "timestamp") with
          | none => some (973, py.field row "timestamp")
          | some _ => none
      | some _ => none

/-- The id and the quoted value of the row are within the limits of `import_errors`. -/
def Python.recordable (py : Python) (row : Row) : Bool :=
  fitsColumn 128 (py.field row "transaction_id") &&
    (py.quoted row).all fun q => fitsColumn q.1 q.2

/-- A text without NUL around a value leaves the rest of the column to the value. -/
theorem fitsColumn_around {n m : ℕ} {before value after : String}
    (hlen : before.length + m + after.length = n)
    (hbefore : before.toList.contains (Char.ofNat 0) = false)
    (hafter : after.toList.contains (Char.ofNat 0) = false) :
    fitsColumn n (before ++ value ++ after) = fitsColumn m value := by
  have hlength : (before ++ value ++ after).length ≤ n ↔ value.length ≤ m := by
    rw [String.length_append, String.length_append]
    omega
  have hnul : (before ++ value ++ after).toList.contains (Char.ofNat 0) =
      value.toList.contains (Char.ofNat 0) := by
    rw [String.toList_append, String.toList_append, List.contains_append, List.contains_append,
      hbefore, hafter, Bool.false_or, Bool.or_false]
  unfold fitsColumn
  rw [hnul, decide_eq_decide.mpr hlength]

/-- What the error text of a row with a good amount can quote. -/
theorem quoted_of_priced {type : TransactionType} {coefficient : ℕ} {exponent : ℤ}
    (h : Priced py row type coefficient exponent) :
    py.quoted row =
      if (py.currency row).length ≠ 3 ∨ ¬ (py.currency row).toList.all py.isalpha = true then
        some (984, Python.shown row "currency")
      else if py.currency row ∉ commonCurrencies then none
      else match py.parseTimestamp (py.field row "timestamp") with
        | none => some (973, py.field row "timestamp")
        | some _ => none := by
  have hids : ¬ (py.field row "transaction_id" = "" ∨ py.field row "account_id" = "") :=
    not_or.mpr ⟨h.transactionId, h.accountId⟩
  have hamount : ¬ (coefficient = 0 ∨ exponent < -2) :=
    not_or.mpr ⟨h.positive, not_lt.mpr h.precise⟩
  unfold Python.quoted
  rw [if_neg hids, h.type, h.amount]
  exact if_neg hamount

theorem currencyShape_iff_not : py.currencyShape row ↔
    ¬ ((py.currency row).length ≠ 3 ∨ ¬ (py.currency row).toList.all py.isalpha = true) := by
  rw [not_or, not_not, not_not]
  rfl

/-- The text of a rejection fits its column exactly if the value it quotes has the room it needs. -/
theorem fitsColumn_of_rejected {error : String} (h : Outcome py row (.rejected error)) :
    fitsColumn 1024 error = (py.quoted row).all fun q => fitsColumn q.1 q.2 := by
  cases h with
  | noTransactionId h =>
    have hquoted : py.quoted row = none := by
      unfold Python.quoted
      exact if_pos (.inl h)
    rw [hquoted]
    decide +kernel
  | noAccountId _ h =>
    have hquoted : py.quoted row = none := by
      unfold Python.quoted
      exact if_pos (.inr h)
    rw [hquoted]
    decide +kernel
  | badType hid hacc h =>
    have hquoted : py.quoted row = some (977, Python.shown row "type") := by
      unfold Python.quoted
      rw [if_neg (not_or.mpr ⟨hid, hacc⟩), h]
    rw [hquoted, Option.all_some]
    exact fitsColumn_around (m := 977) (by decide +kernel) (by decide +kernel) (by decide +kernel)
  | notDecimal hrow h =>
    have hquoted : py.quoted row = some (986, py.field row "amount") := by
      unfold Python.quoted
      rw [if_neg (not_or.mpr ⟨hrow.transactionId, hrow.accountId⟩), hrow.type, h]
    rw [hquoted, Option.all_some]
    exact fitsColumn_around (m := 986) (by decide +kernel) (by decide +kernel) (by decide +kernel)
  | @nonpositive _ amount hrow h hneg =>
    have hquoted : py.quoted row = none := by
      unfold Python.quoted
      rw [if_neg (not_or.mpr ⟨hrow.transactionId, hrow.accountId⟩), hrow.type, h]
      cases amount with
      | finite negative coefficient exponent =>
        cases negative with
        | true => rfl
        | false =>
          have hzero : coefficient = 0 := of_decide_eq_true (Except.ok.inj hneg)
          exact if_pos (.inl hzero)
      | infinity negative => rfl
      | nan signaling => rfl
    rw [hquoted]
    decide +kernel
  | tooPrecise hrow h hexp =>
    have hquoted : py.quoted row = none := by
      unfold Python.quoted
      rw [if_neg (not_or.mpr ⟨hrow.transactionId, hrow.accountId⟩), hrow.type, h]
      exact if_pos (.inr hexp)
    rw [hquoted]
    decide +kernel
  | badCurrency hrow h =>
    rw [quoted_of_priced hrow, if_pos (not_not.mp (currencyShape_iff_not.not.mp h)),
      Option.all_some]
    exact fitsColumn_around (m := 984) (by decide +kernel) (by decide +kernel) (by decide +kernel)
  | unknownCurrency hrow hshape h =>
    rw [quoted_of_priced hrow, if_neg (currencyShape_iff_not.mp hshape), if_pos h,
      fitsColumn_around (m := 975) (by decide +kernel) (by decide +kernel) (by decide +kernel)]
    exact fitsColumn_of_currencyShape (by decide) hshape
  | badTimestamp hrow hshape hcur h =>
    have hquoted : py.quoted row = some (973, py.field row "timestamp") := by
      rw [quoted_of_priced hrow, if_neg (currencyShape_iff_not.mp hshape),
        if_neg (not_not.mpr hcur), h]
    rw [hquoted, Option.all_some]
    exact fitsColumn_around (m := 973) (by decide +kernel) (by decide +kernel) (by decide +kernel)

/-- No text quotes a value of an accepted row. -/
theorem quoted_of_accepted {v : ValidRow} (h : Outcome py row (.accepted v)) :
    py.quoted row = none := by
  cases h with
  | accepted hrow hshape hcur h =>
    rw [quoted_of_priced hrow, if_neg (currencyShape_iff_not.mp hshape), if_neg (not_not.mpr hcur),
      h]

/-- An accepted row keeps its stripped id. -/
theorem transactionId_of_accepted {v : ValidRow} (h : Outcome py row (.accepted v)) :
    v.transactionId = py.field row "transaction_id" := by
  cases h
  rfl

/-- The id of a rejected row fits its column if the stripped field does. -/
theorem rejectedId_fits (py : Python) (row : Row) :
    (rejectedId py row).all (fitsColumn 128) = fitsColumn 128 (py.field row "transaction_id") := by
  unfold rejectedId
  dsimp only
  split
  · next h =>
    rw [h, Option.all_none]
    decide +kernel
  · exact Option.all_some

/-- The import can write the record of a row that `validate_row` rejects exactly if the id and the
quoted value of the row are within the limits. -/
theorem stores_of_rejected {n : ℕ} {error : String} (h : py.validateRow row n = .rejected error)
    (jobId : Uuid) : stores py jobId row = py.recordable row := by
  have h0 : py.validateRow row 0 = .rejected error := h
  have hout := validateRow_outcome py row n
  rw [h] at hout
  unfold stores
  rw [h0]
  show ((rejectedId py row).all (fitsColumn 128) && fitsColumn 1024 error) = _
  rw [Python.recordable, rejectedId_fits, fitsColumn_of_rejected hout]

/-- The record of a row that the loop rejects, for its fields or as a duplicate within the file,
fits `import_errors` exactly if the id and the quoted value of the row are within the limits. -/
theorem rejected_row_recordable_iff (py : Python) (jobId : Uuid) (row : Row) (b b' : Batch)
    (record : ImportError) (h : classify py jobId row b = .ok b')
    (hrecord : b'.errors = b.errors ++ [record]) :
    record.storable = true ↔ py.recordable row = true := by
  have hout := validateRow_outcome py row (b.rowNumber + 1)
  unfold classify at h
  dsimp only at h
  split at h
  · cases h
  · next error hv =>
    rw [hv] at hout
    cases h
    have heq := List.singleton_inj.mp (List.append_cancel_left hrecord)
    rw [← heq, ImportError.storable, Python.recordable, rejectedId_fits,
      fitsColumn_of_rejected hout]
  · next v hv =>
    rw [hv] at hout
    split at h
    · cases h
      have heq := List.singleton_inj.mp (List.append_cancel_left hrecord)
      have htext : fitsColumn 1024 "duplicate transaction_id within this file" = true := by
        decide +kernel
      rw [← heq, ImportError.storable, Python.recordable, quoted_of_accepted hout, htext,
        ← transactionId_of_accepted hout]
      rfl
    · cases h
      have hlen := congrArg List.length hrecord
      rw [List.length_append, List.length_singleton] at hlen
      exact absurd hlen (Nat.ne_of_lt (Nat.lt_succ_self _))

theorem sample_rejection_recordable :
    ∃ b record, classify .ascii sampleId (sampleAmount "abc") .empty = .ok b ∧
      b.errors = Batch.empty.errors ++ [record] ∧ record.storable = true := by
  have hrun : classify .ascii sampleId (sampleAmount "abc") .empty =
      .ok ⟨1, [], [⟨sampleId, 1, some "T1", "amount must be a valid decimal, got 'abc'"⟩], []⟩ := by
    decide +kernel
  exact ⟨_, _, hrun, rfl,
    (rejected_row_recordable_iff .ascii sampleId (sampleAmount "abc") .empty _ _ hrun rfl).mpr
      (by decide +kernel)⟩

/-- A row with an id of 129 characters and no account is rejected, and its record does not fit; nor
does the record of a row whose amount contains NUL. -/
theorem rejected_row_not_recordable :
    (∃ b record, classify .ascii sampleId ((sampleLongId 129).take 1) .empty = .ok b ∧
      b.errors = Batch.empty.errors ++ [record] ∧ record.storable = false) ∧
    ∃ b record, classify .ascii sampleId (sampleAmount "1\x00") .empty = .ok b ∧
      b.errors = Batch.empty.errors ++ [record] ∧ record.storable = false := by
  constructor
  · refine ⟨⟨1, [], [⟨sampleId, 1, some (String.ofList (List.replicate 129 'T')),
      "account_id is required and must be non-empty"⟩], []⟩, _, by decide +kernel, rfl, ?_⟩
    decide +kernel
  · refine ⟨⟨1, [], [⟨sampleId, 1, some "T1", "amount must be a valid decimal, got '1\x00'"⟩], []⟩,
      _, by decide +kernel, rfl, ?_⟩
    decide +kernel

end TransactionPlatform
