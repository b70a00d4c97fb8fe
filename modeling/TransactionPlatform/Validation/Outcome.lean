import TransactionPlatform.Validation

/-!
# The outcomes of `validate_row`

`Outcome` lists the ways through `validate_row`, each with the checks that lead to it, in the order
of the source.  What is proved about the validator is a case analysis on this list.  The amount is
parsed inside a `try`, but compared and inspected outside of it: `validateRow_returns_iff` says for
which rows one of these steps raises.
-/

namespace TransactionPlatform

/-- The row has passed the checks in front of the amount. -/
structure Identified (py : Python) (row : Row) (type : TransactionType) : Prop where
  transactionId : py.field row "transaction_id" ≠ ""
  accountId : py.field row "account_id" ≠ ""
  type : Python.allowedType (py.upperText (py.field row "type")) = some type

/-- The row has passed the checks in front of the currency: its amount is a positive number with at
most two decimal places. -/
structure Priced (py : Python) (row : Row) (type : TransactionType) (coefficient : ℕ)
    (exponent : ℤ) : Prop extends Identified py row type where
  amount : py.decimal (py.field row "amount") = some (.finite false coefficient exponent)
  positive : coefficient ≠ 0
  precise : -2 ≤ exponent

/-- The stripped and upper-cased currency. -/
def Python.currency (py : Python) (row : Row) : String := py.upperText (py.field row "currency")

/-- Three letters. -/
def Python.currencyShape (py : Python) (row : Row) : Prop :=
  (py.currency row).length = 3 ∧ (py.currency row).toList.all py.isalpha = true

/-- The ways through `validate_row`. -/
inductive Outcome (py : Python) (row : Row) : Verdict → Prop where
  | noTransactionId (h : py.field row "transaction_id" = "") :
      Outcome py row (.rejected "transaction_id is required and must be non-empty")
  | noAccountId (hid : py.field row "transaction_id" ≠ "") (h : py.field row "account_id" = "") :
      Outcome py row (.rejected "account_id is required and must be non-empty")
  | badType (hid : py.field row "transaction_id" ≠ "") (hacc : py.field row "account_id" ≠ "")
      (h : Python.allowedType (py.upperText (py.field row "type")) = none) :
      Outcome py row (.rejected
        ("type must be one of ['CREDIT', 'DEBIT'], got '" ++ Python.shown row "type" ++ "'"))
  | notDecimal {type : TransactionType} (hrow : Identified py row type)
      (h : py.decimal (py.field row "amount") = none) :
      Outcome py row (.rejected
        ("amount must be a valid decimal, got '" ++ py.field row "amount" ++ "'"))
  | notANumber {type : TransactionType} {signaling : Bool} (hrow : Identified py row type)
      (h : py.decimal (py.field row "amount") = some (.nan signaling)) :
      Outcome py row (.raised "InvalidOperation")
  | infinite {type : TransactionType} (hrow : Identified py row type)
      (h : py.decimal (py.field row "amount") = some (.infinity false)) :
      Outcome py row (.raised "TypeError")
  | nonpositive {type : TransactionType} {amount : Decimal} (hrow : Identified py row type)
      (h : py.decimal (py.field row "amount") = some amount) (hneg : amount.nonpositive = .ok true) :
      Outcome py row (.rejected "amount must be greater than zero")
  | tooPrecise {type : TransactionType} {coefficient : ℕ} {exponent : ℤ}
      (hrow : Identified py row type)
      (h : py.decimal (py.field row "amount") = some (.finite false coefficient exponent))
      (hexp : exponent < -2) :
      Outcome py row (.rejected "amount must not have more than 2 decimal places")
  | badCurrency {type : TransactionType} {coefficient : ℕ} {exponent : ℤ}
      (hrow : Priced py row type coefficient exponent) (h : ¬ py.currencyShape row) :
      Outcome py row (.rejected
        ("currency must be a 3-letter code, got '" ++ Python.shown row "currency" ++ "'"))
  | unknownCurrency {type : TransactionType} {coefficient : ℕ} {exponent : ℤ}
      (hrow : Priced py row type coefficient exponent) (hshape : py.currencyShape row)
      (h : py.currency row ∉ commonCurrencies) :
      Outcome py row (.rejected
        ("currency '" ++ py.currency row ++ "' is not in the supported currency list"))
  | badTimestamp {type : TransactionType} {coefficient : ℕ} {exponent : ℤ}
      (hrow : Priced py row type coefficient exponent) (hshape : py.currencyShape row)
      (hcur : py.currency row ∈ commonCurrencies)
      (h : py.parseTimestamp (py.field row "timestamp") = none) :
      Outcome py row (.rejected
        ("timestamp must be a valid ISO-8601 datetime, got '" ++ py.field row "timestamp" ++ "'"))
  | accepted {type : TransactionType} {coefficient : ℕ} {exponent : ℤ} {timestamp : Datetime}
      (hrow : Priced py row type coefficient exponent) (hshape : py.currencyShape row)
      (hcur : py.currency row ∈ commonCurrencies)
      (h : py.parseTimestamp (py.field row "timestamp") = some timestamp) :
      Outcome py row (.accepted ⟨py.field row "transaction_id", py.field row "account_id", type,
        .finite false coefficient exponent, py.currency row, timestamp⟩)

variable {py : Python} {row : Row} {type : TransactionType} {coefficient : ℕ} {exponent : ℤ}

/-- The checks behind the amount. -/
theorem outcome_checkCurrency (h : Priced py row type coefficient exponent) :
    Outcome py row (py.checkCurrency row (py.field row "transaction_id")
      (py.field row "account_id") type (.finite false coefficient exponent)) := by
  unfold Python.checkCurrency
  dsimp only
  split
  · next hshape =>
    refine .badCurrency h fun hok => ?_
    rcases hshape with hlen | halpha
    · exact hlen hok.1
    · exact halpha hok.2
  · next hshape =>
    obtain ⟨hlen, halpha⟩ := not_or.mp hshape
    have hok : py.currencyShape row := ⟨not_not.mp hlen, not_not.mp halpha⟩
    split
    · next hcur => exact .unknownCurrency h hok hcur
    · next hcur =>
      unfold Python.checkTimestamp
      dsimp only
      cases hts : py.parseTimestamp (py.field row "timestamp") with
      | none => exact .badTimestamp h hok (not_not.mp hcur) hts
      | some timestamp => exact .accepted h hok (not_not.mp hcur) hts

/-- The checks behind the type. -/
theorem outcome_checkAmount (h : Identified py row type) :
    Outcome py row (py.checkAmount row (py.field row "transaction_id")
      (py.field row "account_id") type) := by
  unfold Python.checkAmount Python.amountChecks
  dsimp only
  cases hamount : py.decimal (py.field row "amount") with
  | none => exact .notDecimal h hamount
  | some amount =>
    cases amount with
    | nan signaling => exact .notANumber h hamount
    | infinity negative =>
      cases negative with
      | true => exact .nonpositive h hamount rfl
      | false => exact .infinite h hamount
    | finite negative coefficient exponent =>
      simp only [Decimal.nonpositive, Decimal.tooPrecise]
      by_cases hneg : (negative || decide (coefficient = 0)) = true
      · rw [hneg]
        exact .nonpositive h hamount (congrArg Except.ok hneg)
      · obtain ⟨hsign, hzero⟩ := Bool.or_eq_false_iff.mp (Bool.eq_false_iff.mpr hneg)
        subst hsign
        rw [hzero, Bool.or_self]
        by_cases hexp : exponent < -2
        · rw [decide_eq_true hexp]
          exact .tooPrecise h hamount hexp
        · rw [decide_eq_false hexp]
          exact outcome_checkCurrency
            ⟨h, hamount, of_decide_eq_false hzero, Int.not_lt.mp hexp⟩

/-- `validate_row` goes one of the listed ways. -/
theorem validateRow_outcome (py : Python) (row : Row) (n : ℕ) :
    Outcome py row (py.validateRow row n) := by
  unfold Python.validateRow
  dsimp only
  split
  · next hid => exact .noTransactionId hid
  · next hid =>
    split
    · next hacc => exact .noAccountId hid hacc
    · next hacc =>
      cases htype : Python.allowedType (py.upperText (py.field row "type")) with
      | none => exact .badType hid hacc htype
      | some type => exact outcome_checkAmount ⟨hid, hacc, htype⟩

/-! ### The rows on which the validator raises -/

/-- The values that the comparisons behind the `try` do not take: the NaNs and positive infinity. -/
def Decimal.special : Decimal → Bool
  | finite _ _ _ => false
  | infinity negative => !negative
  | nan _ => true

/-- The amount of the row is one of these values. -/
def Python.specialAmount (py : Python) (row : Row) : Bool :=
  (py.decimal (py.field row "amount")).any Decimal.special

theorem Python.specialAmount_of_some {amount : Decimal}
    (h : py.decimal (py.field row "amount") = some amount) :
    py.specialAmount row = amount.special := by
  rw [specialAmount, h, Option.any_some]

/-- A row on which the validator raises has passed the checks in front of the amount, and its amount
is special. -/
theorem Outcome.of_raised {e : String} (h : Outcome py row (.raised e)) :
    py.specialAmount row = true ∧ ∃ type, Identified py row type := by
  cases h with
  | notANumber hrow hamount => exact ⟨Python.specialAmount_of_some hamount, _, hrow⟩
  | infinite hrow hamount => exact ⟨Python.specialAmount_of_some hamount, _, hrow⟩

/-- A row on which the validator returns has failed an earlier check, or its amount is not
special. -/
theorem Outcome.of_returned {verdict : Verdict} (h : Outcome py row verdict)
    (hret : ∀ e, verdict ≠ .raised e) :
    py.field row "transaction_id" = "" ∨ py.field row "account_id" = "" ∨
      Python.allowedType (py.upperText (py.field row "type")) = none ∨
      py.specialAmount row = false := by
  have hpriced : ∀ {type coefficient exponent}, Priced py row type coefficient exponent →
      py.specialAmount row = false := fun hrow => Python.specialAmount_of_some hrow.amount
  cases h with
  | noTransactionId h => exact .inl h
  | noAccountId _ h => exact .inr (.inl h)
  | badType _ _ h => exact .inr (.inr (.inl h))
  | notDecimal _ h =>
    refine .inr (.inr (.inr ?_))
    rw [Python.specialAmount, h, Option.any_none]
  | notANumber _ _ => exact absurd rfl (hret _)
  | infinite _ _ => exact absurd rfl (hret _)
  | @nonpositive _ amount _ h hneg =>
    refine .inr (.inr (.inr ?_))
    rw [Python.specialAmount_of_some h]
    cases amount with
    | finite negative coefficient exponent => rfl
    | infinity negative =>
      have hsign : negative = true := Except.ok.inj hneg
      rw [Decimal.special, hsign, Bool.not_true]
    | nan signaling => cases hneg
  | tooPrecise _ h _ => exact .inr (.inr (.inr (Python.specialAmount_of_some h)))
  | badCurrency hrow _ => exact .inr (.inr (.inr (hpriced hrow)))
  | unknownCurrency hrow _ _ => exact .inr (.inr (.inr (hpriced hrow)))
  | badTimestamp hrow _ _ _ => exact .inr (.inr (.inr (hpriced hrow)))
  | accepted hrow _ _ _ => exact .inr (.inr (.inr (hpriced hrow)))

/-- `validate_row` returns, with a transaction or with an error, exactly for the rows that fail the
check of an id or of the type, and for those whose amount is neither a NaN nor positive infinity. -/
theorem validateRow_returns_iff (py : Python) (row : Row) (n : ℕ) :
    ((∃ v, py.validateRow row n = .accepted v) ∨ ∃ error, py.validateRow row n = .rejected error) ↔
      (py.field row "transaction_id" = "" ∨ py.field row "account_id" = "" ∨
        Python.allowedType (py.upperText (py.field row "type")) = none ∨
        py.specialAmount row = false) := by
  have hout := validateRow_outcome py row n
  constructor
  · rintro (⟨v, hv⟩ | ⟨error, hv⟩)
    · exact hout.of_returned fun e he => by rw [hv] at he; cases he
    · exact hout.of_returned fun e he => by rw [hv] at he; cases he
  · intro hcond
    cases hv : py.validateRow row n with
    | accepted v => exact .inl ⟨v, rfl⟩
    | rejected error => exact .inr ⟨error, rfl⟩
    | raised e =>
      rw [hv] at hout
      obtain ⟨hspecial, type, hrow⟩ := hout.of_raised
      rcases hcond with h | h | h | h
      · exact absurd h hrow.transactionId
      · exact absurd h hrow.accountId
      · rw [hrow.type] at h
        cases h
      · rw [hspecial] at h
        cases h

/-- A row whose fields are right except perhaps for the amount. -/
def sampleAmount (amount : String) : Row :=
  [("transaction_id", "T1"), ("account_id", "A1"), ("type", "CREDIT"), ("amount", amount),
    ("currency", "USD"), ("timestamp", "2026-09-01T10:00:00Z")]

/-- An amount that is not a number, or infinite, aborts the validation. -/
theorem special_amount_raises :
    Python.ascii.validateRow (sampleAmount "NaN") 1 = .raised "InvalidOperation" ∧
    Python.ascii.validateRow (sampleAmount "Infinity") 1 = .raised "TypeError" := by
  constructor
  · decide +kernel
  · decide +kernel

end TransactionPlatform
