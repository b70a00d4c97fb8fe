import Mathlib.Algebra.Group.Nat.Defs
import TransactionPlatform.Models

/-!
# What the columns take

The driver converts the values of a statement before it sends them, and Postgres checks them against
the columns: `String(n)`, `Numeric(18, 2)` and `DateTime(timezone=True)`.  A row that does not pass
fails the whole statement.
-/

namespace TransactionPlatform

/-! ### Timestamps -/

/-- Whether the year has a 29 February. -/
def isLeapYear (y : ℕ) : Bool := y % 4 == 0 && (y % 100 != 0 || y % 400 == 0)

/-- The days of the year before the month. -/
def daysBeforeMonth (y m : ℕ) : ℕ :=
  ([0, 31, 59, 90, 120, 151, 181, 212, 243, 273, 304, 334][m - 1]?).getD 0 +
    bif decide (2 < m) && isLeapYear y then 1 else 0

namespace Datetime

/-- The microseconds since the beginning of year 1 on the clock of the value. -/
def microseconds (dt : Datetime) : ℤ :=
  let y : ℤ := dt.year - 1
  let days := y * 365 + y / 4 - y / 100 + y / 400 + daysBeforeMonth dt.year dt.month + dt.day - 1
  (days * 86400 + dt.hour * 3600 + dt.minute * 60 + dt.second) * 1000000 + dt.microsecond

/-- The value can be converted to UTC, where years go from 1 to 9999 too: the driver converts it
with `astimezone`. -/
def representableInUtc (dt : Datetime) : Bool :=
  let utc := dt.microseconds - dt.utcoffset.getD 0
  decide (0 ≤ utc) && decide (utc < 3652059 * 86400 * 1000000)

end Datetime

/-! ### The type `NUMERIC` of Postgres -/

/-- A number of `units` of size `10 ^ -scale`, or NaN. -/
inductive Numeric where
  | number (units : ℤ) (scale : ℕ)
  | nan
  deriving DecidableEq

/-- What a column `Numeric(18, 2)` holds for a `Decimal`: further decimal places are rounded, half
away from zero.  The column refuses an infinity, so no row has one. -/
def Numeric.column : Decimal → Numeric
  | .finite negative coefficient exponent =>
    let units := if -2 ≤ exponent then coefficient * 10 ^ (exponent + 2).toNat
      else (coefficient + 10 ^ (-2 - exponent).toNat / 2) / 10 ^ (-2 - exponent).toNat
    number (bif negative then -(units : ℤ) else units) 2
  | .infinity _ => nan
  | .nan _ => nan

/-- The column takes the value: not an infinity, and no number of more than 18 digits. -/
def Decimal.fitsColumn : Decimal → Bool
  | infinity _ => false
  | d =>
    match Numeric.column d with
    | .number units _ => decide (units.natAbs < 10 ^ 18)
    | .nan => true

/-! ### Rows -/

/-- The limits of the columns of `transactions`. -/
def Transaction.fitsColumns (t : Transaction) : Bool :=
  TransactionPlatform.fitsColumn 128 t.transactionId &&
    TransactionPlatform.fitsColumn 128 t.accountId &&
    TransactionPlatform.fitsColumn 3 t.currency && t.amount.fitsColumn

/-- The limits of the columns of `import_errors`. -/
def ImportError.storable (e : ImportError) : Bool :=
  e.transactionId.all (fitsColumn 128) && fitsColumn 1024 e.error

end TransactionPlatform
