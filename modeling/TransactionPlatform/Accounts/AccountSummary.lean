import Mathlib.Algebra.Group.Int.Defs
import Mathlib.Algebra.Group.Nat.Defs
import TransactionPlatform.Worker.ImportWorker

/-!
# The summary of an account

`app/services/account_service.py` and `app/redis_utils/cache.py`.  The totals are computed by
Postgres in one aggregate query, as values of the type `NUMERIC`; the balance is computed by Python,
in the default context of `decimal`.

The cache holds the summary itself: `orjson` reads back the flat dictionary it has written, and its
text is never empty.
-/

namespace TransactionPlatform

/-! ### The type `NUMERIC` of Postgres -/

namespace Numeric

/-- The sum has the larger of the two scales and is exact. -/
def add : Numeric → Numeric → Numeric
  | number u s, number v t =>
    number (u * 10 ^ (max s t - s) + v * 10 ^ (max s t - t)) (max s t)
  | _, _ => nan

/-- `coalesce(sum(...), 0)`: without rows the sum is `NULL`. -/
def coalesceSum : List Numeric → Numeric
  | [] => number 0 0
  | x :: xs => xs.foldl add x

/-- The driver hands a value over as a `Decimal`. -/
def decimal : Numeric → Decimal
  | number units scale => .finite (decide (units < 0)) units.natAbs (-(scale : ℤ))
  | nan => .nan false

end Numeric

/-! ### `decimal.Decimal` in the default context -/

namespace Decimal

/-- `decimal.getcontext().prec`. -/
def precision : ℕ := 28

/-- Round a finite value to the precision of the context, half to even. -/
def fix (negative : Bool) (coefficient : ℕ) (exponent : ℤ) : Decimal :=
  let surplus := (Nat.toDigits 10 coefficient).length - precision
  let unit := 10 ^ surplus
  let kept := coefficient / unit
  let rest := coefficient % unit
  let rounded := if unit < 2 * rest ∨ unit = 2 * rest ∧ kept % 2 = 1 then kept + 1 else kept
  if rounded = 10 ^ precision then
    finite negative (10 ^ (precision - 1)) (exponent + surplus + 1)
  else finite negative rounded (exponent + surplus)

/-- `-` on two values; the totals are never infinite. -/
def sub : Decimal → Decimal → Decimal
  | finite n c e, finite n' c' e' =>
    let exponent := min e e'
    let units := (bif n then -(c : ℤ) else c) * 10 ^ (e - exponent).toNat -
      (bif n' then -(c' : ℤ) else c') * 10 ^ (e' - exponent).toNat
    fix (decide (units < 0)) units.natAbs exponent
  | _, _ => nan false

/-- `str` of a value. -/
def str : Decimal → String
  | finite negative coefficient exponent =>
    let digits := Nat.toDigits 10 coefficient
    let leftdigits := exponent + digits.length
    let dotplace := if exponent ≤ 0 ∧ -6 < leftdigits then leftdigits else 1
    let mantissa :=
      if dotplace ≤ 0 then '0' :: '.' :: List.replicate (-dotplace).toNat '0' ++ digits
      else if digits.length ≤ dotplace then
        digits ++ List.replicate (dotplace - digits.length).toNat '0'
      else digits.take dotplace.toNat ++ '.' :: digits.drop dotplace.toNat
    let power := leftdigits - dotplace
    (bif negative then "-" else "") ++ String.ofList mantissa ++
      if power = 0 then ""
      else (if power < 0 then "E-" else "E+") ++ toString power.natAbs
  | infinity negative => (bif negative then "-" else "") ++ "Infinity"
  | nan signaling => bif signaling then "sNaN" else "NaN"

end Decimal

/-! ### `get_account_summary` -/

/-- The row of the aggregate query. -/
structure AggregateRow where
  totalCredits : Numeric
  totalDebits : Numeric
  transactionCount : ℕ
  deriving DecidableEq

/-- `case((Transaction.type == type, Transaction.amount), else_=0)`. -/
def amountIf (type : TransactionType) (t : Transaction) : Numeric :=
  if t.type = type then .column t.amount else .number 0 0

/-- The transactions `WHERE account_id = ...`. -/
def accountRows (T : List Transaction) (accountId : String) : List Transaction :=
  T.filter fun t => decide (t.accountId = accountId)

/-- The aggregate query on the table `T`. -/
def aggregate (T : List Transaction) (accountId : String) : AggregateRow :=
  let rows := accountRows T accountId
  { totalCredits := .coalesceSum (rows.map (amountIf .CREDIT))
    totalDebits := .coalesceSum (rows.map (amountIf .DEBIT))
    transactionCount := rows.length }

/-- The dictionary that `get_account_summary` returns and caches. -/
structure AccountSummary where
  accountId : String
  totalCredits : String
  totalDebits : String
  transactionCount : ℕ
  balance : String
  deriving DecidableEq

/-- The summary that is built from the row of the query. -/
def AggregateRow.summary (row : AggregateRow) (accountId : String) : AccountSummary where
  accountId := accountId
  totalCredits := row.totalCredits.decimal.str
  totalDebits := row.totalDebits.decimal.str
  transactionCount := row.transactionCount
  balance := (row.totalCredits.decimal.sub row.totalDebits.decimal).str

/-- The summary of an account over the table `T`. -/
def summaryOf (T : List Transaction) (accountId : String) : AccountSummary :=
  (aggregate T accountId).summary accountId

/-- A summary depends on the rows of its account only. -/
theorem summaryOf_congr {T T' : List Transaction} {accountId : String}
    (h : accountRows T accountId = accountRows T' accountId) :
    summaryOf T accountId = summaryOf T' accountId := by
  unfold summaryOf aggregate
  rw [h]

/-! ### The cache -/

/-- The keys of the summary cache with the summaries they hold. -/
abbrev SummaryCache := List (String × AccountSummary)

namespace SummaryCache

/-- `get_account_summary_cache`. -/
def get (cache : SummaryCache) (accountId : String) : Option AccountSummary :=
  cache.lookup (summaryKey accountId)

/-- `invalidate_account_summary_cache`. -/
def invalidate (cache : SummaryCache) (accountId : String) : SummaryCache :=
  cache.filter fun p => p.1 ≠ summaryKey accountId

/-- `set_account_summary_cache`. -/
def set (cache : SummaryCache) (accountId : String) (summary : AccountSummary) : SummaryCache :=
  (summaryKey accountId, summary) :: cache.invalidate accountId

end SummaryCache

/-- `get_account_summary`, when nothing else happens meanwhile: the summary and the cache it
leaves. -/
def getAccountSummary (T : List Transaction) (cache : SummaryCache) (accountId : String) :
    AccountSummary × SummaryCache :=
  match cache.get accountId with
  | some cached => (cached, cache)
  | none =>
    let summary := (aggregate T accountId).summary accountId
    (summary, cache.set accountId summary)

end TransactionPlatform
