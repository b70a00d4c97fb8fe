import TransactionPlatform.Models

/-!
# Row validation

`app/services/validation.py`.  The validator returns a transaction or an error text, and for some
amounts it raises instead, so its result has three cases.

Text is handled as a list of characters.  What the validator takes from the Python runtime and the
Unicode character database is the parameter `Python`; `Decimal(text)` is written out, as
`decimal.Decimal` parses it.
-/

namespace TransactionPlatform

/-- What the worker uses of the Python runtime.  For the validator: the character classes behind
`str.strip`, `str.upper`, `str.isalpha` and the decimal digits, and `datetime.fromisoformat`, where
`none` stands for `ValueError`; on ASCII the classes are fixed.  For the loop around it: how a set
of texts is printed, in the order of its hash table, and how many lines of a file that is not UTF-8
the decoder hands on before it raises, since it decodes a chunk at a time. -/
structure Python where
  isspace : Char → Bool
  upper : Char → List Char
  isalpha : Char → Bool
  digit : Char → Option ℕ
  fromisoformat : String → Option Datetime
  showSet : List String → String
  linesDecoded : List UInt8 → ℕ
  /-- The ASCII characters `str.strip` removes. -/
  isspace_ascii : ∀ c : Char, c.toNat < 128 →
    isspace c = decide ((9 ≤ c.toNat ∧ c.toNat ≤ 13) ∨ (28 ≤ c.toNat ∧ c.toNat ≤ 32))
  upper_ascii : ∀ c : Char, c.toNat < 128 → upper c = [c.toUpper]
  isalpha_ascii : ∀ c : Char, c.toNat < 128 → isalpha c = c.isAlpha
  digit_ascii : ∀ c : Char, c.toNat < 128 →
    digit c = if c.isDigit then some (c.toNat - 48) else none
  digit_lt : ∀ c d, digit c = some d → d < 10

/-- A row of `csv.DictReader`: column names and values.  A column the row is too short for has the
value `None` and is left out, so that `row.get` answers `none` for it. -/
abbrev Row := List (String × String)

/-- What `open` and `csv.DictReader` give for one file: the field names of the header, the rows, and
whether the iteration ends with an exception behind them, of `csv` or of the decoder. -/
structure Csv where
  fieldnames : List String
  rows : List Row
  raises : Bool

/-- `REQUIRED_COLUMNS`. -/
def requiredColumns : List String :=
  ["transaction_id", "account_id", "type", "amount", "currency", "timestamp"]

/-- `REQUIRED_COLUMNS - set(reader.fieldnames or [])`. -/
def Csv.missingColumns (csv : Csv) : List String :=
  requiredColumns.filter fun c => decide (c ∉ csv.fieldnames)

/-- `_COMMON_CURRENCIES`. -/
def commonCurrencies : List String :=
  ["USD", "EUR", "GBP", "INR", "JPY", "AUD", "CAD", "CHF", "CNY", "SGD",
    "AED", "ZAR", "NZD", "SEK", "NOK", "HKD"]

/-- The dictionary `validate_row` returns for an accepted row. -/
structure ValidRow where
  transactionId : String
  accountId : String
  type : TransactionType
  amount : Decimal
  currency : String
  timestamp : Datetime
  deriving DecidableEq

/-- The outcomes of `validate_row`: `(transaction, None)`, `(None, error)`, or an exception. -/
inductive Verdict where
  | accepted (row : ValidRow)
  | rejected (error : String)
  | raised (exception : String)
  deriving DecidableEq

namespace Python

variable (py : Python)

/-- `str.strip()`. -/
def strip (s : String) : String :=
  String.ofList (((s.toList.dropWhile py.isspace).reverse.dropWhile py.isspace).reverse)

/-- `str.upper()`. -/
def upperText (s : String) : String := String.ofList (s.toList.flatMap py.upper)

/-! ### `Decimal(text)` -/

/-- The ASCII text `decimal` reads: underscores dropped, decimal digits of other scripts replaced,
any other character outside ASCII (and the character 0) a syntax error. -/
def asciiNumeric : List Char → Option (List Char)
  | [] => some []
  | c :: cs =>
    if c = '_' then asciiNumeric cs
    else if 0 < c.toNat ∧ c.toNat < 128 then (asciiNumeric cs).map (c :: ·)
    else if py.isspace c then (asciiNumeric cs).map (' ' :: ·)
    else match py.digit c with
      | some d => (asciiNumeric cs).map (Char.ofNat (48 + d) :: ·)
      | none => none

end Python

/-- The value of a list of ASCII digits. -/
def digitsValue (ds : List Char) : ℕ := ds.foldl (fun n c => 10 * n + (c.toNat - 48)) 0

/-- The optional sign in front of a number. -/
def splitSign : List Char → Bool × List Char
  | '-' :: cs => (true, cs)
  | '+' :: cs => (false, cs)
  | cs => (false, cs)

/-- The exponent part behind `e` or `E`: an optional sign and at least one digit. -/
def exponentPart (cs : List Char) : Option ℤ :=
  let (negative, ds) := splitSign cs
  if ds ≠ [] ∧ ds.all Char.isDigit then
    some (bif negative then -(digitsValue ds : ℤ) else digitsValue ds)
  else none

/-- The bounds of the `decimal` module for a coefficient with the given digits. -/
def withinLimits (digits : List Char) (exponent : ℤ) : Bool :=
  let significant := max 1 (digits.dropWhile (· = '0')).length
  decide (-1999999999999999997 ≤ exponent) &&
    decide (exponent + significant - 1 ≤ 999999999999999999)

/-- A finite number: digits with an optional point, then an optional exponent. -/
def finiteDecimal (negative : Bool) (cs : List Char) : Option Decimal :=
  let mantissa := cs.takeWhile fun c => c ≠ 'e' ∧ c ≠ 'E'
  let whole := mantissa.takeWhile (· ≠ '.')
  let fraction := (mantissa.dropWhile (· ≠ '.')).drop 1
  let digits := whole ++ fraction
  let exponent := match cs.dropWhile fun c => c ≠ 'e' ∧ c ≠ 'E' with
    | [] => some 0
    | _ :: rest => exponentPart rest
  if digits ≠ [] ∧ digits.all Char.isDigit then
    exponent.bind fun e =>
      let e' : ℤ := e - fraction.length
      bif withinLimits digits e' then some (.finite negative (digitsValue digits) e') else none
  else none

/-- `Decimal(text)` on ASCII text; `none` stands for `InvalidOperation`. -/
def parseDecimal (cs : List Char) : Option Decimal :=
  let (negative, body) := splitSign cs
  let lower := body.map Char.toLower
  if lower = "inf".toList ∨ lower = "infinity".toList then some (.infinity negative)
  else if lower.take 3 = "nan".toList ∧ (lower.drop 3).all Char.isDigit then some (.nan false)
  else if lower.take 4 = "snan".toList ∧ (lower.drop 4).all Char.isDigit then some (.nan true)
  else finiteDecimal negative body

namespace Decimal

/-- `amount <= 0`; the comparison with a NaN raises `InvalidOperation`. -/
def nonpositive : Decimal → Except String Bool
  | finite negative coefficient _ => .ok (negative || decide (coefficient = 0))
  | infinity negative => .ok negative
  | nan _ => .error "InvalidOperation"

/-- `amount.as_tuple().exponent < -2`; the exponent of a special value is a string, which cannot be
compared with a number. -/
def tooPrecise : Decimal → Except String Bool
  | finite _ _ exponent => .ok (decide (exponent < -2))
  | infinity _ => .error "TypeError"
  | nan _ => .error "TypeError"

end Decimal

namespace Python

variable (py : Python)

/-- `Decimal(amount_raw)`; the constructor strips white space itself. -/
def decimal (s : String) : Option Decimal :=
  (py.asciiNumeric (py.strip s).toList).bind parseDecimal

/-- `_parse_timestamp`. -/
def parseTimestamp (value : String) : Option Datetime :=
  if value = "" then none
  else
    let normalized := value.toList.flatMap fun c => if c = 'Z' then "+00:00".toList else [c]
    (py.fromisoformat (String.ofList normalized)).map fun dt =>
      match dt.utcoffset with
      | none => { dt with utcoffset := some 0 }
      | some _ => dt

/-- `(row.get(name) or "").strip()`. -/
def field (row : Row) (name : String) : String := py.strip ((row.lookup name).getD "")

/-- A value of the row as an f-string prints it. -/
def shown (row : Row) (name : String) : String := (row.lookup name).getD "None"

/-- The type named by a stripped and upper-cased text, if it is in `ALLOWED_TYPES`. -/
def allowedType (s : String) : Option TransactionType :=
  if s = "CREDIT" then some .CREDIT else if s = "DEBIT" then some .DEBIT else none

/-- The checks of the timestamp, and the transaction built when all checks have passed. -/
def checkTimestamp (row : Row) (transactionId accountId : String) (type : TransactionType)
    (amount : Decimal) (currency : String) : Verdict :=
  let raw := py.field row "timestamp"
  match py.parseTimestamp raw with
  | none => .rejected ("timestamp must be a valid ISO-8601 datetime, got '" ++ raw ++ "'")
  | some timestamp => .accepted ⟨transactionId, accountId, type, amount, currency, timestamp⟩

/-- The checks of the currency and of what follows it. -/
def checkCurrency (row : Row) (transactionId accountId : String) (type : TransactionType)
    (amount : Decimal) : Verdict :=
  let currency := py.upperText (py.field row "currency")
  if currency.length ≠ 3 ∨ ¬ currency.toList.all py.isalpha then
    .rejected ("currency must be a 3-letter code, got '" ++ shown row "currency" ++ "'")
  else if currency ∉ commonCurrencies then
    .rejected ("currency '" ++ currency ++ "' is not in the supported currency list")
  else py.checkTimestamp row transactionId accountId type amount currency

/-- The checks of the amount: the verdict with which `validate_row` ends at one of them, or the
amount if they pass. -/
def amountChecks (row : Row) : Except Verdict Decimal :=
  let raw := py.field row "amount"
  match py.decimal raw with
  | none => .error (.rejected ("amount must be a valid decimal, got '" ++ raw ++ "'"))
  | some amount =>
    match amount.nonpositive with
    | .error e => .error (.raised e)
    | .ok true => .error (.rejected "amount must be greater than zero")
    | .ok false =>
      match amount.tooPrecise with
      | .error e => .error (.raised e)
      | .ok true => .error (.rejected "amount must not have more than 2 decimal places")
      | .ok false => .ok amount

/-- The checks of the amount and of what follows it. -/
def checkAmount (row : Row) (transactionId accountId : String) (type : TransactionType) : Verdict :=
  match py.amountChecks row with
  | .error verdict => verdict
  | .ok amount => py.checkCurrency row transactionId accountId type amount

/-- `validate_row(row, row_number)`; the row number is not used. -/
def validateRow (row : Row) (_rowNumber : ℕ) : Verdict :=
  let transactionId := py.field row "transaction_id"
  if transactionId = "" then .rejected "transaction_id is required and must be non-empty"
  else
    let accountId := py.field row "account_id"
    if accountId = "" then .rejected "account_id is required and must be non-empty"
    else
      match allowedType (py.upperText (py.field row "type")) with
      | none =>
        .rejected ("type must be one of ['CREDIT', 'DEBIT'], got '" ++ shown row "type" ++ "'")
      | some type => py.checkAmount row transactionId accountId type

end Python

/-- A runtime whose character classes are empty outside ASCII and whose calendar has one day. -/
def Python.ascii : Python where
  isspace c := decide ((9 ≤ c.toNat ∧ c.toNat ≤ 13) ∨ (28 ≤ c.toNat ∧ c.toNat ≤ 32))
  upper c := [c.toUpper]
  isalpha c := c.isAlpha
  digit c := if c.isDigit then some (c.toNat - 48) else none
  fromisoformat s :=
    if s = "2026-09-01T10:00:00+00:00" then some ⟨2026, 9, 1, 10, 0, 0, 0, some 0⟩ else none
  showSet s := "\x7b" ++ ", ".intercalate (s.map fun x => "'" ++ x ++ "'") ++ "\x7d"
  linesDecoded _ := 0
  isspace_ascii _ _ := rfl
  upper_ascii _ _ := rfl
  isalpha_ascii _ _ := rfl
  digit_ascii _ _ := rfl
  digit_lt c d h := by
    split at h
    · next hc =>
      cases h
      have hle : c.toNat ≤ 57 := (Char.isDigit_iff_toNat.mp hc).2
      omega
    · cases h

end TransactionPlatform
