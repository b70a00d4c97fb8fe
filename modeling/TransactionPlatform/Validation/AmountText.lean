import Mathlib.Algebra.Order.Round
import Mathlib.Data.List.DropRight
import Mathlib.Data.Rat.Floor
import TransactionPlatform.Accounts.AccountSummary
import TransactionPlatform.Amount
import TransactionPlatform.Foundation.Numeral
import TransactionPlatform.Validation.Outcome

/-!
# Amount texts

`decimal.Decimal` reads a numeral without loss: `decimal_numeral` says that `Decimal(text)` has the
coefficient and the exponent that are written, so that the validator's check of the exponent is a
check of the text.  `amount_checks_exact` relates the checks to the number that the text denotes.
-/

namespace TransactionPlatform

open Numeral (Sign number)

/-! ### `Decimal(text)` on ASCII numerals -/

section Ascii

variable {δ : Type} {char : δ → Char} {n : Numeral δ}

/-- The number of a digit that is written as `char d`. -/
def digitCount (char : δ → Char) (d : δ) : ℕ := (char d).toNat - 48

theorem digitsValue_map (ds : List δ) :
    digitsValue (ds.map char) = number (digitCount char) ds := by
  unfold digitsValue number digitCount
  rw [List.foldl_map]

/-- The characters of a numeral in front of the exponent. -/
def MantissaChar (c : Char) : Prop := c.isDigit = true ∨ c = '.'

theorem MantissaChar.ne {c d : Char} (h : MantissaChar c) (hdigit : d.isDigit = false)
    (hpoint : d ≠ '.') : c ≠ d := by
  rintro rfl
  rcases h with h | h
  · rw [hdigit] at h
    cases h
  · exact hpoint h

theorem MantissaChar.toLower {c : Char} (h : MantissaChar c) : c.toLower = c := by
  have hle : c.toNat ≤ 57 := by
    rcases h with h | rfl
    · exact (Char.isDigit_iff_toNat.mp h).2
    · decide
  unfold Char.toLower
  rw [dif_neg]
  rintro ⟨hcapital, -⟩
  have hge : 65 ≤ c.toNat := UInt32.le_iff_toNat_le.mp hcapital
  omega

/-- A sign is split off in front of anything that is not a sign. -/
theorem splitSign_text (s : Sign) {c : Char} {cs : List Char} (hminus : c ≠ '-') (hplus : c ≠ '+') :
    splitSign (s.text ++ c :: cs) = (s.negative, c :: cs) := by
  cases s with
  | absent =>
    unfold splitSign
    split
    · next heq => exact absurd (List.cons.inj heq).1 hminus
    · next heq => exact absurd (List.cons.inj heq).1 hplus
    · rfl
  | plus => rfl
  | minus => rfl

/-- The exponent of a numeral is read as it is written. -/
theorem exponentPart_text (e : Numeral.Exponent δ) (h : ∀ d ∈ e.digits, (char d).isDigit = true) :
    exponentPart (e.sign.text ++ e.digits.map char) =
      some (e.sign.signed (number (digitCount char) e.digits : ℤ)) := by
  obtain ⟨d, ds, hds⟩ := List.exists_cons_of_ne_nil e.nonempty
  have hd : MantissaChar (char d) := .inl (h d (by rw [hds]; exact List.mem_cons_self ..))
  have hsplit : splitSign (e.sign.text ++ e.digits.map char) =
      (e.sign.negative, e.digits.map char) := by
    rw [hds, List.map_cons]
    exact splitSign_text e.sign (hd.ne (by decide) (by decide)) (hd.ne (by decide) (by decide))
  have hall : (e.digits.map char).all Char.isDigit = true := by
    rw [List.all_map, List.all_eq_true]
    exact h
  unfold exponentPart
  rw [hsplit]
  dsimp only
  rw [if_pos ⟨fun hnil => e.nonempty (List.map_eq_nil_iff.mp hnil), hall⟩, digitsValue_map]
  rfl

/-- The digits of the numeral are written as ASCII digits. -/
structure WrittenInAscii (char : δ → Char) (n : Numeral δ) : Prop where
  whole : ∀ d ∈ n.whole, (char d).isDigit = true
  fraction : ∀ d ∈ n.fractionDigits, (char d).isDigit = true
  exponent : ∀ e, n.exponent = some e → ∀ d ∈ e.digits, (char d).isDigit = true

/-- The text in front of the exponent. -/
def mantissaText (char : δ → Char) (n : Numeral δ) : List Char :=
  n.whole.map char ++ n.fractionText char

theorem WrittenInAscii.mantissa (h : WrittenInAscii char n) :
    ∀ c ∈ mantissaText char n, MantissaChar c := by
  intro c hc
  rcases List.mem_append.mp hc with hc | hc
  · obtain ⟨d, hd, rfl⟩ := List.mem_map.mp hc
    exact .inl (h.whole d hd)
  · have hfraction := h.fraction
    unfold Numeral.fractionDigits at hfraction
    unfold Numeral.fractionText at hc
    cases hf : n.fraction with
    | none =>
      rw [hf] at hc
      cases hc
    | some ds =>
      rw [hf] at hc hfraction
      rcases List.mem_cons.mp hc with rfl | hc
      · exact .inr rfl
      · obtain ⟨d, hd, rfl⟩ := List.mem_map.mp hc
        exact .inl (hfraction d hd)

/-- There is a digit or a point in front of the exponent. -/
theorem exists_cons_mantissaText (char : δ → Char) (n : Numeral δ) :
    ∃ c cs, mantissaText char n = c :: cs := by
  refine List.exists_cons_of_ne_nil fun hnil => n.nonempty ?_
  obtain ⟨hwhole, hfraction⟩ := List.append_eq_nil_iff.mp hnil
  unfold Numeral.fractionText at hfraction
  cases hf : n.fraction with
  | none =>
    rw [List.map_eq_nil_iff.mp hwhole]
    rfl
  | some ds =>
    rw [hf] at hfraction
    cases hfraction

/-- The digits in front of the point and behind it. -/
theorem split_mantissaText (h : WrittenInAscii char n) :
    (mantissaText char n).takeWhile (· ≠ '.') = n.whole.map char ∧
      ((mantissaText char n).dropWhile (· ≠ '.')).drop 1 = n.fractionDigits.map char := by
  have hwhole : ∀ c ∈ n.whole.map char, decide (c ≠ '.') = true := by
    intro c hc
    obtain ⟨d, hd, rfl⟩ := List.mem_map.mp hc
    refine decide_eq_true fun hpoint => ?_
    have hdigit := h.whole d hd
    rw [hpoint] at hdigit
    exact absurd hdigit (by decide)
  unfold mantissaText
  rw [List.takeWhile_append_of_pos hwhole, List.dropWhile_append_of_pos hwhole]
  unfold Numeral.fractionText Numeral.fractionDigits
  cases n.fraction with
  | none => exact ⟨List.append_nil _, rfl⟩
  | some ds => exact ⟨List.append_nil _, rfl⟩

/-- The text in front of the exponent and the text of the exponent. -/
theorem split_exponent (h : WrittenInAscii char n) :
    (mantissaText char n ++ n.exponent.elim [] (Numeral.Exponent.text char)).takeWhile
        (fun c => c ≠ 'e' ∧ c ≠ 'E') = mantissaText char n ∧
      (mantissaText char n ++ n.exponent.elim [] (Numeral.Exponent.text char)).dropWhile
        (fun c => c ≠ 'e' ∧ c ≠ 'E') = n.exponent.elim [] (Numeral.Exponent.text char) := by
  have hmantissa : ∀ c ∈ mantissaText char n, decide (c ≠ 'e' ∧ c ≠ 'E') = true := fun c hc =>
    decide_eq_true ⟨(h.mantissa c hc).ne (by decide) (by decide),
      (h.mantissa c hc).ne (by decide) (by decide)⟩
  rw [List.takeWhile_append_of_pos hmantissa, List.dropWhile_append_of_pos hmantissa]
  cases n.exponent with
  | none => exact ⟨List.append_nil _, rfl⟩
  | some e =>
    unfold Numeral.Exponent.text
    dsimp only [Option.elim_some]
    cases e.capital with
    | true => exact ⟨List.append_nil _, rfl⟩
    | false => exact ⟨List.append_nil _, rfl⟩

theorem finiteDecimal_text (h : WrittenInAscii char n) (negative : Bool) :
    finiteDecimal negative
        (mantissaText char n ++ n.exponent.elim [] (Numeral.Exponent.text char)) =
      bif withinLimits ((n.whole ++ n.fractionDigits).map char) (n.scale (digitCount char)) then
        some (.finite negative (n.coefficient (digitCount char)) (n.scale (digitCount char)))
      else none := by
  obtain ⟨hmantissa, hexponent⟩ := split_exponent h
  obtain ⟨hwhole, hfraction⟩ := split_mantissaText h
  have hne : (n.whole ++ n.fractionDigits).map char ≠ [] := fun hnil =>
    n.nonempty (List.map_eq_nil_iff.mp hnil)
  have hall : ((n.whole ++ n.fractionDigits).map char).all Char.isDigit = true := by
    rw [List.all_map, List.all_eq_true]
    intro d hd
    rcases List.mem_append.mp hd with hd | hd
    · exact h.whole d hd
    · exact h.fraction d hd
  unfold finiteDecimal
  dsimp only
  rw [hmantissa, hexponent, hwhole, hfraction, ← List.map_append, if_pos ⟨hne, hall⟩,
    List.length_map, digitsValue_map]
  unfold Numeral.scale Numeral.writtenExponent
  cases he : n.exponent with
  | none => rfl
  | some e =>
    dsimp only [Option.elim_some, Numeral.Exponent.text]
    rw [exponentPart_text e (h.exponent e he)]
    rfl

/-- `Decimal(text)` of an ASCII numeral has the coefficient and the exponent that are written. -/
theorem parseDecimal_text (h : WrittenInAscii char n) :
    parseDecimal (n.text char) =
      bif withinLimits ((n.whole ++ n.fractionDigits).map char) (n.scale (digitCount char)) then
        some (.finite n.sign.negative (n.coefficient (digitCount char)) (n.scale (digitCount char)))
      else none := by
  obtain ⟨c, cs, hcs⟩ := exists_cons_mantissaText char n
  have hc : MantissaChar c := h.mantissa c (by rw [hcs]; exact List.mem_cons_self ..)
  have hbody : n.text char = n.sign.text ++
      (mantissaText char n ++ n.exponent.elim [] (Numeral.Exponent.text char)) := by
    unfold Numeral.text mantissaText
    rw [List.append_assoc, List.append_assoc, List.append_assoc]
  have hsplit : splitSign (n.text char) = (n.sign.negative,
      mantissaText char n ++ n.exponent.elim [] (Numeral.Exponent.text char)) := by
    rw [hbody, hcs, List.cons_append]
    exact splitSign_text n.sign (hc.ne (by decide) (by decide)) (hc.ne (by decide) (by decide))
  -- the special values start with a letter
  have hlower : (mantissaText char n ++ n.exponent.elim [] (Numeral.Exponent.text char)).map
      Char.toLower = c :: (cs ++ n.exponent.elim [] (Numeral.Exponent.text char)).map
        Char.toLower := by
    rw [hcs, List.cons_append, List.map_cons, hc.toLower]
  unfold parseDecimal
  rw [hsplit]
  dsimp only
  rw [hlower, if_neg, if_neg, if_neg]
  · exact finiteDecimal_text h n.sign.negative
  · rintro ⟨hsnan, -⟩
    exact hc.ne (by decide) (by decide) (List.cons.inj hsnan).1
  · rintro ⟨hnan, -⟩
    exact hc.ne (by decide) (by decide) (List.cons.inj hnan).1
  · rintro (hinf | hinf)
    · exact hc.ne (by decide) (by decide) (List.cons.inj hinf).1
    · exact hc.ne (by decide) (by decide) (List.cons.inj hinf).1

end Ascii

/-! ### Digits of any script -/

/-- A decimal digit of the runtime, with the number it counts; no digit is white space. -/
structure Python.Digit (py : Python) where
  char : Char
  val : ℕ
  digit : py.digit char = some val
  not_space : py.isspace char = false

variable {py : Python} {row : Row}

namespace Python

/-- The ASCII digit that `decimal` reads instead. -/
def Digit.ascii (d : py.Digit) : Char := Char.ofNat (48 + d.val)

theorem Digit.toNat_ascii (d : py.Digit) : d.ascii.toNat = 48 + d.val := by
  have hlt := py.digit_lt d.char d.val d.digit
  have hvalid : (48 + d.val).isValidChar := .inl (by omega)
  unfold ascii Char.ofNat
  rw [dif_pos hvalid]
  rfl

theorem Digit.isDigit_ascii (d : py.Digit) : d.ascii.isDigit = true := by
  have hlt := py.digit_lt d.char d.val d.digit
  rw [Char.isDigit_iff_toNat, d.toNat_ascii]
  change 48 ≤ 48 + d.val ∧ 48 + d.val ≤ 57
  omega

theorem digitCount_ascii : digitCount (@Digit.ascii py) = Digit.val := by
  funext d
  unfold digitCount
  rw [d.toNat_ascii, Nat.add_sub_cancel_left]

/-- The text `cs` is read as the text `ds`, whatever stands behind it. -/
def ReadAs (py : Python) (cs ds : List Char) : Prop :=
  ∀ rest, py.asciiNumeric (cs ++ rest) = (py.asciiNumeric rest).map (ds ++ ·)

theorem ReadAs.nil : py.ReadAs [] [] := by
  intro rest
  rw [List.nil_append]
  exact Option.map_id'.symm

theorem ReadAs.append {cs ds cs' ds' : List Char} (h : py.ReadAs cs ds) (h' : py.ReadAs cs' ds') :
    py.ReadAs (cs ++ cs') (ds ++ ds') := by
  intro rest
  rw [List.append_assoc, h, h', Option.map_map]
  congr 1
  funext x
  exact (List.append_assoc ..).symm

/-- An ASCII character is read as itself. -/
theorem ReadAs.ascii {c : Char} (hunderscore : c ≠ '_') (hascii : 0 < c.toNat ∧ c.toNat < 128) :
    py.ReadAs [c] [c] := by
  intro rest
  rw [List.singleton_append, asciiNumeric, if_neg hunderscore, if_pos hascii]
  rfl

/-- A digit is read as its ASCII digit. -/
theorem ReadAs.digit (d : py.Digit) : py.ReadAs [d.char] [d.ascii] := by
  have hdigit := d.digit
  by_cases hascii : d.char.toNat < 128
  · rw [py.digit_ascii _ hascii] at hdigit
    split at hdigit
    · next hd =>
      have hlo : 48 ≤ d.char.toNat := (Char.isDigit_iff_toNat.mp hd).1
      have hchar : d.char = d.ascii := by
        refine Char.toNat_inj.mp ?_
        rw [d.toNat_ascii, ← Option.some.inj hdigit]
        omega
      rw [← hchar]
      refine ReadAs.ascii (fun hunderscore => ?_) ⟨by omega, hascii⟩
      rw [hunderscore] at hd
      exact absurd hd (by decide)
    · cases hdigit
  · intro rest
    have hunderscore : d.char ≠ '_' := by
      intro heq
      rw [heq] at hascii
      exact hascii (by decide)
    rw [List.singleton_append, asciiNumeric, if_neg hunderscore, if_neg fun h => hascii h.2,
      d.not_space, if_neg Bool.false_ne_true, hdigit]
    rfl

theorem ReadAs.digits (ds : List py.Digit) :
    py.ReadAs (ds.map Digit.char) (ds.map Digit.ascii) := by
  induction ds with
  | nil => exact .nil
  | cons d ds ih => exact (ReadAs.digit d).append ih

theorem ReadAs.sign (s : Sign) : py.ReadAs s.text s.text := by
  cases s with
  | absent => exact .nil
  | plus => exact .ascii (by decide) (by decide)
  | minus => exact .ascii (by decide) (by decide)

/-- A numeral is read with ASCII digits. -/
theorem ReadAs.numeral (n : Numeral py.Digit) :
    py.ReadAs (n.text Digit.char) (n.text Digit.ascii) := by
  unfold Numeral.text
  refine (((ReadAs.sign n.sign).append (.digits n.whole)).append ?_).append ?_
  · unfold Numeral.fractionText
    cases n.fraction with
    | none => exact .nil
    | some ds => exact (ReadAs.ascii (by decide) (by decide)).append (.digits ds)
  · cases n.exponent with
    | none => exact .nil
    | some e =>
      have hindicator : py.ReadAs [bif e.capital then 'E' else 'e']
          [bif e.capital then 'E' else 'e'] := by
        cases e.capital with
        | true => exact .ascii (by decide) (by decide)
        | false => exact .ascii (by decide) (by decide)
      exact hindicator.append ((ReadAs.sign e.sign).append (.digits e.digits))

/-- Underscores are skipped. -/
theorem asciiNumeric_filter (cs : List Char) :
    py.asciiNumeric (cs.filter (· ≠ '_')) = py.asciiNumeric cs := by
  induction cs with
  | nil => rfl
  | cons c cs ih =>
    by_cases hunderscore : c = '_'
    · rw [List.filter_cons_of_neg (by simp [hunderscore]), ih, asciiNumeric, if_pos hunderscore]
    · rw [List.filter_cons_of_pos (by simp [hunderscore]), asciiNumeric, asciiNumeric, ih]

/-- What is stripped stays as it is. -/
theorem strip_strip (s : String) : py.strip (py.strip s) = py.strip s := by
  have htext : ∀ s : String, py.strip s =
      String.ofList ((s.toList.dropWhile py.isspace).rdropWhile py.isspace) := fun _ => rfl
  -- the first character that is left, if there is one, has stopped the first `dropWhile`
  have hfront : ((s.toList.dropWhile py.isspace).rdropWhile py.isspace).dropWhile py.isspace =
      (s.toList.dropWhile py.isspace).rdropWhile py.isspace := by
    obtain ⟨tail, htail⟩ := List.rdropWhile_prefix py.isspace (l := s.toList.dropWhile py.isspace)
    cases hkept : (s.toList.dropWhile py.isspace).rdropWhile py.isspace with
    | nil => rfl
    | cons c cs =>
      have hidem := List.dropWhile_idempotent (p := py.isspace) (l := s.toList)
      rw [hkept] at htail
      rw [← htail, List.cons_append] at hidem
      cases hc : py.isspace c with
      | false => rw [List.dropWhile_cons_of_neg (by rw [hc]; nofun)]
      | true =>
        have hlen := congrArg List.length hidem
        rw [List.dropWhile_cons_of_pos hc] at hlen
        have hle := List.length_dropWhile_le py.isspace (cs ++ tail)
        rw [List.length_cons] at hlen
        omega
  rw [htext (py.strip s), htext s, String.toList_ofList, hfront, List.rdropWhile_idempotent]

/-- The numeral is within the limits of the `decimal` module. -/
def WithinLimits (n : Numeral py.Digit) : Prop :=
  withinLimits ((n.whole ++ n.fractionDigits).map Digit.ascii) (n.scale Digit.val) = true

/-- `Decimal(text)` of a numeral has the coefficient and the exponent that are written. -/
theorem decimal_numeral {s : String} {n : Numeral py.Digit} (hlimits : WithinLimits n)
    (h : (py.strip s).toList.filter (· ≠ '_') = n.text Digit.char) :
    py.decimal s =
      some (.finite n.sign.negative (n.coefficient Digit.val) (n.scale Digit.val)) := by
  have hread : py.asciiNumeric (py.strip s).toList = some (n.text Digit.ascii) := by
    rw [← asciiNumeric_filter, h, ← List.append_nil (n.text Digit.char), ReadAs.numeral n]
    exact congrArg some (List.append_nil _)
  have hascii : WrittenInAscii Digit.ascii n :=
    ⟨fun d _ => d.isDigit_ascii, fun d _ => d.isDigit_ascii, fun _ _ d _ => d.isDigit_ascii⟩
  have hparse := parseDecimal_text hascii
  unfold WithinLimits at hlimits
  rw [digitCount_ascii, hlimits, cond_true] at hparse
  unfold decimal
  rw [hread, Option.bind_some, hparse]

/-! ### The checks of the amount -/

/-- A number passes the checks if it is positive and its exponent is at least -2. -/
theorem amountChecks_finite {negative : Bool} {coefficient : ℕ} {exponent : ℤ}
    (h : py.decimal (py.field row "amount") = some (.finite negative coefficient exponent))
    (amount : Decimal) :
    py.amountChecks row = .ok amount ↔
      (negative = false ∧ coefficient ≠ 0) ∧ -2 ≤ exponent ∧
        amount = .finite negative coefficient exponent := by
  unfold amountChecks
  dsimp only
  rw [h]
  dsimp only [Decimal.nonpositive, Decimal.tooPrecise]
  by_cases hneg : (negative || decide (coefficient = 0)) = true
  · rw [hneg]
    refine iff_of_false nofun ?_
    rintro ⟨⟨rfl, hne⟩, -⟩
    exact hne (of_decide_eq_true hneg)
  · obtain ⟨hsign, hzero⟩ := Bool.or_eq_false_iff.mp (Bool.eq_false_iff.mpr hneg)
    rw [hsign, hzero, Bool.or_self]
    by_cases hexp : exponent < -2
    · rw [decide_eq_true hexp]
      exact iff_of_false nofun fun hpass => absurd hpass.2.1 (not_le.mpr hexp)
    · rw [decide_eq_false hexp]
      constructor
      · intro hok
        exact ⟨⟨rfl, of_decide_eq_false hzero⟩, not_lt.mp hexp, (Except.ok.inj hok).symm⟩
      · rintro ⟨-, -, rfl⟩
        rfl

/-- An accepted row has passed the checks of the amount. -/
theorem amountChecks_of_accepted {v : ValidRow} {n : ℕ} (h : py.validateRow row n = .accepted v) :
    py.amountChecks row = .ok v.amount := by
  have hout := validateRow_outcome py row n
  rw [h] at hout
  cases hout with
  | accepted hrow _ _ _ =>
    exact (amountChecks_finite hrow.amount _).mpr ⟨⟨rfl, hrow.positive⟩, hrow.precise, rfl⟩

end Python

/-- Without more than two decimal places, the column rounds nothing away. -/
theorem column_eq (coefficient : ℕ) {exponent : ℤ} (h : -2 ≤ exponent) :
    ∃ k : ℤ, (Decimal.finite false coefficient exponent).value = some ((k : ℚ) / 100) ∧
      Numeric.column (.finite false coefficient exponent) = .number k 2 := by
  refine ⟨_, Decimal.value_eq_hundredths coefficient h, ?_⟩
  unfold Numeric.column
  dsimp only
  rw [if_pos h, cond_false]

/-- For an amount text that is a numeral, the checks of the amount pass exactly if the number is
positive and is written without more than two decimal places.  The amount that is written to the
table is then exactly that number, a whole number of hundredths, which rounding to two decimal
places leaves as it is. -/
theorem amount_checks_exact (py : Python) (row : Row) (n : Numeral py.Digit)
    (hlimits : Python.WithinLimits n)
    (htext : (py.field row "amount").toList.filter (· ≠ '_') = n.text Python.Digit.char) :
    ((∃ amount, py.amountChecks row = .ok amount) ↔
        0 < n.value Python.Digit.val ∧ -2 ≤ n.scale Python.Digit.val) ∧
      (∀ amount, py.amountChecks row = .ok amount →
        amount.value = some (n.value Python.Digit.val) ∧
        (∃ k : ℤ, n.value Python.Digit.val = k / 100 ∧ Numeric.column amount = .number k 2) ∧
        (round (n.value Python.Digit.val * 100) : ℚ) / 100 = n.value Python.Digit.val) ∧
      ∀ rowNumber v jobId, py.validateRow row rowNumber = .accepted v →
        py.amountChecks row = .ok (v.transaction jobId).amount := by
  have hdecimal : py.decimal (py.field row "amount") = some (.finite n.sign.negative
      (n.coefficient Python.Digit.val) (n.scale Python.Digit.val)) := by
    refine Python.decimal_numeral hlimits ?_
    unfold Python.field at htext ⊢
    rwa [Python.strip_strip]
  have hpass := Python.amountChecks_finite hdecimal
  refine ⟨?_, fun amount hok => ?_, fun rowNumber v jobId hv => Python.amountChecks_of_accepted hv⟩
  · rw [Numeral.value_pos_iff]
    constructor
    · rintro ⟨amount, hok⟩
      obtain ⟨hpos, hscale, -⟩ := (hpass amount).mp hok
      exact ⟨hpos, hscale⟩
    · rintro ⟨hpos, hscale⟩
      exact ⟨_, (hpass _).mpr ⟨hpos, hscale, rfl⟩⟩
  · obtain ⟨⟨hsign, -⟩, hscale, rfl⟩ := (hpass amount).mp hok
    have hvalue : (Decimal.finite n.sign.negative (n.coefficient Python.Digit.val)
        (n.scale Python.Digit.val)).value = some (n.value Python.Digit.val) := by
      rw [Numeral.value_eq]
      rfl
    rw [hsign] at hvalue ⊢
    obtain ⟨k, hk, hcolumn⟩ := column_eq (n.coefficient Python.Digit.val) hscale
    have hundredths : n.value Python.Digit.val = k / 100 := by
      rw [hvalue] at hk
      exact Option.some.inj hk
    refine ⟨hvalue, ⟨k, hundredths, hcolumn⟩, ?_⟩
    have hnumber : (k : ℚ) / 100 * 100 = k := div_mul_cancel₀ _ (by norm_num)
    rw [hundredths, hnumber, round_intCast]

/-- The numeral `+1050e-2`. -/
def sampleNumeral : Numeral Python.ascii.Digit where
  sign := .plus
  whole := [⟨'1', 1, by decide, by decide⟩, ⟨'0', 0, by decide, by decide⟩,
    ⟨'5', 5, by decide, by decide⟩, ⟨'0', 0, by decide, by decide⟩]
  fraction := none
  exponent := some ⟨false, .minus, [⟨'2', 2, by decide, by decide⟩], List.cons_ne_nil _ _⟩
  nonempty := List.cons_ne_nil _ _

theorem sample_amount_exact :
    ∃ amount, Python.ascii.amountChecks (sampleAmount "+1_050e-2") = .ok amount := by
  have hlimits : Python.WithinLimits sampleNumeral := by
    unfold Python.WithinLimits
    decide +kernel
  have hexact := amount_checks_exact .ascii (sampleAmount "+1_050e-2") sampleNumeral hlimits
    (by decide +kernel)
  refine hexact.1.mpr ⟨?_, by decide +kernel⟩
  rw [Numeral.value_pos_iff]
  decide +kernel

end TransactionPlatform
