import TransactionPlatform.Validation.AmountText

/-!
# The balance is exact

Postgres adds up the amounts as exact numbers; Python subtracts the totals with 28 significant
digits and writes the results as texts.  `Cents` says what the query returns: the sum in hundredths,
or a plain 0 if no row counts.  `sub_decimal` and `ofText_str` say that the subtraction does not
round and that the texts denote the numbers, as long as there are not more than 28 digits.
-/

namespace TransactionPlatform

/-! ### Sums -/

namespace Numeric

/-- A sum starts from 0. -/
theorem coalesceSum_eq_foldl (xs : List Numeric) : coalesceSum xs = xs.foldl add (number 0 0) := by
  cases xs with
  | nil => rfl
  | cons x xs =>
    have hzero : add (number 0 0) x = x := by
      cases x with
      | number u s => simp [add]
      | nan => rfl
    rw [List.foldl_cons, hzero]
    rfl

/-- Sums do not depend on the order. -/
theorem add_right_comm (x y z : Numeric) : (x.add y).add z = (x.add z).add y := by
  cases x with
  | nan => rfl
  | number u s =>
    cases y with
    | nan =>
      cases z with
      | nan => rfl
      | number w r => rfl
    | number v t =>
      cases z with
      | nan => rfl
      | number w r =>
        have hpow : ∀ {a b c : ℕ}, a ≤ b → b ≤ c →
            (10 : ℤ) ^ (b - a) * 10 ^ (c - b) = 10 ^ (c - a) := by
          intro a b c hab hbc
          rw [← pow_add]
          congr 1
          omega
        have hmax : max (max s r) t = max (max s t) r := by omega
        unfold add
        dsimp only
        rw [hmax, add_mul, add_mul, mul_assoc, mul_assoc, mul_assoc, mul_assoc,
          hpow (by omega) (by omega), hpow (by omega) (by omega), hpow (by omega) (by omega),
          hpow (by omega) (by omega)]
        congr 1
        ring

theorem coalesceSum_perm {xs ys : List Numeric} (h : xs.Perm ys) :
    coalesceSum xs = coalesceSum ys := by
  rw [coalesceSum_eq_foldl, coalesceSum_eq_foldl]
  exact h.foldl_eq' (fun x _ y _ z => add_right_comm z x y) _

/-- The number is `k` hundredths: written so, or as a plain 0. -/
def Cents (x : Numeric) (k : ℕ) : Prop := x = number k 2 ∨ x = number 0 0 ∧ k = 0

theorem Cents.add {x y : Numeric} {k l : ℕ} (hx : Cents x k) (hy : Cents y l) :
    Cents (x.add y) (k + l) := by
  rcases hx with rfl | ⟨rfl, rfl⟩
  · rcases hy with rfl | ⟨rfl, rfl⟩
    · exact .inl (by simp [Numeric.add])
    · exact .inl (by simp [Numeric.add])
  · rcases hy with rfl | ⟨rfl, rfl⟩
    · exact .inl (by simp [Numeric.add])
    · exact .inr ⟨by simp [Numeric.add], rfl⟩

end Numeric

/-- A number with further decimal places that is a whole number of hundredths. -/
theorem coefficient_of_hundredths {c k : ℕ} {e : ℤ} (he : e < -2)
    (h : (c : ℚ) * 10 ^ e = k / 100) : c = k * 10 ^ (-2 - e).toNat := by
  obtain ⟨m, hm⟩ : ∃ m : ℕ, -2 - e = m := Int.eq_ofNat_of_zero_le (by omega)
  have hpow : (10 : ℚ) ^ e = (100 * 10 ^ m)⁻¹ := by
    have hexp : e = -((m : ℤ) + 2) := by omega
    rw [hexp, zpow_neg, zpow_add₀ (by norm_num), zpow_natCast, mul_comm]
    norm_num
  rw [hm, Int.toNat_natCast]
  rw [hpow] at h
  field_simp at h
  rw [mul_comm]
  exact_mod_cast h

/-- The rounding of the column leaves a whole number of hundredths as it is. -/
theorem column_of_value {d : Decimal} {k : ℕ} (h : d.value = some ((k : ℚ) / 100)) (hpos : 0 < k) :
    Numeric.column d = .number k 2 := by
  cases d with
  | infinity negative => cases h
  | nan signaling => cases h
  | finite negative c e =>
    have hvalue := Option.some.inj h
    have hten : (0 : ℚ) < 10 ^ e := zpow_pos (by norm_num) e
    have hk : (0 : ℚ) < (k : ℚ) / 100 := by
      have hcast : (0 : ℚ) < k := by exact_mod_cast hpos
      linarith
    cases negative with
    | true =>
      have hc : (0 : ℚ) ≤ c := Nat.cast_nonneg c
      have hneg : -(c : ℚ) * 10 ^ e ≤ 0 :=
        mul_nonpos_of_nonpos_of_nonneg (neg_nonpos.mpr hc) hten.le
      exact absurd (hvalue ▸ hk) (not_lt.mpr hneg)
    | false =>
      unfold Numeric.column
      dsimp only
      rw [cond_false]
      by_cases he : -2 ≤ e
      · have hdiv := Option.some.inj ((Decimal.value_eq_hundredths c he).symm.trans h)
        have hunits : c * 10 ^ (e + 2).toNat = k := by
          field_simp at hdiv
          exact_mod_cast hdiv
        rw [if_pos he, hunits]
      · have hc := coefficient_of_hundredths (not_le.mp he) hvalue
        have hhalf : 10 ^ (-2 - e).toNat / 2 < 10 ^ (-2 - e).toNat :=
          Nat.div_lt_self (Nat.pow_pos (by decide)) (by decide)
        rw [if_neg he, hc, Nat.add_comm, Nat.add_mul_div_right _ _ (Nat.pow_pos (by decide)),
          Nat.div_eq_of_lt hhalf, Nat.zero_add]

/-! ### The totals of the query -/

/-- The sum of the amounts of one type. -/
def total (type : TransactionType) (rows : List Transaction) : ℚ :=
  ((rows.filter fun t => decide (t.type = type)).map fun t => t.amount.value.getD 0).sum

/-- The amounts of the rows are positive whole numbers of hundredths below `10 ^ 16`. -/
def WithinNumeric (rows : List Transaction) : Prop :=
  ∀ t ∈ rows, ∃ k : ℕ, t.amount.value = some ((k : ℚ) / 100) ∧ 0 < k ∧ (k : ℚ) / 100 < 10 ^ 16

/-- The query returns the sum of the amounts, in hundredths. -/
theorem coalesceSum_amounts (type : TransactionType) {rows : List Transaction} {bound : ℕ}
    (h : ∀ t ∈ rows, ∃ k : ℕ, t.amount.value = some ((k : ℚ) / 100) ∧ 0 < k ∧ k ≤ bound) :
    ∃ k : ℕ, Numeric.Cents (.coalesceSum (rows.map (amountIf type))) k ∧
      total type rows = (k : ℚ) / 100 ∧ k ≤ rows.length * bound := by
  rw [Numeric.coalesceSum_eq_foldl]
  induction rows using List.reverseRecOn with
  | nil => exact ⟨0, .inr ⟨rfl, rfl⟩, by simp [total], Nat.zero_le _⟩
  | append_singleton rows t ih =>
    obtain ⟨k, hcents, htotal, hle⟩ := ih fun t' ht' => h t' (List.mem_append_left _ ht')
    obtain ⟨j, hvalue, hpos, hj⟩ := h t (List.mem_append_right _ (List.mem_singleton_self t))
    rw [List.map_append, List.map_singleton, List.foldl_append, List.foldl_cons, List.foldl_nil,
      List.length_append, List.length_singleton, Nat.add_one_mul]
    by_cases htype : t.type = type
    · refine ⟨k + j, hcents.add (.inl ?_), ?_, by omega⟩
      · rw [amountIf, if_pos htype, column_of_value hvalue hpos]
      · unfold total at htotal ⊢
        rw [List.filter_append, List.filter_singleton, decide_eq_true htype, cond_true,
          List.map_append, List.sum_append, htotal, List.map_singleton, List.sum_singleton, hvalue,
          Option.getD_some]
        push_cast
        ring
    · refine ⟨k, hcents.add (.inr ⟨?_, rfl⟩), ?_, by omega⟩
      · rw [amountIf, if_neg htype]
      · unfold total at htotal ⊢
        rw [List.filter_append, List.filter_singleton, decide_eq_false htype, cond_false,
          List.append_nil, htotal]

/-! ### The subtraction -/

/-- A coefficient of at most 28 digits is not rounded. -/
theorem fix_eq {negative : Bool} {c : ℕ} {e : ℤ} (h : c < 10 ^ 28) :
    Decimal.fix negative c e = .finite negative c e := by
  have hlen : (Nat.toDigits 10 c).length ≤ Decimal.precision :=
    (Nat.length_toDigits_le_iff (by decide) (by decide)).mpr h
  have hne : c ≠ 10 ^ Decimal.precision := h.ne
  unfold Decimal.fix
  dsimp only
  have hrest : ¬ (1 < 2 * 0 ∨ 1 = 2 * 0 ∧ c % 2 = 1) := by omega
  rw [Nat.sub_eq_zero_of_le hlen, pow_zero, Nat.div_one, Nat.mod_one, if_neg hrest, if_neg hne,
    Int.natCast_zero, add_zero]

theorem signed_natAbs (w : ℤ) : (bif decide (w < 0) then -(w.natAbs : ℤ) else w.natAbs) = w := by
  by_cases hw : w < 0
  · rw [decide_eq_true hw, cond_true]
    omega
  · rw [decide_eq_false hw, cond_false]
    omega

/-- Python subtracts totals exactly, as long as the difference has at most 28 digits. -/
theorem sub_decimal {u v : ℤ} {s t : ℕ}
    (h : (u * 10 ^ (max s t - s) - v * 10 ^ (max s t - t)).natAbs < 10 ^ 28) :
    (Numeric.number u s).decimal.sub (Numeric.number v t).decimal =
      (Numeric.number (u * 10 ^ (max s t - s) - v * 10 ^ (max s t - t)) (max s t)).decimal := by
  have hmin : min (-(s : ℤ)) (-(t : ℤ)) = -((max s t : ℕ) : ℤ) := by omega
  have hs : (-(s : ℤ) - -((max s t : ℕ) : ℤ)).toNat = max s t - s := by omega
  have ht : (-(t : ℤ) - -((max s t : ℕ) : ℤ)).toNat = max s t - t := by omega
  unfold Numeric.decimal Decimal.sub
  dsimp only
  rw [signed_natAbs, signed_natAbs, hmin, hs, ht, fix_eq h]

/-! ### The texts -/

/-- What `Decimal(text)` denotes. -/
def Decimal.ofText (text : String) : Option ℚ := (parseDecimal text.toList).bind Decimal.value

section Text

variable (negative : Bool) (c s : ℕ)

/-- The digits of the coefficient, with zeros in front up to one place before the point. -/
def paddedDigits : List Char :=
  List.replicate (s + 1 - (Nat.toDigits 10 c).length) '0' ++ Nat.toDigits 10 c

theorem length_paddedDigits : s < (paddedDigits c s).length := by
  unfold paddedDigits
  rw [List.length_append, List.length_replicate]
  omega

/-- The numeral that `str` writes for a coefficient with `s` decimal places. -/
def strNumeral : Numeral Char where
  sign := bif negative then .minus else .absent
  whole := (paddedDigits c s).take ((paddedDigits c s).length - s)
  fraction := if s = 0 then none
    else some ((paddedDigits c s).drop ((paddedDigits c s).length - s))
  exponent := none
  nonempty hnil := by
    have hwhole := congrArg List.length (List.append_eq_nil_iff.mp hnil).1
    have hlen := length_paddedDigits c s
    rw [List.length_take, List.length_nil] at hwhole
    omega

theorem fractionDigits_strNumeral : (strNumeral negative c s).fractionDigits =
    (paddedDigits c s).drop ((paddedDigits c s).length - s) := by
  unfold Numeral.fractionDigits strNumeral
  dsimp only
  split
  · next hs =>
    rw [hs, Nat.sub_zero, List.drop_length]
    rfl
  · rfl

theorem digits_strNumeral : (strNumeral negative c s).whole ++
    (strNumeral negative c s).fractionDigits = paddedDigits c s := by
  rw [fractionDigits_strNumeral]
  exact List.take_append_drop ..

variable {negative c s}

theorem text_strNumeral : (strNumeral negative c s).text id =
    (bif negative then ['-'] else []) ++
      ((paddedDigits c s).take ((paddedDigits c s).length - s) ++
        if s = 0 then [] else '.' :: (paddedDigits c s).drop ((paddedDigits c s).length - s)) := by
  unfold Numeral.text Numeral.fractionText strNumeral
  dsimp only
  rw [List.map_id, List.append_assoc, List.append_assoc, Option.elim_none, List.append_nil]
  congr 1
  · cases negative with
    | true => rfl
    | false => rfl
  · split
    · rfl
    · rw [Option.elim_some, List.map_id]

/-- `str` writes a number with few decimal places without an exponent. -/
theorem str_eq_text (hs : s ≤ 6) : (Decimal.finite negative c (-(s : ℤ))).str =
    String.ofList ((strNumeral negative c s).text id) := by
  have hpos : 0 < (Nat.toDigits 10 c).length := Nat.length_toDigits_pos
  have hplain : -(s : ℤ) ≤ 0 ∧ -6 < -(s : ℤ) + (Nat.toDigits 10 c).length := by omega
  have hsign : (bif negative then "-" else "") =
      String.ofList (bif negative then ['-'] else []) := by
    cases negative with
    | true => rfl
    | false => rfl
  unfold Decimal.str
  dsimp only
  rw [if_pos hplain, sub_self, if_pos rfl, String.append_empty, hsign, ← String.ofList_append,
    text_strNumeral]
  congr 2
  unfold paddedDigits
  by_cases hlong : s < (Nat.toDigits 10 c).length
  · -- there is a digit in front of the point
    rw [if_neg (by omega), Nat.sub_eq_zero_of_le hlong, List.replicate_zero, List.nil_append]
    by_cases hs0 : s = 0
    · have hzeros : (-(s : ℤ) + (Nat.toDigits 10 c).length - (Nat.toDigits 10 c).length).toNat =
          0 := by omega
      rw [if_pos (by omega), if_pos hs0, hzeros, hs0, Nat.sub_zero, List.take_length]
      rfl
    · have hplace : (-(s : ℤ) + (Nat.toDigits 10 c).length).toNat =
          (Nat.toDigits 10 c).length - s := by omega
      rw [if_neg (by omega), if_neg hs0, hplace]
  · -- zeros are written in front of the digits
    obtain ⟨m, hm⟩ : ∃ m, s = (Nat.toDigits 10 c).length + m :=
      Nat.exists_eq_add_of_le (not_lt.mp hlong)
    have hzeros : (-(-(s : ℤ) + (Nat.toDigits 10 c).length)).toNat = m := by omega
    have hpad : s + 1 - (Nat.toDigits 10 c).length = m + 1 := by omega
    rw [if_pos (by omega), if_neg (by omega), hzeros, hpad, List.length_append,
      List.length_replicate]
    have hone : m + 1 + (Nat.toDigits 10 c).length - s = 1 := by omega
    rw [hone, List.replicate_succ]
    rfl

theorem isDigit_paddedDigits : ∀ d ∈ paddedDigits c s, d.isDigit = true := by
  intro d hd
  rcases List.mem_append.mp hd with hd | hd
  · rw [List.eq_of_mem_replicate hd]
    decide
  · exact Nat.isDigit_of_mem_toDigits (by decide) (by decide) hd

theorem number_paddedDigits : Numeral.number (digitCount id) (paddedDigits c s) = c := by
  have hchars : Numeral.number (digitCount id) (paddedDigits c s) =
      Nat.ofDigitChars 10 (paddedDigits c s) 0 := rfl
  unfold paddedDigits at hchars ⊢
  rw [hchars, Nat.ofDigitChars_append, Nat.ofDigitChars_replicate_zero, Nat.mul_zero,
    Nat.ofDigitChars_ten_toDigits]

/-- `Decimal(text)` reads back what `str` has written. -/
theorem parseDecimal_str (hs : s ≤ 6) (hc : c < 10 ^ 28) :
    parseDecimal (Decimal.finite negative c (-(s : ℤ))).str.toList =
      some (.finite negative c (-(s : ℤ))) := by
  have hascii : WrittenInAscii id (strNumeral negative c s) := by
    refine ⟨fun d hd => isDigit_paddedDigits d (List.mem_of_mem_take hd), fun d hd => ?_, nofun⟩
    rw [fractionDigits_strNumeral] at hd
    exact isDigit_paddedDigits d (List.mem_of_mem_drop hd)
  have hlen := length_paddedDigits c s
  have hscale : (strNumeral negative c s).scale (digitCount id) = -(s : ℤ) := by
    unfold Numeral.scale
    rw [fractionDigits_strNumeral, List.length_drop]
    change (0 : ℤ) - _ = _
    omega
  have hcoefficient : (strNumeral negative c s).coefficient (digitCount id) = c := by
    unfold Numeral.coefficient
    rw [digits_strNumeral, number_paddedDigits]
  have hsign : (strNumeral negative c s).sign.negative = negative := by
    cases negative with
    | true => rfl
    | false => rfl
  have hlimits : withinLimits (paddedDigits c s) (-(s : ℤ)) = true := by
    have hdigits : (Nat.toDigits 10 c).length ≤ 28 :=
      (Nat.length_toDigits_le_iff (by decide) (by decide)).mpr hc
    have hsignificant := List.length_dropWhile_le (fun d => decide (d = '0')) (paddedDigits c s)
    unfold paddedDigits at hsignificant ⊢
    rw [List.length_append, List.length_replicate] at hsignificant
    unfold withinLimits
    rw [Bool.and_eq_true, decide_eq_true_iff, decide_eq_true_iff]
    omega
  rw [str_eq_text hs, String.toList_ofList, parseDecimal_text hascii, hscale, hcoefficient, hsign,
    digits_strNumeral, List.map_id, hlimits, cond_true]

end Text

/-- The text of a number with at most 28 digits denotes the number. -/
theorem ofText_str {u : ℤ} {s : ℕ} (hs : s ≤ 6) (hu : u.natAbs < 10 ^ 28) :
    Decimal.ofText (Numeric.number u s).decimal.str = some ((u : ℚ) / 10 ^ s) := by
  have hsigned : (bif decide (u < 0) then -(u.natAbs : ℚ) else u.natAbs) = u := by
    have hcast := congrArg (Int.cast (R := ℚ)) (signed_natAbs u)
    rw [← hcast]
    cases decide (u < 0) with
    | true => simp
    | false => simp
  unfold Decimal.ofText Numeric.decimal
  dsimp only
  rw [parseDecimal_str hs hu, Option.bind_some]
  unfold Decimal.value
  dsimp only
  rw [hsigned, zpow_neg, zpow_natCast, div_eq_mul_inv]

namespace Numeric

variable {x y : Numeric} {k l : ℕ}

/-- The text of a total denotes the total. -/
theorem Cents.ofText (h : Cents x k) (hk : k < 10 ^ 28) :
    Decimal.ofText x.decimal.str = some ((k : ℚ) / 100) := by
  rcases h with rfl | ⟨rfl, rfl⟩
  · have htext := ofText_str (u := k) (s := 2) (by decide) hk
    rw [htext]
    norm_num
  · rw [ofText_str (by decide) (by decide)]
    norm_num

/-- The text of the difference of two totals denotes their exact difference. -/
theorem Cents.ofText_sub (hx : Cents x k) (hy : Cents y l) (hk : k < 10 ^ 28) (hl : l < 10 ^ 28) :
    Decimal.ofText (x.decimal.sub y.decimal).str = some ((k : ℚ) / 100 - l / 100) := by
  -- in hundredths, or both are plain zeros
  have hsub : x.decimal.sub y.decimal = (number (k - l) 2).decimal ∨
      x.decimal.sub y.decimal = (number 0 0).decimal ∧ k = 0 ∧ l = 0 := by
    rcases hx with rfl | ⟨rfl, rfl⟩
    · rcases hy with rfl | ⟨rfl, rfl⟩
      · left
        rw [sub_decimal (by simp; omega)]
        simp
      · left
        rw [sub_decimal (by simp; omega)]
        simp
    · rcases hy with rfl | ⟨rfl, rfl⟩
      · left
        rw [sub_decimal (by simp; omega)]
        simp
      · right
        exact ⟨by rw [sub_decimal (by decide)]; rfl, rfl, rfl⟩
  rcases hsub with hsub | ⟨hsub, rfl, rfl⟩
  · rw [hsub, ofText_str (by decide) (by omega)]
    push_cast
    congr 1
    ring
  · rw [hsub, ofText_str (by decide) (by decide)]
    norm_num

end Numeric

/-- A summary does not depend on the order of the rows. -/
theorem summaryOf_perm {T T' : List Transaction} (h : T.Perm T') (accountId : String) :
    summaryOf T accountId = summaryOf T' accountId := by
  have hrows : (accountRows T accountId).Perm (accountRows T' accountId) := h.filter _
  have hsum : ∀ type, Numeric.coalesceSum ((accountRows T accountId).map (amountIf type)) =
      Numeric.coalesceSum ((accountRows T' accountId).map (amountIf type)) := fun type =>
    Numeric.coalesceSum_perm (hrows.map _)
  unfold summaryOf aggregate
  dsimp only
  rw [hsum, hsum, hrows.length_eq]

/-- For an account with at most `10 ^ 10` transactions, each of a positive whole number of
hundredths below `10 ^ 16`, the summary that is not taken from the cache is exact, whatever the
order of the rows. -/
theorem account_balance_exact (T : List Transaction) (cache : SummaryCache) (accountId : String)
    (huncached : cache.get accountId = none) (hcount : (accountRows T accountId).length ≤ 10 ^ 10)
    (hamounts : WithinNumeric (accountRows T accountId)) :
    let rows := accountRows T accountId
    let summary := (getAccountSummary T cache accountId).1
    Decimal.ofText summary.totalCredits = some (total .CREDIT rows) ∧
      Decimal.ofText summary.totalDebits = some (total .DEBIT rows) ∧
      Decimal.ofText summary.balance = some (total .CREDIT rows - total .DEBIT rows) ∧
      summary.transactionCount = rows.length ∧
      ∀ T', T'.Perm T → (getAccountSummary T' cache accountId).1 = summary := by
  have hsummary : ∀ T, (getAccountSummary T cache accountId).1 = summaryOf T accountId := by
    intro T
    unfold getAccountSummary
    rw [huncached]
    rfl
  have hbounded : ∀ t ∈ accountRows T accountId, ∃ k : ℕ,
      t.amount.value = some ((k : ℚ) / 100) ∧ 0 < k ∧ k ≤ 10 ^ 18 - 1 := by
    intro t ht
    obtain ⟨k, hvalue, hpos, hlt⟩ := hamounts t ht
    refine ⟨k, hvalue, hpos, ?_⟩
    rw [div_lt_iff₀ (by norm_num)] at hlt
    have hcents : (k : ℚ) < (10 ^ 18 : ℕ) := by
      push_cast
      linarith
    exact Nat.le_pred_of_lt (by exact_mod_cast hcents)
  obtain ⟨credits, hcredits, htotalCredits, hmaxCredits⟩ := coalesceSum_amounts .CREDIT hbounded
  obtain ⟨debits, hdebits, htotalDebits, hmaxDebits⟩ := coalesceSum_amounts .DEBIT hbounded
  -- ten thousand million amounts of at most 18 digits have a sum of at most 28 digits
  have hmax : (accountRows T accountId).length * (10 ^ 18 - 1) < 10 ^ 28 :=
    (Nat.mul_le_mul_right _ hcount).trans_lt (by norm_num)
  have hltCredits := hmaxCredits.trans_lt hmax
  have hltDebits := hmaxDebits.trans_lt hmax
  dsimp only
  rw [hsummary, htotalCredits, htotalDebits]
  refine ⟨hcredits.ofText hltCredits, hdebits.ofText hltDebits,
    hcredits.ofText_sub hdebits hltCredits hltDebits, rfl, fun T' hperm => ?_⟩
  rw [hsummary]
  exact summaryOf_perm hperm accountId

/-- A credit of 10.5 and a debit of 0.25. -/
def sampleAccount : List Transaction :=
  [⟨"T1", "A1", .CREDIT, .finite false 105 (-1), "USD", ⟨2026, 9, 1, 10, 0, 0, 0, some 0⟩, none⟩,
    ⟨"T2", "A1", .DEBIT, .finite false 25 (-2), "USD", ⟨2026, 9, 1, 10, 0, 0, 0, some 0⟩, none⟩]

theorem sample_account_balance :
    Decimal.ofText (getAccountSummary sampleAccount [] "A1").1.balance =
      some (total .CREDIT sampleAccount - total .DEBIT sampleAccount) := by
  have hrows : accountRows sampleAccount "A1" = sampleAccount := by decide
  have hexact := account_balance_exact sampleAccount [] "A1" rfl (by rw [hrows]; decide) ?_
  · rw [hrows] at hexact
    exact hexact.2.2.1
  · rw [hrows]
    intro t ht
    rcases List.mem_cons.mp ht with rfl | ht
    · exact ⟨1050, by norm_num [Decimal.value], by decide, by norm_num⟩
    · cases List.mem_singleton.mp ht
      exact ⟨25, by norm_num [Decimal.value], by decide, by norm_num⟩

end TransactionPlatform
