import Mathlib.Algebra.Order.Field.Power
import Mathlib.Algebra.Order.Field.Rat
import Mathlib.Tactic.FieldSimp
import Mathlib.Tactic.NormNum
import TransactionPlatform.Models

/-!
# Amounts of money

The number a `decimal.Decimal` denotes, and the numbers a column `Numeric(18, 2)` holds.
-/

namespace TransactionPlatform

namespace Decimal

/-- The number a `Decimal` denotes; the special values denote none. -/
def value : Decimal → Option ℚ
  | finite negative coefficient exponent =>
    some ((bif negative then -(coefficient : ℚ) else coefficient) * 10 ^ exponent)
  | infinity _ => none
  | nan _ => none

/-- A column `Numeric(18, 2)` holds the number exactly: it is a whole number of hundredths of at
most 18 digits. -/
def FitsNumeric (d : Decimal) : Prop := ∃ k : ℤ, d.value = some ((k : ℚ) / 100) ∧ |k| < 10 ^ 18

/-- A number without more than two decimal places is a whole number of hundredths. -/
theorem value_eq_hundredths {exponent : ℤ} (coefficient : ℕ) (h : -2 ≤ exponent) :
    (finite false coefficient exponent).value =
      some (((coefficient * 10 ^ (exponent + 2).toNat : ℕ) : ℤ) / 100 : ℚ) := by
  obtain ⟨m, hm⟩ : ∃ m : ℕ, exponent + 2 = m := Int.eq_ofNat_of_zero_le (by omega)
  have hexp : exponent = (m : ℤ) - 2 := by omega
  have hpow : (10 : ℚ) ^ exponent = 10 ^ m / 100 := by
    rw [hexp, zpow_sub₀ (by norm_num), zpow_natCast]
    norm_num
  rw [hm, Int.toNat_natCast]
  simp only [value, cond_false, hpow]
  push_cast
  rw [mul_div_assoc]

end Decimal

end TransactionPlatform
