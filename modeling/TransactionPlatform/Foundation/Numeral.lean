import Mathlib.Algebra.Order.Field.Power
import Mathlib.Algebra.Order.Field.Rat
import Mathlib.Data.List.Induction
import Mathlib.Tactic.FieldSimp
import Mathlib.Tactic.NormNum
import Mathlib.Tactic.Ring

/-!
# Decimal numerals

A numeral is an optional sign, digits with an optional point, and an optional exponent.  The digits
are of any type: `char` says how one is written, and `val` what it counts.  `value` is the number
that the numeral denotes, place by place; `value_eq` says that it is a whole number, the
`coefficient`, times the power `10 ^ scale`.
-/

namespace Numeral

/-- A sign that may be left out. -/
inductive Sign where
  | absent
  | plus
  | minus
  deriving DecidableEq

namespace Sign

def text : Sign → List Char
  | absent => []
  | plus => ['+']
  | minus => ['-']

def negative : Sign → Bool
  | absent => false
  | plus => false
  | minus => true

/-- A number behind the sign. -/
def signed {R : Type} [Neg R] (s : Sign) (x : R) : R := bif s.negative then -x else x

end Sign

/-- An exponent: its indicator, an optional sign, and at least one digit. -/
structure Exponent (δ : Type) where
  capital : Bool
  sign : Sign
  digits : List δ
  nonempty : digits ≠ []

/-- The number that digits denote, the most significant one first. -/
def number {δ : Type} (val : δ → ℕ) (ds : List δ) : ℕ := ds.foldl (fun n d => 10 * n + val d) 0

end Numeral

/-- Digits with an optional point, between an optional sign and an optional exponent; there is a
digit in front of the point or behind it. -/
structure Numeral (δ : Type) where
  sign : Numeral.Sign
  whole : List δ
  fraction : Option (List δ)
  exponent : Option (Numeral.Exponent δ)
  nonempty : whole ++ fraction.getD [] ≠ []

namespace Numeral

variable {δ : Type}

/-! ### The text -/

section Text

variable (char : δ → Char)

/-- The exponent as it is written. -/
def Exponent.text (e : Exponent δ) : List Char :=
  (bif e.capital then 'E' else 'e') :: (e.sign.text ++ e.digits.map char)

/-- The point and the digits behind it as they are written. -/
def fractionText (n : Numeral δ) : List Char :=
  n.fraction.elim [] fun ds => '.' :: ds.map char

/-- The numeral as it is written. -/
def text (n : Numeral δ) : List Char :=
  n.sign.text ++ n.whole.map char ++ n.fractionText char ++ n.exponent.elim [] (Exponent.text char)

end Text

/-! ### The number -/

section Value

variable (val : δ → ℕ) (n : Numeral δ)

/-- The exponent that is written; without one it is 0. -/
def writtenExponent : ℤ := n.exponent.elim 0 fun e => e.sign.signed (number val e.digits : ℤ)

/-- The digits behind the point. -/
def fractionDigits : List δ := n.fraction.getD []

/-- The number that the numeral denotes. -/
def value : ℚ :=
  n.sign.signed ((number val n.whole : ℚ) +
    number val n.fractionDigits / 10 ^ n.fractionDigits.length) * 10 ^ n.writtenExponent val

/-- The digits without the point. -/
def coefficient : ℕ := number val (n.whole ++ n.fractionDigits)

/-- The written exponent minus the number of digits behind the point. -/
def scale : ℤ := n.writtenExponent val - n.fractionDigits.length

end Value

variable {val : δ → ℕ} {n : Numeral δ}

/-- Digits in front of others count more by a power of ten. -/
theorem number_append (as bs : List δ) :
    number val (as ++ bs) = number val as * 10 ^ bs.length + number val bs := by
  induction bs using List.reverseRecOn with
  | nil => simp [number]
  | append_singleton bs b ih =>
    have hsnoc : ∀ ds : List δ, number val (ds ++ [b]) = 10 * number val ds + val b := by
      intro ds
      simp [number]
    rw [← List.append_assoc, hsnoc, hsnoc, ih, List.length_append, List.length_singleton, pow_succ]
    ring

theorem Sign.signed_mul (s : Sign) (x y : ℚ) : s.signed (x * y) = s.signed x * y := by
  cases s with
  | absent => rfl
  | plus => rfl
  | minus => exact (neg_mul x y).symm

/-- A numeral denotes its coefficient times a power of ten. -/
theorem value_eq : n.value val = n.sign.signed (n.coefficient val : ℚ) * 10 ^ n.scale val := by
  have hten : (10 : ℚ) ≠ 0 := by norm_num
  have hplaces : (number val n.whole : ℚ) +
      number val n.fractionDigits / 10 ^ n.fractionDigits.length =
      n.coefficient val * (10 ^ n.fractionDigits.length)⁻¹ := by
    unfold coefficient
    rw [number_append]
    push_cast
    field_simp
  have hscale : (10 : ℚ) ^ n.scale val =
      (10 ^ n.fractionDigits.length)⁻¹ * 10 ^ n.writtenExponent val := by
    unfold scale
    rw [zpow_sub₀ hten, zpow_natCast, div_eq_mul_inv, mul_comm]
  unfold value
  rw [hplaces, Sign.signed_mul, hscale, mul_assoc]

/-- A numeral denotes a positive number exactly if it has no minus sign and a digit that counts. -/
theorem value_pos_iff : 0 < n.value val ↔ n.sign.negative = false ∧ n.coefficient val ≠ 0 := by
  have hpow : (0 : ℚ) < 10 ^ n.scale val := zpow_pos (by norm_num) _
  have hcoeff : (0 : ℚ) ≤ n.coefficient val := Nat.cast_nonneg _
  rw [value_eq, mul_pos_iff_of_pos_right hpow]
  unfold Sign.signed
  cases n.sign.negative with
  | true =>
    refine iff_of_false (fun hpos => ?_) nofun
    exact absurd hpos (not_lt.mpr (neg_nonpos.mpr hcoeff))
  | false =>
    rw [cond_false, Nat.cast_pos, Nat.pos_iff_ne_zero, and_iff_right rfl]

end Numeral
