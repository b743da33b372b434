/-
The value of a decimal as a rational number. Decimals that are alike have one value (`Alike.value`), moving the
point multiplies by a power of ten (`size_moved`), and a decimal is whole when its value is a whole number
(`isWhole_iff_value`), which is then what is left without the fraction.
-/
import EquityScreen.Proofs.Decimal.Padding
import Mathlib.Algebra.Order.Field.Rat
import Mathlib.Data.Rat.Cast.Order
import Mathlib.Tactic.FieldSimp

namespace EquityScreen
namespace Decimal

/-- The value without its sign. -/
def size (d : Decimal) : ℚ := d.coefficient * 10 ^ d.exponent

/-- The value. -/
def value (d : Decimal) : ℚ := if d.negative then -d.size else d.size

variable {d d' : Decimal}

theorem size_nonneg (d : Decimal) : 0 ≤ d.size := mul_nonneg (Nat.cast_nonneg _) (zpow_nonneg (by norm_num) _)

theorem abs_value (d : Decimal) : |d.value| = d.size := by
  unfold value
  split
  · rw [abs_neg, abs_of_nonneg d.size_nonneg]
  · exact abs_of_nonneg d.size_nonneg

theorem size_padded (d : Decimal) (k : Nat) : (d.padded k).size = d.size := by
  rw [size, size, padded_coefficient, padded_exponent, zpow_sub₀ (by norm_num), zpow_natCast]
  push_cast
  field_simp

theorem Alike.size (h : Alike d d') : d.size = d'.size := h.congr size_padded

theorem Alike.value (h : Alike d d') : d.value = d'.value := by
  rw [Decimal.value, Decimal.value, h.size, h.negative]

/-- The decimal with its point moved. -/
def moved (d : Decimal) (places : Int) : Decimal := { d with exponent := d.exponent + places }

theorem size_moved (d : Decimal) (places : Int) : (d.moved places).size = d.size * 10 ^ places := by
  rw [size, size, mul_assoc]
  show (d.coefficient : ℚ) * 10 ^ (d.exponent + places) = _
  rw [zpow_add₀ (by norm_num)]

theorem value_moved (d : Decimal) (places : Int) : (d.moved places).value = d.value * 10 ^ places := by
  rw [value, value, size_moved]
  show (if d.negative then _ else _) = _
  split <;> simp

/-- The size as a quotient of whole numbers. -/
theorem size_eq (d : Decimal) :
    d.size * (10 ^ (-d.exponent).toNat : Nat) = (d.coefficient * 10 ^ d.exponent.toNat : Nat) := by
  rw [size]
  rcases Int.le_total 0 d.exponent with he | he
  · obtain ⟨n, hn⟩ := Int.eq_ofNat_of_zero_le he
    rw [hn, show (-((n : Nat) : Int)).toNat = 0 by omega, Int.toNat_natCast]
    push_cast
    simp
  · obtain ⟨n, hn⟩ : ∃ n : Nat, d.exponent = -n := ⟨(-d.exponent).toNat, by omega⟩
    rw [hn, show (-((n : Nat) : Int)).toNat = 0 by omega, Int.neg_neg, Int.toNat_natCast]
    push_cast
    rw [zpow_neg, zpow_natCast]
    field_simp

/-- What is left of a whole decimal is its size. -/
theorem natAbs_truncate_of_isWhole (h : d.isWhole = true) : (d.truncate.natAbs : ℚ) = d.size := by
  have hdvd := (isWhole_iff d).1 h
  have hpos : ((10 ^ (-d.exponent).toNat : Nat) : ℚ) ≠ 0 := Nat.cast_ne_zero.2 (Nat.ne_of_gt (Nat.pow_pos (by decide)))
  refine mul_right_cancel₀ hpos ?_
  rw [size_eq, ← Nat.cast_mul, natAbs_truncate]
  congr 1
  split
  · next he => rw [show (-d.exponent).toNat = 0 by omega, Nat.pow_zero, Nat.mul_one]
  · next he => rw [Nat.div_mul_cancel hdvd, show d.exponent.toNat = 0 by omega, Nat.pow_zero, Nat.mul_one]

/-- **A whole decimal** is the number that is left of it without its fraction. -/
theorem truncate_of_isWhole (h : d.isWhole = true) : (d.truncate : ℚ) = d.value := by
  rw [truncate_eq, value, ← natAbs_truncate_of_isWhole h]
  split <;> simp

/-- A decimal is whole when its value is. -/
theorem isWhole_iff_value (d : Decimal) : d.isWhole = true ↔ ∃ n : Int, (n : ℚ) = d.value := by
  refine ⟨fun h => ⟨d.truncate, truncate_of_isWhole h⟩, fun ⟨n, hn⟩ => (isWhole_iff d).2 ?_⟩
  have hsize : (n.natAbs : ℚ) = d.size := by rw [← abs_value, ← hn, Nat.cast_natAbs, Int.cast_abs]
  have hquotient := size_eq d
  rw [← hsize, ← Nat.cast_mul, Nat.cast_inj] at hquotient
  rcases Int.le_total 0 d.exponent with he | he
  · rw [show (-d.exponent).toNat = 0 by omega, Nat.pow_zero]
    exact Nat.one_dvd _
  · rw [show d.exponent.toNat = 0 by omega, Nat.pow_zero, Nat.mul_one] at hquotient
    exact ⟨n.natAbs, by rw [← hquotient, Nat.mul_comm]⟩

end Decimal
end EquityScreen
