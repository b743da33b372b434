/-
What arithmetic makes of a decimal of few digits. A decimal that can be written with 28 digits has a result
with its value, unless it is too large for one (`Short.fitted_eq_none_iff`) or is so near zero that digits of it would
lie below the least power of ten. Then the double of the result is still that of the decimal
(`Short.ofDecimal_fitted`), and the result is no more whole than the decimal unless nothing is left of it
(`Short.truncate_fitted`).
-/
import EquityScreen.Proofs.Decimal.Value
import EquityScreen.Proofs.Double.Reading
import Mathlib.Tactic.Linarith

namespace EquityScreen
namespace Decimal

variable {d d' r : Decimal} {n : Nat}

/-- The value can be written with as many digits as a result keeps. -/
def Short (d : Decimal) : Prop := ∃ d', Alike d' d ∧ digitCount d'.coefficient ≤ precision

/-- The size is at least the power of ten after the greatest. -/
def Overflows (d : Decimal) : Prop := 10 ^ (greatestPower + 1) ≤ d.size

/-- The size is not zero, but at most half the least power of ten. -/
def Vanishes (d : Decimal) : Prop := 0 < d.size ∧ 2 * d.size ≤ 10 ^ leastPower

theorem Short.moved (h : d.Short) (places : Int) : (d.moved places).Short := by
  obtain ⟨d', halike, hdigits⟩ := h
  exact ⟨d'.moved places, halike.moved places, hdigits⟩

/-- A power of ten has one digit that matters. -/
theorem short_pow (negative : Bool) (k : Nat) : (⟨negative, 10 ^ k, 0⟩ : Decimal).Short := by
  refine ⟨⟨negative, 1, k⟩, ⟨k, 0, ?_⟩, show digitCount 1 ≤ precision by decide⟩
  rw [padded_zero, padded, Nat.one_mul, Int.sub_self]

/-! ## Sizes -/

theorem size_pos (hc : d.coefficient ≠ 0) : 0 < d.size :=
  mul_pos (Nat.cast_pos.2 (Nat.pos_of_ne_zero hc)) (zpow_pos (by norm_num) _)

theorem size_of_zero (hc : d.coefficient = 0) : d.size = 0 := by rw [size, hc, Nat.cast_zero, zero_mul]

/-- The first digit says which powers of ten the size reaches. -/
theorem zpow_le_size_iff (hc : d.coefficient ≠ 0) (k : Int) : 10 ^ k ≤ d.size ↔ k ≤ d.leading := by
  have hpos := digitCount_pos d.coefficient
  have hpower : (0 : ℚ) < 10 ^ d.exponent := zpow_pos (by norm_num) _
  have hlow : ((10 : ℚ) ^ (digitCount d.coefficient - 1)) ≤ d.coefficient := by
    exact_mod_cast pow_le_of_digitCount hc
  have hhigh : (d.coefficient : ℚ) < 10 ^ digitCount d.coefficient := by
    exact_mod_cast lt_pow_digitCount d.coefficient
  unfold size leading
  constructor
  · intro h
    refine Int.le_of_lt_add_one ?_
    rw [← zpow_lt_zpow_iff_right₀ (show (1 : ℚ) < 10 by norm_num)]
    calc (10 : ℚ) ^ k ≤ d.coefficient * 10 ^ d.exponent := h
      _ < 10 ^ digitCount d.coefficient * 10 ^ d.exponent := mul_lt_mul_of_pos_right hhigh hpower
      _ = 10 ^ (d.exponent + digitCount d.coefficient - 1 + 1) := by
        rw [← zpow_natCast, ← zpow_add₀ (by norm_num)]
        congr 1
        omega
  · intro h
    calc (10 : ℚ) ^ k ≤ 10 ^ (d.exponent + digitCount d.coefficient - 1) := zpow_le_zpow_right₀ (by norm_num) h
      _ = 10 ^ (digitCount d.coefficient - 1) * 10 ^ d.exponent := by
        rw [← zpow_natCast, ← zpow_add₀ (by norm_num)]
        congr 1
        omega
      _ ≤ d.coefficient * 10 ^ d.exponent := mul_le_mul_of_nonneg_right hlow (le_of_lt hpower)

theorem overflows_iff (d : Decimal) : d.Overflows ↔ d.coefficient ≠ 0 ∧ greatestPower < d.leading := by
  by_cases hc : d.coefficient = 0
  · have hpower : (0 : ℚ) < 10 ^ (greatestPower + 1) := zpow_pos (by norm_num) _
    refine iff_of_false ?_ fun h => h.1 hc
    rw [Overflows, size_of_zero hc]
    exact not_le.2 hpower
  · rw [Overflows, zpow_le_size_iff hc, Int.add_one_le_iff]
    exact (and_iff_right hc).symm

/-- A decimal below one is whole only when it is zero. -/
theorem isWhole_of_leading_neg (h : d.leading < 0) : d.isWhole = true ↔ d.coefficient = 0 := by
  have hpos := digitCount_pos d.coefficient
  unfold leading at h
  rw [isWhole, if_neg (by omega), if_pos (by omega), beq_iff_eq]

/-! ## Rounding off digits -/

@[simp] theorem withoutDigits_negative (d : Decimal) (n : Nat) : (d.withoutDigits n).negative = d.negative := by
  simp only [withoutDigits, apply_ite negative, ite_self]

/-- No digit is left of what is at most half a unit. -/
theorem roundDiv_eq_zero_iff {a b : Nat} (hb : 0 < b) : roundDiv a b = 0 ↔ 2 * a ≤ b := by
  rcases Nat.lt_or_ge a b with hlt | hge
  · have hdiv := Nat.div_eq_of_lt hlt
    have hmod := Nat.mod_eq_of_lt hlt
    unfold roundDiv
    rw [hdiv, hmod]
    dsimp only
    split
    · omega
    · split
      · omega
      · rw [if_pos rfl]
        omega
  · have hquotient := Nat.div_pos hge hb
    rcases roundDiv_cases a b with ⟨h, -⟩ | ⟨h, -⟩ <;> omega

theorem withoutDigits_coefficient_eq_zero_iff (d : Decimal) (n : Nat) :
    (d.withoutDigits n).coefficient = 0 ↔ 2 * d.coefficient ≤ 10 ^ n := by
  have hpos : 0 < 10 ^ n := Nat.pow_pos (by decide)
  unfold withoutDigits
  split
  · next h => rw [h, Nat.pow_zero]; omega
  · next hn =>
    dsimp only
    by_cases hlt : digitCount d.coefficient < n
    · have hless := Nat.lt_of_lt_of_le (lt_pow_digitCount d.coefficient)
        (Nat.pow_le_pow_right (show 0 < 10 by decide) (Nat.le_sub_one_of_lt hlt))
      have hpower : 10 ^ n = 10 ^ (n - 1) * 10 := by rw [← Nat.pow_succ, Nat.succ_eq_add_one, Nat.sub_add_cancel (by omega)]
      rw [if_pos hlt, if_neg (by decide)]
      exact iff_of_true rfl (by omega)
    · rw [if_neg hlt, ← roundDiv_eq_zero_iff hpos]
      split
      · next h =>
        rw [h]
        exact iff_of_false (Nat.ne_of_gt (Nat.pow_pos (by decide))) (by decide)
      · rfl

/-- What a decimal is too long by is less than it; so no digit is left only for the least power of ten. -/
theorem le_pow_excess_iff (hc : d.coefficient ≠ 0) :
    2 * d.coefficient ≤ 10 ^ d.excess ↔ 2 * d.coefficient ≤ 10 ^ (leastPower - d.exponent).toNat := by
  have hten : ∀ {m n : Nat}, m ≤ n → 10 ^ m ≤ 10 ^ n := fun h => Nat.pow_le_pow_right (by decide) h
  have hlength : 10 ^ (digitCount d.coefficient - precision) ≤ d.coefficient :=
    Nat.le_trans (hten (Nat.sub_le_sub_left (by decide) _)) (pow_le_of_digitCount hc)
  refine ⟨fun h => ?_, fun h => Nat.le_trans h (hten (Nat.le_max_right _ _))⟩
  unfold excess at h
  rcases Nat.le_total (digitCount d.coefficient - precision) (leastPower - d.exponent).toNat with hle | hle
  · rwa [Nat.max_eq_right hle] at h
  · rw [Nat.max_eq_left hle] at h
    omega

/-- No digit is left exactly of what is at most half the least power of ten. -/
theorem vanishes_iff (hc : d.coefficient ≠ 0) : d.Vanishes ↔ (d.withoutDigits d.excess).coefficient = 0 := by
  have hpower : (0 : ℚ) < 10 ^ d.exponent := zpow_pos (by norm_num) _
  rw [withoutDigits_coefficient_eq_zero_iff, le_pow_excess_iff hc, Vanishes, and_iff_right (size_pos hc)]
  rcases Int.le_total leastPower d.exponent with he | he
  · have hreach : 10 ^ leastPower ≤ d.size := by
      have := digitCount_pos d.coefficient
      rw [zpow_le_size_iff hc]
      unfold leading
      omega
    have := size_pos hc
    rw [show (leastPower - d.exponent).toNat = 0 by omega, Nat.pow_zero]
    exact iff_of_false (by linarith) (by omega)
  · have hsplit : (10 : ℚ) ^ leastPower = 10 ^ (leastPower - d.exponent).toNat * 10 ^ d.exponent := by
      rw [← zpow_natCast, ← zpow_add₀ (by norm_num)]
      congr 1
      omega
    rw [size, hsplit, ← mul_assoc, mul_le_mul_iff_left₀ hpower]
    exact_mod_cast Iff.rfl

/-! ## Results -/

/-- What arithmetic makes of a decimal of few digits that is not too large: its own value, or what is left of it
far below one. -/
theorem Short.fitted (h : d.Short) (hfits : ¬ d.Overflows) :
    ∃ r, d.fitted = some r ∧
      (Alike d r ∧ ¬ d.Vanishes ∨ d.coefficient ≠ 0 ∧ d.leading < -1000 ∧ r = d.withoutDigits d.excess) := by
  have hgreat : greatestPower = 999999 := rfl
  have hleast : leastPower = -1000026 := rfl
  have hprecision : precision = 28 := rfl
  obtain ⟨d', halike, hdigits⟩ := h
  by_cases hc : d.coefficient = 0
  · refine ⟨_, if_pos hc, .inl ⟨alike_of_zero rfl hc hc, fun hsmall => ?_⟩⟩
    rw [Vanishes, size_of_zero hc] at hsmall
    exact lt_irrefl _ hsmall.1
  have hhigh : d.leading ≤ greatestPower := Int.not_lt.1 fun hlt => hfits ((overflows_iff d).2 ⟨hc, hlt⟩)
  by_cases hnear : -1000 ≤ d.leading
  · have hleading := halike.symm.leading hc
    have hlow : leastPower ≤ d'.exponent := by
      unfold leading at hleading hnear
      omega
    obtain ⟨r, hr, hvalue⟩ := halike.fitted hdigits hlow (by omega)
    refine ⟨r, hr, .inl ⟨halike.symm.trans hvalue, fun hsmall => ?_⟩⟩
    have hreach : (10 : ℚ) ^ leastPower ≤ d.size := (zpow_le_size_iff hc _).2 (by omega)
    linarith [hsmall.1, hsmall.2]
  · obtain ⟨r, hr⟩ := fitted_isSome (d := d) (by omega)
    refine ⟨r, hr, .inr ⟨hc, by omega, ?_⟩⟩
    unfold Decimal.fitted at hr
    rw [if_neg hc, if_neg (by omega)] at hr
    dsimp only at hr
    split at hr
    · exact absurd hr (by simp)
    · exact (Option.some.inj hr).symm

/-- **A decimal has no result** exactly when it is too large for one. -/
theorem Short.fitted_eq_none_iff (h : d.Short) : d.fitted = none ↔ d.Overflows := by
  constructor
  · intro hnone
    refine Classical.byContradiction fun hfits => ?_
    obtain ⟨r, hr, -⟩ := h.fitted hfits
    exact absurd (hnone.symm.trans hr) (by simp)
  · intro hover
    obtain ⟨hc, hhigh⟩ := (overflows_iff d).1 hover
    rw [Decimal.fitted, if_neg hc, if_pos hhigh]

theorem Short.fitted_some (h : d.Short) (hr : d.fitted = some r) :
    Alike d r ∧ ¬ d.Vanishes ∨ d.coefficient ≠ 0 ∧ d.leading < -1000 ∧ r = d.withoutDigits d.excess := by
  have hfits : ¬ d.Overflows := fun hover => by
    rw [h.fitted_eq_none_iff.2 hover] at hr
    exact absurd hr (by simp)
  obtain ⟨r', hr', hcases⟩ := h.fitted hfits
  rwa [Option.some.inj (hr.symm.trans hr')]

/-- Far below one the first digit stays there. -/
theorem leading_withoutDigits_lt (h : d.leading < -1000) : (d.withoutDigits d.excess).leading < -330 := by
  have hleast : leastPower = -1000026 := rfl
  have hprecision : precision = 28 := rfl
  have hpos := digitCount_pos d.coefficient
  have hle := leading_withoutDigits_le d d.excess
  have hexcess : d.exponent + d.excess ≤ max d.leading leastPower := by
    unfold excess leading
    omega
  omega

/-- **The double of a result** is that of the decimal. -/
theorem Short.ofDecimal_fitted (h : d.Short) (hr : d.fitted = some r) : Double.ofDecimal r = Double.ofDecimal d := by
  rcases h.fitted_some hr with ⟨halike, -⟩ | ⟨-, hfar, rfl⟩
  · exact (Double.ofDecimal_alike halike).symm
  · have hfar' := leading_withoutDigits_lt hfar
    rw [Double.ofDecimal, if_pos (by simp [hfar']), Double.ofDecimal, if_pos (by simp; omega), withoutDigits_negative]

/-- **The whole part of a result**: nothing is left of what vanishes, and anything else is as whole as it was. -/
theorem Short.truncate_fitted (h : d.Short) (hr : d.fitted = some r) :
    (d.Vanishes → r.isWhole = true ∧ r.truncate = 0) ∧
      (¬ d.Vanishes → r.isWhole = d.isWhole ∧ (d.isWhole = true → r.truncate = d.truncate)) := by
  rcases h.fitted_some hr with ⟨halike, hstays⟩ | ⟨hc, hfar, rfl⟩
  · exact ⟨fun hsmall => absurd hsmall hstays, fun _ => ⟨halike.isWhole.symm, fun _ => halike.truncate.symm⟩⟩
  · have hfar' := leading_withoutDigits_lt hfar
    have hwhole := isWhole_of_leading_neg (d := d.withoutDigits d.excess) (by omega)
    have hwhole' := isWhole_of_leading_neg (d := d) (by omega)
    rw [vanishes_iff hc]
    refine ⟨fun hsmall => ⟨hwhole.2 hsmall, ?_⟩, fun hstays => ⟨?_, fun h => absurd (hwhole'.1 h) hc⟩⟩
    · simp [truncate, hsmall]
    · rw [Bool.eq_iff_iff]
      exact iff_of_false (fun h => hstays (hwhole.1 h)) (fun h => hc (hwhole'.1 h))

end Decimal
end EquityScreen
