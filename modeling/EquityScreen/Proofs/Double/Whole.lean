/-
How large the shortest decimal of a double is, and when it is whole.

It has at most eighteen digits (`digitCount_toDecimal`), and lies close above the double at most. So a double
up to `2 ^ 53` that is written as a whole decimal is that whole number (`truncate_toDecimal`).
-/
import EquityScreen.Proofs.Double.Reading

namespace EquityScreen

open Decimal (digitCount digitCount_pos digitCount_le_iff digitCount_mono)

/-! ## Whole decimals -/

namespace Decimal

variable {d : Decimal}

/-- A whole decimal is alike to the number that it is. -/
theorem alike_truncate (h : d.isWhole = true) : Alike d ⟨d.negative, d.truncate.natAbs, 0⟩ := by
  have hdvd := (isWhole_iff d).1 h
  rw [natAbs_truncate]
  split
  · next he =>
    refine ⟨d.exponent.toNat, 0, ?_⟩
    simp only [padded, Nat.pow_zero, Nat.mul_one, mk.injEq, true_and]
    omega
  · next he =>
    refine ⟨0, (-d.exponent).toNat, ?_⟩
    simp only [padded, Nat.pow_zero, Nat.mul_one, Nat.div_mul_cancel hdvd, mk.injEq, true_and]
    omega

/-- A whole decimal as a multiple of a power of ten. -/
theorem coefficient_mul_of_isWhole (h : d.isWhole = true) :
    d.coefficient * (Double.tenPower d.exponent).1 = d.truncate.natAbs * (Double.tenPower d.exponent).2 := by
  have hdvd := (isWhole_iff d).1 h
  rw [natAbs_truncate]
  unfold Double.tenPower
  split
  · exact (Nat.mul_one _).symm
  · exact (Nat.mul_one _).trans (Nat.div_mul_cancel hdvd).symm

end Decimal

namespace Double

variable {steps : Nat}

/-! ## The size of the shortest decimal -/

/-- A number whose first digit is below a power of ten is smaller than that; `s` steps make one. -/
theorem lt_tenPower_mul {n a b s : Nat} (h : steps * 10 ^ a < 10 ^ n * s) :
    steps * (tenPower ((n : Int) - a - b)).2 < 10 ^ b * ((tenPower ((n : Int) - a - b)).1 * s) := by
  refine Nat.lt_of_mul_lt_mul_right (a := 10 ^ a) ?_
  unfold tenPower
  split
  · dsimp only
    have hpow : 10 ^ n = 10 ^ b * 10 ^ ((n : Int) - a - b).toNat * 10 ^ a := by
      rw [← Nat.pow_add, ← Nat.pow_add]
      congr 1
      omega
    rw [hpow] at h
    calc steps * 1 * 10 ^ a = steps * 10 ^ a := by rw [Nat.mul_one]
      _ < 10 ^ b * 10 ^ ((n : Int) - a - b).toNat * 10 ^ a * s := h
      _ = 10 ^ b * (10 ^ ((n : Int) - a - b).toNat * s) * 10 ^ a := by
        rw [Nat.mul_right_comm _ (10 ^ a), Nat.mul_assoc (10 ^ b)]
  · dsimp only
    have hpow : 10 ^ n * 10 ^ (-((n : Int) - a - b)).toNat = 10 ^ b * 10 ^ a := by
      rw [← Nat.pow_add, ← Nat.pow_add]
      congr 1
      omega
    calc steps * 10 ^ (-((n : Int) - a - b)).toNat * 10 ^ a
        = steps * 10 ^ a * 10 ^ (-((n : Int) - a - b)).toNat := Nat.mul_right_comm ..
      _ < 10 ^ n * s * 10 ^ (-((n : Int) - a - b)).toNat := Nat.mul_lt_mul_of_pos_right h (Nat.pow_pos (by decide))
      _ = 10 ^ b * (1 * s) * 10 ^ a := by
        rw [Nat.one_mul, Nat.mul_right_comm, hpow, Nat.mul_right_comm]

/-- What is found for a number of digits has no more of them, or is the power of ten after them. -/
theorem digitCount_found {n c : Nat} (h : candidate? steps (lastPlace steps n) = some c) : digitCount c ≤ n + 1 := by
  have hlt : steps * 10 ^ 324 < 10 ^ digitCount (steps * 10 ^ 324 / stepsPerOne) * stepsPerOne :=
    (Nat.div_lt_iff_lt_mul stepsPerOne_pos).1 (Decimal.lt_pow_digitCount _)
  have hplace : lastPlace steps n = (digitCount (steps * 10 ^ 324 / stepsPerOne) : Int) - (324 : Nat) - n := by
    unfold lastPlace firstPlace
    omega
  have hquotient := lt_tenPower_mul (b := n) hlt
  rw [← hplace] at hquotient
  have hpos := Nat.mul_pos (tenPower_pos (lastPlace steps n)).1 stepsPerOne_pos
  have hc := (candidate?_cases h).2.2
  have hfloor := (Nat.div_lt_iff_lt_mul hpos).2 hquotient
  have hten : 10 ^ n < 10 ^ (n + 1) := Nat.pow_lt_pow_right (by decide) (Nat.lt_succ_self n)
  rw [digitCount_le_iff (Nat.succ_pos n)]
  exact Nat.lt_of_le_of_lt hc (Nat.lt_of_le_of_lt hfloor hten)

/-- **The shortest decimal** has few digits. -/
theorem digitCount_toDecimal (negative : Bool) (steps : Nat) : digitCount (toDecimal negative steps).coefficient ≤ 18 := by
  by_cases hne : steps = 0
  · subst hne
    rw [toDecimal_zero]
    cases negative <;> decide
  · rw [toDecimal_of_ne negative hne]
    obtain ⟨n, c, -, hn, heq, hc, -⟩ := search_spec (fun n => candidate? steps (lastPlace steps n)) 16 1
    have hcount : digitCount c ≤ 18 := by
      rcases hc with hc | ⟨-, rfl, -⟩
      · have := digitCount_found hc
        omega
      · decide
    have hstrip := (stripZeros_spec 20 c).1
    rw [shortest_eq heq]
    refine Nat.le_trans (digitCount_mono ?_) hcount
    conv => rhs; rw [← hstrip]
    exact Nat.le_mul_of_pos_right _ (Nat.pow_pos (by decide))

/-- The bounds of the shortest decimal: half a unit above the double, and twice the double. -/
theorem shortest_bounds (hne : steps ≠ 0) (fits : Fits steps) {c : Nat} {k : Int} (hs : shortest steps = (c, k)) :
    c ≠ 0 ∧ 4 * (c * (tenPower k).1 * stepsPerOne) ≤ (4 * steps + 2 * 2 ^ place steps) * (tenPower k).2 ∧
      c * (tenPower k).1 * stepsPerOne ≤ 2 * steps * (tenPower k).2 := by
  have h := units_of_fits hne fits
  have hholds := holds_shortest hne fits
  rw [hs] at hholds
  obtain ⟨hlow, hhigh, -⟩ := (holds_iff h).1 hholds
  have hq := (tenPower_pos k).2
  have hunit : 2 ^ place steps ≤ steps :=
    calc 2 ^ place steps ≤ steps / 2 ^ place steps * 2 ^ place steps :=
          Nat.le_mul_of_pos_left _ (Nat.pos_of_ne_zero fun h0 => hne (by rw [h.eq, h0, Nat.zero_mul]))
      _ = steps := h.eq.symm
  refine ⟨?_, hhigh, ?_⟩
  · rintro rfl
    have hgap := gapBelow_le h hne
    have hpos := Nat.mul_pos (show 0 < 4 * steps - gapBelow (steps / 2 ^ place steps) (place steps) by omega) hq
    simp only [Nat.zero_mul, Nat.mul_zero] at hlow
    omega
  · have hdouble : (4 * steps + 2 * 2 ^ place steps) * (tenPower k).2 ≤ 4 * (2 * steps * (tenPower k).2) := by
      rw [← Nat.mul_assoc]
      exact Nat.mul_le_mul_right _ (by omega)
    exact Nat.le_of_mul_le_mul_left (Nat.le_trans hhigh hdouble) (by decide)

/-- The decimal of a double up to `2 ^ 53` has at most 28 digits before the point. -/
theorem leading_toDecimal (negative : Bool) (fits : Fits steps) (hsmall : steps ≤ 2 ^ 53 * stepsPerOne) :
    (toDecimal negative steps).leading < 28 := by
  by_cases hne : steps = 0
  · subst hne
    rw [toDecimal_zero]
    cases negative <;> decide
  · obtain ⟨c, k, hs⟩ : ∃ c k, shortest steps = (c, k) := ⟨_, _, rfl⟩
    obtain ⟨hc, -, hle⟩ := shortest_bounds hne fits hs
    have hq := (tenPower_pos k).2
    rw [toDecimal_of_ne negative hne, hs]
    refine Int.not_le.1 fun hlead => ?_
    have hpow := Nat.mul_le_mul_right stepsPerOne (pow_mul_le (n := 28) hc hlead)
    have hlarge : 10 ^ 28 * stepsPerOne ≤ 2 * steps := by
      refine Nat.le_of_mul_le_mul_right ?_ hq
      rw [Nat.mul_right_comm]
      exact Nat.le_trans hpow hle
    have hpos := stepsPerOne_pos
    generalize stepsPerOne = s at *
    omega

/-! ## Whole doubles -/

theorem fits_whole {n : Nat} (hn : n ≤ 2 ^ 53) : Fits (n * stepsPerOne) := by
  have h := fits_mul (s := 1074) hn
  rw [stepsPerOne]
  exact h

/-- The unit of a double up to `2 ^ 53` is one at most. -/
theorem two_pow_place_le (hne : steps ≠ 0) (hlt : steps < 2 ^ 53 * stepsPerOne) : 2 ^ place steps ≤ stepsPerOne := by
  obtain ⟨s, hs⟩ : ∃ s, stepsPerOne = 2 ^ s := ⟨1074, rfl⟩
  rw [hs, ← Nat.pow_add] at hlt
  have hlog := (Nat.log2_lt hne).2 hlt
  rw [hs]
  exact Nat.pow_le_pow_right (by decide) (by unfold place; omega)

/-- A whole number up to `2 ^ 53` is a double. -/
theorem ofDecimal_whole (negative : Bool) {n : Nat} (hn : n ≤ 2 ^ 53) (below : n * stepsPerOne < stepLimit) :
    ofDecimal ⟨negative, n, 0⟩ = .finite negative (n * stepsPerOne) below (fits_whole hn) := by
  by_cases hzero : n = 0
  · subst hzero
    simp [ofDecimal, zero]
  · have hne : n * stepsPerOne ≠ 0 := Nat.mul_ne_zero hzero (Nat.ne_of_gt stepsPerOne_pos)
    have hcount : digitCount n ≤ 16 := (digitCount_le_iff (by decide)).2 (Nat.lt_of_le_of_lt hn (by decide))
    have hpos := digitCount_pos n
    have hunits := units_of_fits hne (fits_whole hn)
    have hgap : 0 < gapBelow (n * stepsPerOne / 2 ^ place (n * stepsPerOne)) (place (n * stepsPerOne)) := by
      have := Nat.two_pow_pos (place (n * stepsPerOne))
      unfold gapBelow
      split <;> omega
    have hunit := Nat.two_pow_pos (place (n * stepsPerOne))
    rw [ofDecimal_eq_ofRatio hzero (by unfold Decimal.leading; dsimp only; omega)
      (by unfold Decimal.leading; dsimp only; omega)]
    refine ofRatio_of_inside negative hne below (fits_whole hn) Nat.one_pos hunits ?_ ?_ (.inr ⟨?_, ?_⟩) <;>
      simp only [tenPower, Int.le_refl, if_true, Int.toNat_zero, Nat.pow_zero, Nat.mul_one] <;> omega

/-- The decimal of `2 ^ 53`. -/
theorem shortest_greatest : shortest (2 ^ 53 * stepsPerOne) = (9007199254740992, 0) := by decide +kernel

/-- What the decimal of a double is written as before the point is no more than `2 ^ 53` when the double
is not. -/
theorem natAbs_truncate_le {negative : Bool} {c : Nat} {k : Int} (hne : steps ≠ 0) (fits : Fits steps)
    (hsmall : steps ≤ 2 ^ 53 * stepsPerOne) (hs : shortest steps = (c, k))
    (h : (⟨negative, c, k⟩ : Decimal).isWhole = true) : (⟨negative, c, k⟩ : Decimal).truncate.natAbs ≤ 2 ^ 53 := by
  have hmul := Decimal.coefficient_mul_of_isWhole h
  generalize (⟨negative, c, k⟩ : Decimal).truncate.natAbs = n at hmul ⊢
  dsimp only at hmul
  rcases Nat.lt_or_eq_of_le hsmall with hlt | heq
  · obtain ⟨-, hhigh, -⟩ := shortest_bounds hne fits hs
    have hq := (tenPower_pos k).2
    have hplace := two_pow_place_le hne hlt
    have hvalue : 4 * (n * stepsPerOne) ≤ 4 * steps + 2 * 2 ^ place steps := by
      refine Nat.le_of_mul_le_mul_right ?_ hq
      rw [hmul, Nat.mul_right_comm n] at hhigh
      rwa [Nat.mul_assoc]
    refine Nat.not_lt.1 fun hlarge => ?_
    have hmore := Nat.mul_le_mul_right stepsPerOne (Nat.succ_le_of_lt hlarge)
    have hpos := stepsPerOne_pos
    generalize stepsPerOne = s at *
    omega
  · rw [heq, shortest_greatest] at hs
    obtain ⟨rfl, rfl⟩ := Prod.mk.inj hs
    simp only [tenPower, Int.le_refl, if_true, Int.toNat_zero, Nat.pow_zero, Nat.mul_one] at hmul
    exact Nat.le_of_eq hmul.symm

/-- **A double that is written as a whole decimal** is that whole number. -/
theorem truncate_toDecimal (negative : Bool) (below : steps < stepLimit) (fits : Fits steps)
    (hsmall : steps ≤ 2 ^ 53 * stepsPerOne) (h : (toDecimal negative steps).isWhole = true) :
    (toDecimal negative steps).truncate * stepsPerOne = signedSteps negative steps := by
  have hback := ofDecimal_toDecimal negative below fits
  by_cases hne : steps = 0
  · subst hne
    have hzero : (⟨negative, 0, 0⟩ : Decimal).truncate = 0 := by cases negative <;> rfl
    rw [toDecimal_zero, hzero, Int.zero_mul]
    cases negative <;> rfl
  · obtain ⟨c, k, hs⟩ : ∃ c k, shortest steps = (c, k) := ⟨_, _, rfl⟩
    rw [toDecimal_of_ne negative hne, hs] at h hback ⊢
    have hn := natAbs_truncate_le hne fits hsmall hs h
    have hlimit : (⟨negative, c, k⟩ : Decimal).truncate.natAbs * stepsPerOne < stepLimit :=
      Nat.lt_of_le_of_lt (Nat.mul_le_mul_right _ hn) (by decide +kernel)
    have hwhole := ofDecimal_whole negative hn hlimit
    rw [← ofDecimal_alike (Decimal.alike_truncate h), hback] at hwhole
    have hsteps := (finite.inj hwhole).2
    rw [Decimal.truncate_eq, signedSteps, hsteps]
    dsimp only
    split
    · rw [Int.neg_mul, Int.natCast_mul]
    · rw [Int.natCast_mul]

end Double

end EquityScreen
