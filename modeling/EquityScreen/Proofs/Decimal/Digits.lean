/-
How many digits a number has, and what is left of a decimal as a result of arithmetic.

* `digitCount_le_iff`: a number has at most so many digits exactly below that power of ten.
* `fitted_some`: a result keeps at least one digit and at most 28 of them.
* `shift_fitted`: moving the point to the left of a decimal moves that of its result.
* `pow_le_natAbs_truncate`: the first digit says which powers of ten the whole part reaches.
-/
import EquityScreen.Decimal

namespace EquityScreen
namespace Decimal

/-! ## Numbers of digits -/

theorem digitCount_pos (n : Nat) : 0 < digitCount n := Nat.succ_pos _

theorem laterDigits_lt_iff {level n k : Nat} (hn : n < 10 ^ 2 ^ level) (hk : 0 < k) :
    laterDigits level n < k ↔ n < 10 ^ k := by
  induction level generalizing n k with
  | zero => exact iff_of_true hk (Nat.lt_of_lt_of_le hn (Nat.pow_le_pow_right (by decide) hk))
  | succ level ih =>
    simp only [laterDigits]
    split
    · next hlow => exact ih hlow hk
    · next hhigh =>
      have hpow := Nat.pow_pos (n := 2 ^ level) (show 0 < 10 by decide)
      have hquotient : n / 10 ^ 2 ^ level < 10 ^ 2 ^ level := by
        rw [Nat.div_lt_iff_lt_mul hpow, ← Nat.pow_add, ← Nat.two_mul, ← Nat.pow_succ']
        exact hn
      rcases Nat.lt_or_ge (2 ^ level) k with hlt | hge
      · obtain ⟨m, rfl⟩ := Nat.exists_eq_add_of_lt hlt
        have := ih hquotient (Nat.succ_pos m)
        rw [Nat.div_lt_iff_lt_mul hpow, ← Nat.pow_add] at this
        rw [show 2 ^ level + m + 1 = m + 1 + 2 ^ level by omega, ← this]
        omega
      · have hle := Nat.pow_le_pow_right (show 0 < 10 by decide) hge
        exact iff_of_false (by omega) (by omega)

theorem digitCount_le_iff {n k : Nat} (hk : 0 < k) : digitCount n ≤ k ↔ n < 10 ^ k := by
  refine laterDigits_lt_iff (Nat.lt_of_lt_of_le Nat.lt_log2_self ?_) hk
  exact Nat.le_trans (Nat.pow_le_pow_left (by decide) _)
    (Nat.pow_le_pow_right (by decide) (Nat.le_of_lt Nat.lt_log2_self))

theorem lt_pow_digitCount (n : Nat) : n < 10 ^ digitCount n :=
  (digitCount_le_iff (digitCount_pos n)).1 (Nat.le_refl _)

/-- A positive number has more than `k` digits from `10 ^ k` on. -/
theorem lt_digitCount_iff {n k : Nat} (hn : n ≠ 0) : k < digitCount n ↔ 10 ^ k ≤ n := by
  rcases Nat.eq_zero_or_pos k with rfl | hk
  · have := digitCount_pos n
    simp only [Nat.pow_zero]
    omega
  · have := digitCount_le_iff (n := n) hk
    omega

theorem pow_le_of_digitCount {n : Nat} (hn : n ≠ 0) : 10 ^ (digitCount n - 1) ≤ n := by
  have := digitCount_pos n
  exact (lt_digitCount_iff hn).1 (by omega)

theorem digitCount_mono {m n : Nat} (h : m ≤ n) : digitCount m ≤ digitCount n :=
  (digitCount_le_iff (digitCount_pos n)).2 (Nat.lt_of_le_of_lt h (lt_pow_digitCount n))

/-- Zeros at the end count as digits. -/
theorem digitCount_mul_pow {n : Nat} (hn : n ≠ 0) (k : Nat) :
    digitCount (n * 10 ^ k) = digitCount n + k := by
  have hpos := Nat.pow_pos (n := k) (show 0 < 10 by decide)
  have hne : n * 10 ^ k ≠ 0 := Nat.mul_ne_zero hn (by omega)
  have hlow : digitCount n + k - 1 < digitCount (n * 10 ^ k) := by
    rw [lt_digitCount_iff hne]
    have h := digitCount_pos n
    rw [show digitCount n + k - 1 = digitCount n - 1 + k by omega, Nat.pow_add]
    exact Nat.mul_le_mul_right _ (pow_le_of_digitCount hn)
  have hhigh : digitCount (n * 10 ^ k) ≤ digitCount n + k := by
    rw [digitCount_le_iff (by have := digitCount_pos n; omega), Nat.pow_add]
    exact Nat.mul_lt_mul_of_pos_right (lt_pow_digitCount n) hpos
  omega

/-! ## Rounding off digits -/

/-- Rounding off digits leaves so many fewer, or a power of ten with one more. -/
theorem roundDiv_pow_le {c n : Nat} (hn : n ≤ digitCount c) :
    roundDiv c (10 ^ n) ≤ 10 ^ (digitCount c - n) := by
  refine roundDiv_le (Nat.pow_pos (by decide)) ?_
  rw [← Nat.pow_add, Nat.sub_add_cancel hn]
  exact Nat.le_of_lt (lt_pow_digitCount c)

/-- The digits in front of those rounded off do not become fewer. -/
theorem pow_le_roundDiv {c n : Nat} (hc : c ≠ 0) (hn : n < digitCount c) :
    10 ^ (digitCount c - n - 1) ≤ roundDiv c (10 ^ n) := by
  have hquotient : 10 ^ (digitCount c - n - 1) ≤ c / 10 ^ n := by
    rw [Nat.le_div_iff_mul_le (Nat.pow_pos (by decide)), ← Nat.pow_add,
      show digitCount c - n - 1 + n = digitCount c - 1 by omega]
    exact pow_le_of_digitCount hc
  rcases roundDiv_cases c (10 ^ n) with ⟨h, -⟩ | ⟨h, -⟩ <;> omega

theorem roundDiv_pow_pos {c n : Nat} (hc : c ≠ 0) (hn : n < digitCount c) : roundDiv c (10 ^ n) ≠ 0 := by
  have hpow := Nat.pow_pos (n := digitCount c - n - 1) (show 0 < 10 by decide)
  have hle := pow_le_roundDiv hc hn
  omega

/-- As many digits are left as are not rounded off, unless rounding up comes to a power of ten. -/
theorem digitCount_roundDiv {c n : Nat} (hc : c ≠ 0) (hn : n < digitCount c)
    (hne : roundDiv c (10 ^ n) ≠ 10 ^ (digitCount c - n)) :
    digitCount (roundDiv c (10 ^ n)) = digitCount c - n := by
  have hle := roundDiv_pow_le (Nat.le_of_lt hn)
  have hmost : digitCount (roundDiv c (10 ^ n)) ≤ digitCount c - n :=
    (digitCount_le_iff (by omega)).2 (by omega)
  have hleast : digitCount c - n - 1 < digitCount (roundDiv c (10 ^ n)) :=
    (lt_digitCount_iff (roundDiv_pow_pos hc hn)).2 (pow_le_roundDiv hc hn)
  omega

variable {d r : Decimal}

theorem excess_eq (h : leastPower ≤ d.exponent) : d.excess = digitCount d.coefficient - precision := by
  unfold excess
  omega

/-- What a result of a positive coefficient looks like. -/
theorem fitted_eq (hc : d.coefficient ≠ 0) (h : leastPower ≤ d.exponent) :
    d.fitted = if greatestPower < d.leading then none
      else
        let r := d.withoutDigits (digitCount d.coefficient - precision)
        if greatestPower < r.leading then none else some r := by
  unfold fitted
  rw [if_neg hc, excess_eq h]

/-- The digits that are kept: a positive number, of at most 28 digits. -/
theorem withoutDigits_spec (hc : d.coefficient ≠ 0) :
    let r := d.withoutDigits (digitCount d.coefficient - precision)
    r.coefficient ≠ 0 ∧ digitCount r.coefficient ≤ precision ∧ d.exponent ≤ r.exponent ∧
      d.leading ≤ r.leading ∧ r.leading ≤ d.leading + 1 := by
  have hpositive : 0 < precision := by decide
  have hten : digitCount (10 ^ (precision - 1)) = precision := by decide
  generalize hcount : digitCount d.coefficient - precision = count
  rw [withoutDigits]
  by_cases hnone : count = 0
  · rw [if_pos hnone]
    exact ⟨hc, by omega, by omega, by omega, by omega⟩
  have hless : count < digitCount d.coefficient := by omega
  have hleft : digitCount d.coefficient - count = precision := by omega
  rw [if_neg hnone, if_neg (Nat.lt_asymm hless)]
  dsimp only
  by_cases hup : roundDiv d.coefficient (10 ^ count) = 10 ^ precision
  · rw [if_pos hup]
    dsimp only [leading]
    rw [hten]
    exact ⟨by decide, Nat.le_refl _, by omega, by omega, by omega⟩
  · have hdigits : digitCount (roundDiv d.coefficient (10 ^ count)) = precision :=
      (digitCount_roundDiv hc hless (by rwa [hleft])).trans hleft
    rw [if_neg hup]
    dsimp only [leading]
    rw [hdigits]
    exact ⟨roundDiv_pow_pos hc hless, Nat.le_refl _, by omega, by omega, by omega⟩

/-- A result keeps a digit at least, and at most 28 of them; its first digit stands no further down. -/
theorem fitted_some (hc : d.coefficient ≠ 0) (h : leastPower ≤ d.exponent) (hr : d.fitted = some r) :
    r.coefficient ≠ 0 ∧ digitCount r.coefficient ≤ precision ∧ d.leading ≤ r.leading := by
  rw [fitted_eq hc h] at hr
  split at hr
  · exact absurd hr (by simp)
  · dsimp only at hr
    split at hr
    · exact absurd hr (by simp)
    · obtain ⟨h1, h2, -, h3, -⟩ := withoutDigits_spec hc
      rw [← Option.some.inj hr]
      exact ⟨h1, h2, h3⟩

/-- Rounding off digits moves the first digit by one place at most, unless no digit is left. -/
theorem leading_withoutDigits_le (d : Decimal) (n : Nat) :
    (d.withoutDigits n).leading ≤ max (d.leading + 1) (d.exponent + n) := by
  have hzero : digitCount 0 = 1 := by decide
  have hten : digitCount (10 ^ (precision - 1)) = precision := by decide
  unfold withoutDigits
  by_cases hn : n = 0
  · rw [if_pos hn]
    omega
  rw [if_neg hn]
  dsimp only
  by_cases hlt : digitCount d.coefficient < n
  · rw [if_pos hlt, if_neg (by decide)]
    dsimp only [leading]
    omega
  · rw [if_neg hlt]
    have hle := roundDiv_pow_le (Nat.not_lt.1 hlt)
    split
    · next heq =>
      rw [heq] at hle
      have hdigits := (Nat.pow_le_pow_iff_right (by decide)).1 hle
      dsimp only [leading]
      omega
    · have hcount : digitCount (roundDiv d.coefficient (10 ^ n)) ≤ digitCount d.coefficient - n + 1 := by
        rw [digitCount_le_iff (by omega)]
        exact Nat.lt_of_le_of_lt hle (Nat.pow_lt_pow_right (by decide) (Nat.lt_succ_self _))
      dsimp only [leading]
      omega

/-- Only a first digit beyond the greatest power, or just at it, is too far out for a result. -/
theorem fitted_isSome (hl : d.leading < greatestPower) : ∃ r, d.fitted = some r := by
  have hgreat : greatestPower = 999999 := rfl
  have hleast : leastPower = -1000026 := rfl
  have hprec : precision = 28 := rfl
  unfold fitted
  split
  · exact ⟨_, rfl⟩
  · next hc =>
    have hle := leading_withoutDigits_le d d.excess
    have hex : d.exponent + d.excess ≤ max d.leading leastPower := by
      have := digitCount_pos d.coefficient
      unfold excess leading
      omega
    rw [if_neg (by omega)]
    exact ⟨_, if_neg (by omega)⟩

/-- Moving the point gives a result unless the first digit comes to the greatest power. -/
theorem shift_isSome {places : Int} (h : d.leading + places < greatestPower) :
    ∃ r, d.shift places = some r :=
  fitted_isSome (by unfold leading at h ⊢; dsimp only; omega)

/-- A power of ten moved beyond the greatest has no result. -/
theorem shift_pow {zeros places : Nat} (hzeros : greatestPower < zeros + places) :
    (⟨false, 10 ^ zeros, 0⟩ : Decimal).shift places = none := by
  have hne : 10 ^ zeros ≠ 0 := Nat.ne_of_gt (Nat.pow_pos (by decide))
  have hcount : digitCount (10 ^ zeros) = 1 + zeros := by
    rw [← Nat.one_mul (10 ^ zeros), digitCount_mul_pow (by decide)]
    rfl
  rw [shift, fitted, if_neg hne, if_pos]
  simp only [leading, hcount]
  omega

theorem withoutDigits_exponent (d : Decimal) (e : Int) (n : Nat) :
    ({ d with exponent := e } : Decimal).withoutDigits n =
      { d.withoutDigits n with exponent := (d.withoutDigits n).exponent + (e - d.exponent) } := by
  simp only [withoutDigits]
  split
  · simp only [Decimal.mk.injEq, true_and]; omega
  · split
    · split <;> simp only [Decimal.mk.injEq, true_and] <;> omega
    · split <;> simp only [Decimal.mk.injEq, true_and] <;> omega

/-- Moving the point of a decimal to the left moves that of its result. -/
theorem shift_fitted (hc : d.coefficient ≠ 0) (places : Nat) (h : leastPower + places ≤ d.exponent)
    (hr : d.fitted = some r) :
    d.shift (-(places : Int)) = some { r with exponent := r.exponent - places } := by
  have hd := fitted_eq hc (show leastPower ≤ d.exponent by omega)
  have hs := fitted_eq (d := { d with exponent := d.exponent + -(places : Int) }) hc
    (show leastPower ≤ d.exponent + -(places : Int) by omega)
  rw [hr] at hd
  unfold shift
  rw [hs]
  dsimp only at hd ⊢
  rw [withoutDigits_exponent]
  split at hd
  · exact absurd hd (by simp)
  · next h1 =>
    split at hd
    · exact absurd hd (by simp)
    · next h2 =>
      have hrd := Option.some.inj hd
      rw [← hrd] at h2
      unfold leading at h1 h2 ⊢
      dsimp only
      rw [if_neg (by omega), ← hrd, if_neg (by omega)]
      congr 2
      omega

/-! ## Whole parts -/

/-- A decimal is whole when its digits after the point are zeros. -/
theorem isWhole_iff (d : Decimal) : d.isWhole = true ↔ 10 ^ (-d.exponent).toNat ∣ d.coefficient := by
  unfold isWhole
  split
  · next h => simp [show (-d.exponent).toNat = 0 by omega]
  · dsimp only
    split
    · next h =>
      rw [beq_iff_eq]
      constructor
      · intro h0
        rw [h0]
        exact Nat.dvd_zero _
      · intro hdvd
        have hpos := digitCount_pos d.coefficient
        have hlt := (digitCount_le_iff (by omega)).1 h
        exact Nat.eq_zero_of_dvd_of_lt hdvd hlt
    · rw [beq_iff_eq, Nat.dvd_iff_mod_eq_zero]

/-- The size of the whole part. -/
theorem natAbs_truncate (d : Decimal) :
    d.truncate.natAbs = if 0 ≤ d.exponent then d.coefficient * 10 ^ d.exponent.toNat
      else d.coefficient / 10 ^ (-d.exponent).toNat := by
  unfold truncate
  dsimp only
  by_cases hc : d.coefficient = 0
  · simp [hc]
  · rw [if_neg hc]
    split
    · rw [Int.natAbs_neg, Int.natAbs_natCast]
    · rw [Int.natAbs_natCast]

/-- The first digit says which powers of ten the whole part reaches. -/
theorem pow_le_natAbs_truncate {d : Decimal} (hc : d.coefficient ≠ 0) (k : Nat) :
    10 ^ k ≤ d.truncate.natAbs ↔ (k : Int) ≤ d.leading := by
  rw [natAbs_truncate]
  unfold leading
  split
  · next he =>
    have hpos := Nat.pow_pos (n := d.exponent.toNat) (show 0 < 10 by decide)
    rw [← lt_digitCount_iff (Nat.mul_ne_zero hc (by omega)), digitCount_mul_pow hc]
    omega
  · rw [Nat.le_div_iff_mul_le (Nat.pow_pos (by decide)), ← Nat.pow_add, ← lt_digitCount_iff hc]
    omega

end Decimal
end EquityScreen
