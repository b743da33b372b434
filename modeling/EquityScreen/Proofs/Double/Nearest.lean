/-
The double nearest to a quotient and to a decimal.

`Double.Nearest v n` says that `n` steps are nearest to `v` steps: of all numbers of steps with 53 binary digits,
however large, none is nearer, and of two as near it is the even one. A double rounds a value (`Double.Rounds`)
when it has the nearest number of steps, or is infinite because that number is beyond the largest double.

* `rounds_ofRatio`: the double of a quotient rounds it.
* `rounds_ofDecimal`: the double of a decimal rounds its size, whatever its power of ten.
-/
import EquityScreen.Proofs.Decimal.Value
import EquityScreen.Proofs.Double.Reading
import Mathlib.Algebra.Order.Field.Basic

namespace EquityScreen

/-! ## Quotients -/

/-- How far two numbers are apart. -/
def gap (x y : Nat) : Nat := x - y + (y - x)

/-- **No multiple is nearer** than the rounded quotient, and of two as near that is the even one. -/
theorem roundDiv_nearest {a d : Nat} (hd : 0 < d) (k : Nat) :
    gap a (roundDiv a d * d) ≤ gap a (k * d) ∧
      (k ≠ roundDiv a d → gap a (k * d) = gap a (roundDiv a d * d) → roundDiv a d % 2 = 0) := by
  have hsplit : a / d * d + a % d = a := by rw [Nat.mul_comm]; exact Nat.div_add_mod a d
  have hmod := Nat.mod_lt a hd
  have hsucc : (a / d + 1) * d = a / d * d + d := Nat.succ_mul _ _
  -- A multiple lies at or below the quotient's whole part, or above it.
  have hbelow : k ≤ a / d → k * d ≤ a / d * d := fun h => Nat.mul_le_mul_right d h
  have habove : a / d < k → a / d * d + d ≤ k * d := fun h => hsucc ▸ Nat.mul_le_mul_right d h
  have hless : k < a / d → k * d + d ≤ a / d * d := fun h => by
    rw [← Nat.succ_mul]
    exact Nat.mul_le_mul_right d h
  have hmore : a / d + 1 < k → a / d * d + d + d ≤ k * d := fun h => by
    rw [← hsucc, ← Nat.succ_mul]
    exact Nat.mul_le_mul_right d h
  unfold gap roundDiv
  dsimp only
  generalize hr : a % d = r at *
  generalize hq : a / d = q at *
  generalize hx : q * d = x at *
  generalize hy : k * d = y at *
  split
  · rw [hx]
    constructor <;> omega
  · split
    · rw [hsucc]
      constructor <;> omega
    · split
      · rw [hx]
        constructor <;> omega
      · rw [hsucc]
        constructor <;> omega

namespace Double

/-- So many steps are nearest to a value in steps. -/
structure Nearest (v : ℚ) (n : Nat) : Prop where
  fits : Fits n
  le : ∀ m, Fits m → |v - n| ≤ |v - m|
  even : ∀ m, Fits m → m ≠ n → |v - m| = |v - n| → 2 ^ (place n + 1) ∣ n

/-- The double with the sign rounds the size. -/
inductive Rounds (negative : Bool) (size : ℚ) : Double → Prop
  | finite {n : Nat} (h : Nearest (size * stepsPerOne) n) (below : n < stepLimit) :
      Rounds negative size (.finite negative n below h.fits)
  | infinite {n : Nat} (h : Nearest (size * stepsPerOne) n) (beyond : stepLimit ≤ n) :
      Rounds negative size (.infinite negative)

variable {a d m : Nat}

/-- How far a quotient is from a whole number. -/
theorem abs_div_sub (hd : 0 < d) (n : Nat) : |(a : ℚ) / d - n| = (gap a (n * d) : ℚ) / d := by
  have hd' : (0 : ℚ) < d := Nat.cast_pos.2 hd
  have hsub : (a : ℚ) / d - n = (a - n * d) / d := by field_simp
  rw [hsub, abs_div, abs_of_pos hd']
  congr 1
  unfold gap
  rcases Nat.le_total a (n * d) with h | h
  · have hcast : (a : ℚ) ≤ n * d := by exact_mod_cast h
    rw [Nat.sub_eq_zero_of_le h, Nat.zero_add, Nat.cast_sub h, abs_of_nonpos (sub_nonpos.2 hcast), neg_sub, Nat.cast_mul]
  · have hcast : (n : ℚ) * d ≤ a := by exact_mod_cast h
    rw [Nat.sub_eq_zero_of_le h, Nat.add_zero, Nat.cast_sub h, abs_of_nonneg (sub_nonneg.2 hcast), Nat.cast_mul]

/-- A quotient rounded to units of the last of its 53 binary digits. -/
def roundedUnits (a d : Nat) : Nat := roundDiv a (d * 2 ^ unitOf a d)

theorem roundedUnits_le (hd : 0 < d) (a : Nat) : roundedUnits a d ≤ 2 ^ 53 := by
  have hlog : a / d < 2 ^ ((a / d).log2 + 1) := Nat.lt_log2_self
  have hle : 2 ^ ((a / d).log2 + 1) ≤ 2 ^ (53 + unitOf a d) :=
    Nat.pow_le_pow_right (by decide) (by unfold unitOf; omega)
  have hquotient := (Nat.div_lt_iff_lt_mul hd).1 (Nat.lt_of_lt_of_le hlog hle)
  rw [Nat.pow_add, Nat.mul_assoc, Nat.mul_comm (2 ^ unitOf a d)] at hquotient
  exact roundDiv_le (Nat.mul_pos hd (Nat.two_pow_pos _)) (Nat.le_of_lt hquotient)

/-- A double that is no multiple of the quotient's unit lies well below the quotient. -/
theorem lt_of_not_dvd (hm : Fits m) (h : ¬ 2 ^ unitOf a d ∣ m) :
    m < 2 ^ 52 * 2 ^ unitOf a d ∧ 2 ^ 52 * 2 ^ unitOf a d ≤ a / d := by
  have hplace : place m < unitOf a d := by
    refine Nat.lt_of_not_le fun hle => h (Nat.dvd_trans (Nat.pow_dvd_pow 2 hle) ?_)
    exact Nat.dvd_of_mod_eq_zero hm
  unfold place at hplace
  have hunit : unitOf a d = (a / d).log2 - 52 := rfl
  have hne : a / d ≠ 0 := by
    rintro h0
    rw [h0] at hunit
    have : (0 : Nat).log2 = 0 := by decide
    omega
  rw [← Nat.pow_add]
  constructor
  · exact Nat.lt_of_lt_of_le Nat.lt_log2_self (Nat.pow_le_pow_right (by decide) (by omega))
  · exact Nat.le_trans (Nat.pow_le_pow_right (by decide) (by omega)) (Nat.log2_self_le hne)

/-- In whole numbers: no double is nearer than the rounded quotient, and one as near is another multiple of its
unit. -/
theorem gap_roundedUnits_le (hd : 0 < d) (hm : Fits m) :
    gap a (roundedUnits a d * 2 ^ unitOf a d * d) ≤ gap a (m * d) ∧
      (m ≠ roundedUnits a d * 2 ^ unitOf a d →
        gap a (m * d) = gap a (roundedUnits a d * 2 ^ unitOf a d * d) → roundedUnits a d % 2 = 0) := by
  have hunit : 0 < d * 2 ^ unitOf a d := Nat.mul_pos hd (Nat.two_pow_pos _)
  have hswap : ∀ k, k * 2 ^ unitOf a d * d = k * (d * 2 ^ unitOf a d) := fun k => by
    rw [Nat.mul_assoc, Nat.mul_comm (2 ^ unitOf a d)]
  have hnearest := fun k => roundDiv_nearest (a := a) hunit k
  rw [show roundDiv a (d * 2 ^ unitOf a d) = roundedUnits a d from rfl] at hnearest
  rw [hswap]
  by_cases hdvd : 2 ^ unitOf a d ∣ m
  · obtain ⟨k, rfl⟩ := hdvd
    obtain ⟨hle, htie⟩ := hnearest k
    rw [Nat.mul_comm (2 ^ unitOf a d) k, hswap]
    refine ⟨hle, fun hne heq => htie ?_ heq⟩
    rintro rfl
    exact hne rfl
  · obtain ⟨hlow, hhigh⟩ := lt_of_not_dvd hm hdvd
    have hfar : m * d < 2 ^ 52 * (d * 2 ^ unitOf a d) := by
      rw [← hswap]
      exact Nat.mul_lt_mul_of_pos_right hlow hd
    have hreach : 2 ^ 52 * (d * 2 ^ unitOf a d) ≤ a := by
      rw [← hswap]
      exact Nat.le_trans (Nat.mul_le_mul_right d hhigh) (Nat.div_mul_le_self a d)
    have hstrict : gap a (roundedUnits a d * (d * 2 ^ unitOf a d)) < gap a (m * d) := by
      refine Nat.lt_of_le_of_lt (hnearest (2 ^ 52)).1 ?_
      unfold gap
      omega
    exact ⟨Nat.le_of_lt hstrict, fun _ heq => absurd hstrict (by rw [heq]; exact Nat.lt_irrefl _)⟩

/-- An even number of units, at most `2 ^ 53`, is even as a double. -/
theorem two_pow_place_dvd {q : Nat} (hq : q ≤ 2 ^ 53) (heven : q % 2 = 0) (s : Nat) :
    2 ^ (place (q * 2 ^ s) + 1) ∣ q * 2 ^ s := by
  rcases Nat.lt_or_eq_of_le hq with hlt | rfl
  · have hplace : place (q * 2 ^ s) ≤ s := by
      unfold place
      by_cases h0 : q * 2 ^ s = 0
      · simp [h0]
      · have hlog : (q * 2 ^ s).log2 < 53 + s := by
          rw [Nat.log2_lt h0, Nat.pow_add]
          exact Nat.mul_lt_mul_of_pos_right hlt (Nat.two_pow_pos s)
        omega
    obtain ⟨k, rfl⟩ := Nat.dvd_of_mod_eq_zero heven
    refine Nat.dvd_trans (Nat.pow_dvd_pow 2 (Nat.succ_le_succ hplace)) ⟨k, ?_⟩
    rw [Nat.pow_succ, Nat.mul_right_comm, Nat.mul_comm 2]
  · rw [← Nat.pow_add, place, Nat.log2_two_pow]
    exact Nat.pow_dvd_pow 2 (by omega)

/-- **The rounded quotient** is nearest. -/
theorem nearest_roundedUnits (hd : 0 < d) (a : Nat) :
    Nearest ((a : ℚ) / d) (roundedUnits a d * 2 ^ unitOf a d) := by
  have hd' : (0 : ℚ) < d := Nat.cast_pos.2 hd
  refine ⟨fits_mul (roundedUnits_le hd a), fun m hm => ?_, fun m hm hne heq => ?_⟩
  · rw [abs_div_sub hd, abs_div_sub hd]
    exact div_le_div_of_nonneg_right (Nat.cast_le.2 (gap_roundedUnits_le hd hm).1) (le_of_lt hd')
  · rw [abs_div_sub hd, abs_div_sub hd, div_left_inj' (ne_of_gt hd'), Nat.cast_inj] at heq
    exact two_pow_place_dvd (roundedUnits_le hd a) ((gap_roundedUnits_le hd hm).2 hne heq) _

/-- **The double of a quotient** rounds it. -/
theorem rounds_ofRatio (negative : Bool) (hd : 0 < d) {size : ℚ} (h : size * stepsPerOne = (a : ℚ) / d) :
    Rounds negative size (ofRatio negative a d) := by
  have hnearest := nearest_roundedUnits hd a
  rw [← h] at hnearest
  unfold ofRatio
  dsimp only
  split
  · next hbelow => exact .finite hnearest hbelow.1
  · next hbeyond => exact .infinite hnearest (Nat.le_of_not_lt fun hlt => hbeyond ⟨hlt, roundedUnits_le hd a⟩)

/-! ## Decimals -/

theorem tenPower_div (k : Int) : ((tenPower k).1 : ℚ) / (tenPower k).2 = 10 ^ k := by
  unfold tenPower
  split
  · next hk =>
    obtain ⟨n, rfl⟩ := Int.eq_ofNat_of_zero_le hk
    simp
  · next hk =>
    obtain ⟨n, rfl⟩ : ∃ n : Nat, k = -n := ⟨(-k).toNat, by omega⟩
    simp

/-- A quotient beyond the largest double. -/
theorem ofRatio_of_le (negative : Bool) (h : stepLimit ≤ a / d) : ofRatio negative a d = .infinite negative := by
  have hne : a / d ≠ 0 := Nat.ne_of_gt (Nat.lt_of_lt_of_le stepLimit_pos h)
  have hlog : 2098 ≤ (a / d).log2 := by
    unfold stepLimit at h
    exact (Nat.le_log2 hne).2 h
  have hunit : 52 + unitOf a d = (a / d).log2 := by unfold unitOf; omega
  have hround : 2 ^ 52 ≤ roundDiv a (d * 2 ^ unitOf a d) := by
    have hfloor : 2 ^ 52 ≤ a / (d * 2 ^ unitOf a d) := by
      rw [← Nat.div_div_eq_div_mul, Nat.le_div_iff_mul_le (Nat.two_pow_pos _), ← Nat.pow_add, hunit]
      exact Nat.log2_self_le hne
    rcases roundDiv_cases a (d * 2 ^ unitOf a d) with ⟨heq, -⟩ | ⟨heq, -⟩ <;> omega
  have hbeyond : stepLimit ≤ roundDiv a (d * 2 ^ unitOf a d) * 2 ^ unitOf a d :=
    calc stepLimit ≤ 2 ^ (a / d).log2 := Nat.pow_le_pow_right (by decide) hlog
      _ = 2 ^ 52 * 2 ^ unitOf a d := by rw [← Nat.pow_add, hunit]
      _ ≤ roundDiv a (d * 2 ^ unitOf a d) * 2 ^ unitOf a d := Nat.mul_le_mul_right _ hround
  unfold ofRatio
  exact dif_neg fun hlt => absurd hlt.1 (Nat.not_lt.2 hbeyond)

/-- The double of a decimal is that of a quotient, however large or small it is. -/
theorem ofDecimal_eq (d : Decimal) :
    ofDecimal d = ofRatio d.negative (d.coefficient * (tenPower d.exponent).1 * stepsPerOne) (tenPower d.exponent).2 := by
  have hq := (tenPower_pos d.exponent).2
  by_cases hc : d.coefficient = 0
  · have hzero : roundDiv 0 ((tenPower d.exponent).2 * 2 ^ unitOf 0 (tenPower d.exponent).2) = 0 := by
      rw [roundDiv_of_dvd (Nat.mul_pos hq (Nat.two_pow_pos _)) (Nat.dvd_zero _), Nat.zero_div]
    rw [ofDecimal, if_pos (by simp [hc]), hc, Nat.zero_mul, Nat.zero_mul]
    exact (ofRatio_eq stepLimit_pos (Nat.zero_mod _) (by rw [hzero]; exact Nat.zero_le _) (by rw [hzero, Nat.zero_mul])).symm
  by_cases hlow : d.leading < -330
  · have hsmall := mul_pow_lt (c := d.coefficient) (k := d.exponent) (n := 330) (by unfold Decimal.leading at hlow; omega)
    have hsteps : 2 * stepsPerOne < 10 ^ 330 := by decide +kernel
    generalize d.coefficient * (tenPower d.exponent).1 = x at *
    generalize (tenPower d.exponent).2 = q at *
    have hhalf : 2 * (x * stepsPerOne) < q := by
      rw [Nat.mul_left_comm]
      exact Nat.lt_of_le_of_lt (Nat.mul_le_mul_left x (Nat.le_of_lt hsteps)) hsmall
    have hfloor : x * stepsPerOne / q = 0 := Nat.div_eq_of_lt (by omega)
    have hunit : unitOf (x * stepsPerOne) q = 0 := by rw [unitOf, hfloor]; rfl
    have hround : roundDiv (x * stepsPerOne) (q * 2 ^ unitOf (x * stepsPerOne) q) = 0 := by
      rw [hunit, Nat.pow_zero, Nat.mul_one, roundDiv, hfloor, Nat.mod_eq_of_lt (by omega), if_pos hhalf]
    rw [ofDecimal, if_pos (by simp [hlow])]
    exact (ofRatio_eq stepLimit_pos (Nat.zero_mod _) (by rw [hround]; exact Nat.zero_le _)
      (by rw [hround, Nat.zero_mul])).symm
  by_cases hhigh : 310 < d.leading
  · have hlarge := pow_mul_le (c := d.coefficient) (k := d.exponent) (n := 311) hc
      (by unfold Decimal.leading at hhigh; omega)
    have hsteps : stepLimit < 10 ^ 311 * stepsPerOne := by decide +kernel
    generalize 10 ^ 311 = power at hlarge hsteps
    generalize d.coefficient * (tenPower d.exponent).1 = x at *
    generalize (tenPower d.exponent).2 = q at *
    rw [ofDecimal, if_neg (by simp only [Bool.or_eq_true, decide_eq_true_iff]; omega), if_pos hhigh]
    refine (ofRatio_of_le d.negative ?_).symm
    rw [Nat.le_div_iff_mul_le hq]
    calc stepLimit * q ≤ power * stepsPerOne * q := Nat.mul_le_mul_right q (Nat.le_of_lt hsteps)
      _ = power * q * stepsPerOne := Nat.mul_right_comm ..
      _ ≤ x * stepsPerOne := Nat.mul_le_mul_right _ hlarge
  · exact ofDecimal_eq_ofRatio hc (by omega) (by omega)

/-- **The double of a decimal** rounds its size. -/
theorem rounds_ofDecimal (d : Decimal) : Rounds d.negative d.size (ofDecimal d) := by
  rw [ofDecimal_eq]
  refine rounds_ofRatio d.negative (tenPower_pos _).2 ?_
  rw [Decimal.size, ← tenPower_div, Nat.cast_mul, Nat.cast_mul]
  generalize (stepsPerOne : ℚ) = steps
  field_simp

end Double
end EquityScreen
