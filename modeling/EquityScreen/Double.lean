/-
Double precision numbers. A finite one is a sign and a whole number of steps of `2 ^ -1074`, of
which only the 53 leading binary digits may differ from zero; so numbers are compared as whole
numbers, with no rounding.

* `fits_mul`: at most `2 ^ 53` units of any power of two fit.
* `ofRatio`: the nearest double to a quotient, a tie going to the even one; beyond the largest it
  is infinite.
-/
import EquityScreen.Decimal

namespace EquityScreen

/-- The number of steps in one. -/
def stepsPerOne : Nat := 2 ^ 1074

/-- The number of steps just beyond the largest double. -/
def stepLimit : Nat := 2 ^ 2098

/-- A number of steps whose binary digits after the 53rd are all zero. -/
def Fits (steps : Nat) : Prop := steps % 2 ^ (steps.log2 - 52) = 0

instance (steps : Nat) : Decidable (Fits steps) := inferInstanceAs (Decidable (_ = _))

theorem fits_mul {m s : Nat} (hm : m ≤ 2 ^ 53) : Fits (m * 2 ^ s) := by
  unfold Fits
  apply Nat.mod_eq_zero_of_dvd
  rcases Nat.eq_or_lt_of_le hm with rfl | hlt
  · rw [← Nat.pow_add, Nat.log2_two_pow]
    exact Nat.pow_dvd_pow 2 (by omega)
  · by_cases h0 : m * 2 ^ s = 0
    · simp [h0]
    · have hlog : (m * 2 ^ s).log2 < 53 + s := by
        rw [Nat.log2_lt h0, Nat.pow_add]
        exact Nat.mul_lt_mul_of_pos_right hlt (Nat.two_pow_pos s)
      exact Nat.dvd_trans (Nat.pow_dvd_pow 2 (by omega)) ⟨m, Nat.mul_comm _ _⟩

/-- A double precision number. -/
inductive Double where
  | nan
  | infinite (negative : Bool)
  | finite (negative : Bool) (steps : Nat) (below : steps < stepLimit) (fits : Fits steps)
  deriving DecidableEq

namespace Double

theorem stepLimit_pos : 0 < stepLimit := by unfold stepLimit; exact Nat.two_pow_pos 2098

/-- Zero with a sign. -/
def zero (negative : Bool) : Double :=
  .finite negative 0 stepLimit_pos (Nat.zero_mod _)

/-- The unit of the last of the 53 binary digits of `a / d`, as a power of two in steps. -/
def unitOf (a d : Nat) : Nat := (a / d).log2 - 52

/-- The double nearest `a / d` steps. -/
def ofRatio (negative : Bool) (a d : Nat) : Double :=
  let s := unitOf a d
  let m := roundDiv a (d * 2 ^ s)
  if h : m * 2 ^ s < stepLimit ∧ m ≤ 2 ^ 53 then
    .finite negative (m * 2 ^ s) h.1 (fits_mul h.2)
  else .infinite negative

/-- The double nearest a decimal. Powers of ten far outside the range are settled by the first
digit alone. -/
def ofDecimal (d : Decimal) : Double :=
  if d.coefficient = 0 || d.leading < -330 then zero d.negative
  else if 310 < d.leading then .infinite d.negative
  else if 0 ≤ d.exponent then
    ofRatio d.negative (d.coefficient * 10 ^ d.exponent.toNat * stepsPerOne) 1
  else ofRatio d.negative (d.coefficient * stepsPerOne) (10 ^ (-d.exponent).toNat)

/-- The double nearest a whole number. -/
def ofInt (n : Int) : Double := ofRatio (n < 0) (n.natAbs * stepsPerOne) 1

/-- The signed number of steps of a finite double. -/
def signedSteps (negative : Bool) (steps : Nat) : Int :=
  if negative then -(steps : Int) else steps

/-- Not a number. -/
def isNaN : Double → Bool
  | .nan => true
  | _ => false

end Double

end EquityScreen
