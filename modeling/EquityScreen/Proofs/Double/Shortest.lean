/-
The shortest decimal of a double: where the search for it ends, and how large it can be.

* `search_spec`: the search ends on one of the seventeen grids.
* `toDecimal_size`: the decimal of a double is never so large or so small that arithmetic with
  decimals would refuse or cut it.
-/
import EquityScreen.Double.Shortest
import EquityScreen.Proofs.Decimal.Digits

namespace EquityScreen
namespace Double

open Decimal (digitCount digitCount_pos digitCount_le_iff digitCount_mono)

/-! ## The search -/

/-- The search ends with something found, at the first number of digits where there is something, or
with nothing at the last. -/
theorem search_spec (found? : Nat → Option Nat) (fuel digits : Nat) :
    ∃ n c, digits ≤ n ∧ n ≤ digits + fuel ∧ search found? fuel digits = (c, n) ∧
      (found? n = some c ∨ n = digits + fuel ∧ c = 0 ∧ found? n = none) ∧
      ∀ m, digits ≤ m → m < n → found? m = none := by
  induction fuel generalizing digits with
  | zero =>
    refine ⟨digits, (found? digits).getD 0, Nat.le_refl _, Nat.le_refl _, rfl, ?_, fun m h1 h2 => by omega⟩
    cases h : found? digits with
    | none => exact .inr ⟨rfl, rfl, rfl⟩
    | some c => exact .inl rfl
  | succ fuel ih =>
    cases h : found? digits with
    | some c =>
      exact ⟨digits, c, Nat.le_refl _, by omega, by simp only [search, h], .inl h, fun m h1 h2 => by omega⟩
    | none =>
      obtain ⟨n, c, hlow, hhigh, heq, hc, hnone⟩ := ih (digits + 1)
      refine ⟨n, c, by omega, by omega, by simp only [search, h, heq], ?_, fun m h1 h2 => ?_⟩
      · rcases hc with hc | ⟨hn, hc⟩
        · exact .inl hc
        · exact .inr ⟨by omega, hc⟩
      · rcases Nat.eq_or_lt_of_le h1 with rfl | h1
        · exact h
        · exact hnone m h1 h2

/-- Zeros at the end are counted. -/
theorem stripZeros_spec (fuel c : Nat) :
    (stripZeros fuel c).1 * 10 ^ (stripZeros fuel c).2 = c ∧ (stripZeros fuel c).2 ≤ fuel := by
  induction fuel generalizing c with
  | zero => simp [stripZeros]
  | succ fuel ih =>
    unfold stripZeros
    split
    · next h =>
      simp only [Bool.and_eq_true, decide_eq_true_eq] at h
      obtain ⟨heq, hle⟩ := ih (c / 10)
      dsimp only
      refine ⟨?_, by omega⟩
      rw [Nat.pow_succ, ← Nat.mul_assoc, heq]
      omega
    · exact ⟨by simp, Nat.zero_le _⟩

/-- One of the two neighbours is taken, and one that reads back. -/
theorem nearer?_cases {value middle c m : Nat} {low high : Bool}
    (h : nearer? value middle c low high = some m) :
    (low = true ∧ m = c) ∨ (high = true ∧ m = c + 1) := by
  cases low <;> cases high <;> simp only [nearer?, Option.some.injEq, reduceCtorEq] at h
  · exact .inr ⟨rfl, h.symm⟩
  · exact .inl ⟨rfl, h.symm⟩
  · repeat' split at h
    · exact .inl ⟨rfl, h.symm⟩
    · exact .inr ⟨rfl, h.symm⟩
    · exact .inl ⟨rfl, h.symm⟩
    · exact .inr ⟨rfl, h.symm⟩

/-- What is found lies in the interval, and is one of the two multiples around the value. -/
theorem candidate?_cases {steps c : Nat} {k : Int} (h : candidate? steps k = some c) :
    (Interval.around steps).holds c k = true ∧
      steps * (tenPower k).2 / ((tenPower k).1 * stepsPerOne) ≤ c ∧
      c ≤ steps * (tenPower k).2 / ((tenPower k).1 * stepsPerOne) + 1 := by
  unfold candidate? at h
  dsimp only at h
  rcases nearer?_cases h with ⟨hi, rfl⟩ | ⟨hi, rfl⟩
  · exact ⟨hi, by omega⟩
  · exact ⟨hi, by omega⟩

/-! ## Sizes -/

theorem digitCount_div_le (a b : Nat) : digitCount (a / b) ≤ digitCount a :=
  digitCount_mono (Nat.div_le_self a b)

theorem digitCount_of_lt_stepLimit {steps places : Nat} (h : steps < stepLimit) (hp : places ≤ 341) :
    digitCount (steps * 10 ^ places + 1) ≤ 1000 := by
  rw [digitCount_le_iff (by decide)]
  have hp' : 10 ^ places ≤ 10 ^ 341 := Nat.pow_le_pow_right (by decide) hp
  have hmul := Nat.mul_le_mul (Nat.le_of_lt h) hp'
  exact Nat.lt_of_le_of_lt (Nat.succ_le_succ hmul) (by decide +kernel)

theorem firstPlace_bounds {steps : Nat} (h : steps < stepLimit) :
    -324 ≤ firstPlace steps ∧ firstPlace steps ≤ 675 := by
  have hle := Nat.le_trans (digitCount_div_le (steps * 10 ^ 324) stepsPerOne)
    (digitCount_mono (Nat.le_succ _))
  have hmax := digitCount_of_lt_stepLimit h (show 324 ≤ 341 by decide)
  have hpos := digitCount_pos (steps * 10 ^ 324 / stepsPerOne)
  unfold firstPlace
  generalize digitCount (steps * 10 ^ 324 / stepsPerOne) = n at *
  have hn := Nat.le_trans hle hmax
  clear hle hmax
  omega

theorem digitCount_candidate? {steps c : Nat} {k : Int} (hs : steps < stepLimit) (hk : -341 ≤ k)
    (h : candidate? steps k = some c) : digitCount c ≤ 1000 := by
  have hq : ∃ places, places ≤ 341 ∧ (tenPower k).2 = 10 ^ places := by
    unfold tenPower
    split
    · exact ⟨0, by decide, rfl⟩
    · exact ⟨_, by omega, rfl⟩
  obtain ⟨places, hp, hq⟩ := hq
  obtain ⟨-, -, hc⟩ := candidate?_cases h
  rw [hq] at hc
  exact Nat.le_trans (digitCount_mono (Nat.le_trans hc (Nat.succ_le_succ (Nat.div_le_self ..))))
    (digitCount_of_lt_stepLimit hs hp)

theorem shortest_eq {steps n c : Nat}
    (h : search (fun n => candidate? steps (lastPlace steps n)) 16 1 = (c, n)) :
    shortest steps = ((stripZeros 20 c).1, lastPlace steps n + (stripZeros 20 c).2) := by
  unfold shortest
  rw [h]

/-- The decimal that a double is written as has an ordinary size. -/
theorem toDecimal_size (negative : Bool) {steps : Nat} (h : steps < stepLimit) :
    -341 ≤ (toDecimal negative steps).exponent ∧ (toDecimal negative steps).leading ≤ 1700 := by
  unfold toDecimal
  split
  · exact ⟨show (-341 : Int) ≤ 0 by decide, show ((0 : Int) + digitCount 0 - 1) ≤ 1700 by decide⟩
  · obtain ⟨hlow, hhigh⟩ := firstPlace_bounds h
    obtain ⟨n, c, hn1, hn2, heq, hc, -⟩ := search_spec (fun n => candidate? steps (lastPlace steps n)) 16 1
    have hplace : lastPlace steps n = firstPlace steps + 1 - n := rfl
    have hcount : digitCount c ≤ 1000 := by
      rcases hc with hc | ⟨-, rfl, -⟩
      · exact digitCount_candidate? h (by omega) hc
      · decide
    obtain ⟨hstrip, hzeros⟩ := stripZeros_spec 20 c
    have hle : (stripZeros 20 c).1 ≤ c := by
      conv => rhs; rw [← hstrip]
      exact Nat.le_mul_of_pos_right _ (Nat.pow_pos (by decide))
    have hcount' := digitCount_mono hle
    rw [shortest_eq heq]
    dsimp only [Decimal.leading]
    omega

end Double
end EquityScreen
