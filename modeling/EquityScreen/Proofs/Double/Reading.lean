/-
A double is read back from the decimal that it is written as (`ofDecimal_toDecimal`).

Whatever lies between the halfway points around a double rounds to it (`ofRatio_of_inside`), and among
the multiples of the power of ten that leaves seventeen digits one always does (`candidate?_isSome`), so
the search for the shortest decimal ends with one that reads back. The value of a decimal is all that
matters in reading it (`Alike.ofDecimal`).
-/
import EquityScreen.Proofs.Decimal.Padding
import EquityScreen.Proofs.Double.Shortest

namespace EquityScreen

/-! ## Rounding -/

/-- A quotient rounds to a number at most half away from it; just half away, the number has to be even. -/
theorem roundDiv_of_near {a d m : Nat} (hd : 0 < d) (hlow : 2 * (m * d) ≤ 2 * a + d) (hhigh : 2 * a ≤ 2 * (m * d) + d)
    (htie : m % 2 = 0 ∨ 2 * (m * d) < 2 * a + d ∧ 2 * a < 2 * (m * d) + d) : roundDiv a d = m := by
  have hdiv := Nat.div_add_mod a d
  have hmod := Nat.mod_lt a hd
  rw [Nat.mul_comm] at hdiv
  have hcases : a / d = m ∨ a / d + 1 = m := by
    rcases Nat.lt_trichotomy (a / d) m with hlt | heq | hgt
    · right
      refine Nat.le_antisymm hlt (Nat.le_of_lt_succ (Nat.lt_of_mul_lt_mul_right (a := d) ?_))
      simp only [Nat.succ_eq_add_one, Nat.add_mul]
      omega
    · exact .inl heq
    · have hmul := Nat.mul_le_mul_right d hgt
      rw [Nat.succ_eq_add_one, Nat.add_mul] at hmul
      omega
  unfold roundDiv
  dsimp only
  generalize a % d = r at *
  rcases hcases with rfl | rfl
  · generalize a / d * d = x at *
    split
    · rfl
    · split
      · omega
      · split
        · rfl
        · omega
  · rw [Nat.add_mul] at hlow hhigh htie
    generalize a / d * d = x at *
    split
    · omega
    · split
      · rfl
      · split
        · omega
        · rfl

theorem roundDiv_mul {j : Nat} (hj : 0 < j) (a d : Nat) : roundDiv (a * j) (d * j) = roundDiv a d := by
  have hlt : ∀ x y : Nat, x * j < y * j ↔ x < y := fun x y => Nat.mul_lt_mul_right hj
  unfold roundDiv
  simp only [Nat.mul_div_mul_right _ _ hj, Nat.mul_mod_mul_right, ← Nat.mul_assoc, hlt]

namespace Double

open Decimal (digitCount pow_le_of_digitCount lt_pow_digitCount)

theorem ofRatio_mul (negative : Bool) {j : Nat} (hj : 0 < j) (a d : Nat) :
    ofRatio negative (a * j) (d * j) = ofRatio negative a d := by
  have hunit : unitOf (a * j) (d * j) = unitOf a d := by rw [unitOf, unitOf, Nat.mul_div_mul_right _ _ hj]
  have hround : roundDiv (a * j) (d * j * 2 ^ unitOf a d) = roundDiv a (d * 2 ^ unitOf a d) := by
    rw [Nat.mul_right_comm, roundDiv_mul hj]
  unfold ofRatio
  simp only [hunit, hround]

/-- The double nearest to a quotient, by what the quotient rounds to. -/
theorem ofRatio_eq {negative : Bool} {a d steps : Nat} (below : steps < stepLimit) (fits : Fits steps)
    (hm : roundDiv a (d * 2 ^ unitOf a d) ≤ 2 ^ 53) (h : roundDiv a (d * 2 ^ unitOf a d) * 2 ^ unitOf a d = steps) :
    ofRatio negative a d = .finite negative steps below fits := by
  subst h
  unfold ofRatio
  exact dif_pos ⟨below, hm⟩

/-! ## The interval of a double -/

/-- The power of two that a double is a multiple of, as a number of binary digits. -/
def place (steps : Nat) : Nat := steps.log2 - 52

/-- A double is so many units of its power of two: at most 53 binary digits, and exactly as many unless
the unit is one step. -/
structure Units (steps m e : Nat) : Prop where
  eq : steps = m * 2 ^ e
  lt : m < 2 ^ 53
  le : 0 < e → 2 ^ 52 ≤ m
  log : e = place steps

theorem units_of_fits {steps : Nat} (hne : steps ≠ 0) (fits : Fits steps) :
    Units steps (steps / 2 ^ place steps) (place steps) := by
  have heq : steps / 2 ^ place steps * 2 ^ place steps = steps := Nat.div_mul_cancel (Nat.dvd_of_mod_eq_zero fits)
  refine ⟨heq.symm, ?_, fun he => ?_, rfl⟩
  · rw [Nat.div_lt_iff_lt_mul (Nat.two_pow_pos _), ← Nat.pow_add]
    exact Nat.lt_of_lt_of_le Nat.lt_log2_self (Nat.pow_le_pow_right (by decide) (by unfold place; omega))
  · rw [Nat.le_div_iff_mul_le (Nat.two_pow_pos _), ← Nat.pow_add]
    refine Nat.le_trans (Nat.pow_le_pow_right (by decide) ?_) (Nat.log2_self_le hne)
    unfold place at he ⊢
    omega

/-- How far below the double its interval begins, in quarter steps. -/
def gapBelow (m e : Nat) : Nat := if m = 2 ^ 52 && 1 < 2 ^ e then 2 ^ e else 2 * 2 ^ e

variable {steps m e : Nat}

theorem around_eq (h : Units steps m e) :
    Interval.around steps = ⟨4 * steps - gapBelow m e, 4 * steps + 2 * 2 ^ e, m % 2 == 0⟩ := by
  have hm : steps / 2 ^ e = m := by rw [h.eq, Nat.mul_div_cancel _ (Nat.two_pow_pos _)]
  have hplace : steps.log2 - 52 = e := h.log.symm
  unfold Interval.around gapBelow
  simp only [hplace, hm]

theorem Units.unit_le (h : Units steps m e) (hne : steps ≠ 0) : 2 ^ e ≤ steps := by
  have hm : m ≠ 0 := by
    rintro rfl
    exact hne (by rw [h.eq, Nat.zero_mul])
  rw [h.eq]
  exact Nat.le_mul_of_pos_left _ (Nat.pos_of_ne_zero hm)

/-- The double as so many units, with a denominator. -/
theorem Units.mul_unit (h : Units steps m e) (d : Nat) : m * (d * 2 ^ e) = steps * d := by
  rw [h.eq, Nat.mul_left_comm, Nat.mul_comm d]

/-- A double has no more than 53 binary digits, counted from its unit. -/
theorem Units.add_unit_le (h : Units steps m e) : steps + 2 ^ e ≤ 2 ^ (e + 53) := by
  have hmul := Nat.mul_le_mul_right (2 ^ e) (Nat.succ_le_of_lt h.lt)
  rw [Nat.succ_mul, ← h.eq, ← Nat.pow_add, Nat.add_comm 53] at hmul
  exact hmul

/-- A quotient has the unit that leaves it 53 binary digits, or that of one step if it has no more. -/
theorem unitOf_eq_of_bounds {a d : Nat} (hlow : 0 < e → 2 ^ (e + 52) ≤ a / d) (hhigh : a / d < 2 ^ (e + 53)) :
    unitOf a d = e := by
  unfold unitOf
  rcases Nat.eq_zero_or_pos e with rfl | he
  · by_cases h0 : a / d = 0
    · simp [h0]
    · have := (Nat.log2_lt h0).2 hhigh
      omega
  · have hpos := Nat.lt_of_lt_of_le (Nat.two_pow_pos _) (hlow he)
    rw [(Nat.log2_eq_iff (Nat.ne_of_gt hpos)).2 ⟨hlow he, hhigh⟩]
    omega

/-- From the double on, up to the next halfway point, a quotient has the unit of the double. -/
theorem unitOf_of_ge {a d : Nat} (hd : 0 < d) (h : Units steps m e) (hge : steps * d ≤ a)
    (hhigh : 2 * a ≤ 2 * (steps * d) + d * 2 ^ e) : unitOf a d = e := by
  have hfloor : a / d * d ≤ a := Nat.div_mul_le_self a d
  have hq : 2 * (a / d) ≤ 2 * steps + 2 ^ e := by
    refine Nat.le_of_mul_le_mul_right (c := d) ?_ hd
    rw [Nat.mul_assoc, Nat.add_mul, Nat.mul_assoc, Nat.mul_comm (2 ^ e)]
    omega
  refine unitOf_eq_of_bounds (fun he => ?_) ?_
  · have hunits := Nat.mul_le_mul_right (2 ^ e) (h.le he)
    rw [← h.eq, ← Nat.pow_add, Nat.add_comm 52] at hunits
    exact Nat.le_trans hunits ((Nat.le_div_iff_mul_le hd).2 hge)
  · have := h.add_unit_le
    have := Nat.two_pow_pos e
    omega

/-- Down to the halfway point below the double as well, unless the double is a power of two. -/
theorem unitOf_of_lt {a d : Nat} (hd : 0 < d) (h : Units steps m e) (hpower : ¬(m = 2 ^ 52 ∧ 0 < e))
    (hlt : a < steps * d) (hlow : 2 * (steps * d) ≤ 2 * a + d * 2 ^ e) : unitOf a d = e := by
  refine unitOf_eq_of_bounds (fun he => ?_) ?_
  · have hm : 2 ^ 52 + 1 ≤ m := by
      have := h.le he
      omega
    have hmul := Nat.mul_le_mul_right (d * 2 ^ e) hm
    rw [h.mul_unit, Nat.add_mul] at hmul
    rw [Nat.le_div_iff_mul_le hd, Nat.pow_add, Nat.mul_comm (2 ^ e), Nat.mul_assoc, Nat.mul_comm (2 ^ e)]
    omega
  · have hq : a / d < steps := (Nat.div_lt_iff_lt_mul hd).2 hlt
    exact Nat.lt_of_lt_of_le hq (Nat.le_trans (Nat.le_add_right _ _) h.add_unit_le)

/-- A quotient with the unit of the double rounds to it from at most half a unit away. -/
theorem ofRatio_of_unitOf (negative : Bool) (below : steps < stepLimit) (fits : Fits steps) {a d : Nat} (hd : 0 < d)
    (h : Units steps m e) (hunit : unitOf a d = e) (hlow : 2 * (steps * d) ≤ 2 * a + d * 2 ^ e)
    (hhigh : 2 * a ≤ 2 * (steps * d) + d * 2 ^ e)
    (htie : m % 2 = 0 ∨ 2 * (steps * d) < 2 * a + d * 2 ^ e ∧ 2 * a < 2 * (steps * d) + d * 2 ^ e) :
    ofRatio negative a d = .finite negative steps below fits := by
  have hr : roundDiv a (d * 2 ^ unitOf a d) = m := by
    rw [hunit]
    refine roundDiv_of_near (Nat.mul_pos hd (Nat.two_pow_pos e)) ?_ ?_ ?_ <;> rwa [h.mul_unit]
  exact ofRatio_eq below fits (hr ▸ Nat.le_of_lt h.lt) (by rw [hr, hunit, ← h.eq])

/-- Below a power of two the unit is half as large, and so is the distance from which a quotient rounds up to it. -/
theorem ofRatio_of_below_power (negative : Bool) (below : steps < stepLimit) (fits : Fits steps) {a d k : Nat}
    (hd : 0 < d) (hsteps : steps = 2 ^ 53 * 2 ^ k) (hlt : a < steps * d)
    (hlow : 2 * (steps * d) ≤ 2 * a + d * 2 ^ k) : ofRatio negative a d = .finite negative steps below fits := by
  have hsd : steps * d = 2 ^ 53 * (d * 2 ^ k) := by rw [hsteps, Nat.mul_assoc, Nat.mul_comm (2 ^ k)]
  have hdk : 0 < d * 2 ^ k := Nat.mul_pos hd (Nat.two_pow_pos k)
  have hunit : unitOf a d = k := by
    refine unitOf_eq_of_bounds (fun _ => ?_) ?_
    · rw [Nat.le_div_iff_mul_le hd, Nat.pow_add, Nat.mul_comm (2 ^ k), Nat.mul_assoc, Nat.mul_comm (2 ^ k)]
      omega
    · rw [Nat.add_comm, Nat.pow_add, ← hsteps]
      exact (Nat.div_lt_iff_lt_mul hd).2 hlt
  have hr : roundDiv a (d * 2 ^ unitOf a d) = 2 ^ 53 := by
    rw [hunit]
    exact roundDiv_of_near hdk (by omega) (by omega) (.inl (by decide))
  exact ofRatio_eq below fits (Nat.le_of_eq hr) (by rw [hr, hunit, hsteps])

theorem gapBelow_power (k : Nat) : gapBelow (2 ^ 52) (k + 1) = 2 ^ (k + 1) := by
  have hone : 1 < 2 ^ (k + 1) := Nat.one_lt_two_pow (by omega)
  unfold gapBelow
  rw [if_pos (by simp [hone])]

theorem gapBelow_of_not_power (hpower : ¬(m = 2 ^ 52 ∧ 0 < e)) : gapBelow m e = 2 * 2 ^ e := by
  unfold gapBelow
  rw [if_neg]
  rw [Bool.and_eq_true, decide_eq_true_iff, decide_eq_true_iff]
  rintro ⟨hm, hone⟩
  refine hpower ⟨hm, Nat.pos_of_ne_zero ?_⟩
  rintro rfl
  exact absurd hone (by decide)

/-- **What lies in the interval of a double** rounds to it. -/
theorem ofRatio_of_inside (negative : Bool) (hne : steps ≠ 0) (below : steps < stepLimit) (fits : Fits steps) {a d : Nat}
    (hd : 0 < d) (h : Units steps m e) (hlow : (4 * steps - gapBelow m e) * d ≤ 4 * a)
    (hhigh : 4 * a ≤ (4 * steps + 2 * 2 ^ e) * d)
    (htie : m % 2 = 0 ∨ (4 * steps - gapBelow m e) * d < 4 * a ∧ 4 * a < (4 * steps + 2 * 2 ^ e) * d) :
    ofRatio negative a d = .finite negative steps below fits := by
  have hcomm : 2 ^ e * d = d * 2 ^ e := Nat.mul_comm _ _
  have hunits : d * 2 ^ e ≤ steps * d := hcomm ▸ Nat.mul_le_mul_right d (h.unit_le hne)
  simp only [Nat.add_mul, Nat.sub_mul, Nat.mul_assoc, hcomm] at hlow hhigh htie
  rcases Nat.lt_or_ge a (steps * d) with hlt | hge
  · by_cases hpower : m = 2 ^ 52 ∧ 0 < e
    · obtain ⟨rfl, he⟩ := hpower
      obtain ⟨k, rfl⟩ : ∃ k, e = k + 1 := ⟨e - 1, by omega⟩
      have hsteps : steps = 2 ^ 53 * 2 ^ k := by
        rw [h.eq, ← Nat.pow_add, ← Nat.pow_add, show 52 + (k + 1) = 53 + k by omega]
      have hhalf : d * 2 ^ (k + 1) = 2 * (d * 2 ^ k) := by rw [Nat.pow_succ', Nat.mul_left_comm]
      rw [gapBelow_power, hcomm, hhalf] at hlow
      exact ofRatio_of_below_power negative below fits hd hsteps hlt (by omega)
    · rw [gapBelow_of_not_power hpower, Nat.mul_assoc, hcomm] at hlow htie
      have hunit := unitOf_of_lt hd h hpower hlt (by omega)
      exact ofRatio_of_unitOf negative below fits hd h hunit (by omega) (by omega) (by omega)
  · have hunit := unitOf_of_ge hd h hge (by omega)
    exact ofRatio_of_unitOf negative below fits hd h hunit (by omega) (by omega) (by omega)

/-! ## Decimals in the interval -/

theorem tenPower_pos (k : Int) : 0 < (tenPower k).1 ∧ 0 < (tenPower k).2 := by
  unfold tenPower
  split
  · exact ⟨Nat.pow_pos (by decide), Nat.one_pos⟩
  · exact ⟨Nat.one_pos, Nat.pow_pos (by decide)⟩

/-- What it is for a decimal to lie in the interval of a double. -/
theorem holds_iff (h : Units steps m e) {c : Nat} {k : Int} :
    (Interval.around steps).holds c k = true ↔
      (4 * steps - gapBelow m e) * (tenPower k).2 ≤ 4 * (c * (tenPower k).1 * stepsPerOne) ∧
        4 * (c * (tenPower k).1 * stepsPerOne) ≤ (4 * steps + 2 * 2 ^ e) * (tenPower k).2 ∧
        (m % 2 = 0 ∨ (4 * steps - gapBelow m e) * (tenPower k).2 < 4 * (c * (tenPower k).1 * stepsPerOne) ∧
          4 * (c * (tenPower k).1 * stepsPerOne) < (4 * steps + 2 * 2 ^ e) * (tenPower k).2) := by
  rw [around_eq h, Interval.holds]
  simp only [Nat.mul_assoc, beq_iff_eq]
  split
  · next heven => simp [heven]
  · next hodd =>
    simp only [hodd, false_or, Bool.and_eq_true, decide_eq_true_iff]
    omega

theorem gapBelow_le (h : Units steps m e) (hne : steps ≠ 0) : gapBelow m e ≤ 2 * steps := by
  have hle := h.unit_le hne
  unfold gapBelow
  split <;> omega

/-- The power of ten of the first digit bounds a decimal from below. -/
theorem pow_mul_le {c : Nat} {k : Int} {n : Nat} (hc : c ≠ 0) (h : (n : Int) ≤ k + digitCount c - 1) :
    10 ^ n * (tenPower k).2 ≤ c * (tenPower k).1 := by
  have hlow := pow_le_of_digitCount hc
  have hpos := Decimal.digitCount_pos c
  unfold tenPower
  split
  · next hk =>
    calc 10 ^ n * 1 ≤ 10 ^ (digitCount c - 1 + k.toNat) := by
          rw [Nat.mul_one]
          exact Nat.pow_le_pow_right (by decide) (by omega)
      _ ≤ c * 10 ^ k.toNat := by
          rw [Nat.pow_add]
          exact Nat.mul_le_mul_right _ hlow
  · next hk =>
    calc 10 ^ n * 10 ^ (-k).toNat ≤ 10 ^ (digitCount c - 1) := by
          rw [← Nat.pow_add]
          exact Nat.pow_le_pow_right (by decide) (by omega)
      _ ≤ c * 1 := by rwa [Nat.mul_one]

/-- The power of ten of the first digit bounds a small decimal from above. -/
theorem mul_pow_lt {c : Nat} {k : Int} {n : Nat} (h : k + digitCount c ≤ -(n : Int)) :
    c * (tenPower k).1 * 10 ^ n < (tenPower k).2 := by
  have hpos := Decimal.digitCount_pos c
  unfold tenPower
  rw [if_neg (by omega)]
  dsimp only
  calc c * 1 * 10 ^ n < 10 ^ digitCount c * 10 ^ n := by
        rw [Nat.mul_one]
        exact Nat.mul_lt_mul_of_pos_right (lt_pow_digitCount c) (Nat.pow_pos (by decide))
    _ ≤ 10 ^ (-k).toNat := by
        rw [← Nat.pow_add]
        exact Nat.pow_le_pow_right (by decide) (by omega)

/-- The double nearest a decimal of an ordinary size. -/
theorem ofDecimal_eq_ofRatio {d : Decimal} (hc : d.coefficient ≠ 0) (hlow : -330 ≤ d.leading) (hhigh : d.leading ≤ 310) :
    ofDecimal d =
      ofRatio d.negative (d.coefficient * (tenPower d.exponent).1 * stepsPerOne) (tenPower d.exponent).2 := by
  unfold ofDecimal tenPower
  rw [if_neg (by simp only [Bool.or_eq_true, decide_eq_true_iff]; omega), if_neg (by omega)]
  split
  · rfl
  · rw [Nat.mul_one]

/-- **A decimal in the interval of a double** is read as the double. -/
theorem ofDecimal_of_holds (negative : Bool) (hne : steps ≠ 0) (below : steps < stepLimit) (fits : Fits steps) {c : Nat}
    {k : Int} (h : (Interval.around steps).holds c k = true) :
    ofDecimal ⟨negative, c, k⟩ = .finite negative steps below fits := by
  have hunits := units_of_fits hne fits
  have hgap := gapBelow_le hunits hne
  obtain ⟨hlow, hhigh, htie⟩ := (holds_iff hunits).1 h
  obtain ⟨-, hq⟩ := tenPower_pos k
  have hstep : 2 * (tenPower k).2 ≤ 4 * (c * (tenPower k).1 * stepsPerOne) :=
    Nat.le_trans (Nat.mul_le_mul_right _ (by omega)) hlow
  have hunit := hunits.unit_le hne
  have hlimit : 4 * (c * (tenPower k).1 * stepsPerOne) < 6 * stepLimit * (tenPower k).2 :=
    Nat.lt_of_le_of_lt hhigh (Nat.mul_lt_mul_of_pos_right (by omega) hq)
  have hc : c ≠ 0 := by
    rintro rfl
    omega
  have hpositive : 0 < c * (tenPower k).1 := Nat.mul_pos (Nat.pos_of_ne_zero hc) (tenPower_pos k).1
  generalize hx : c * (tenPower k).1 = x at *
  have hleast : -330 ≤ k + digitCount c - 1 := by
    refine Int.not_lt.1 fun hlt => ?_
    have hsmall := mul_pow_lt (c := c) (k := k) (n := 330) (by omega)
    rw [hx] at hsmall
    have hsteps : 2 * stepsPerOne < 10 ^ 330 := by decide +kernel
    have hmul := Nat.mul_lt_mul_of_pos_left hsteps hpositive
    have hassoc : x * (2 * stepsPerOne) = 2 * (x * stepsPerOne) := Nat.mul_left_comm ..
    omega
  have hmost : k + digitCount c - 1 ≤ 310 := by
    refine Int.not_lt.1 fun hlt => ?_
    have hlarge := pow_mul_le (n := 311) hc (show ((311 : Nat) : Int) ≤ k + digitCount c - 1 by omega)
    rw [hx] at hlarge
    have hsteps : 6 * stepLimit < 10 ^ 311 * (4 * stepsPerOne) := by decide +kernel
    generalize 10 ^ 311 = power at hsteps hlarge
    have hmul := Nat.mul_lt_mul_of_pos_right hsteps hq
    have hmul' := Nat.mul_le_mul_right (4 * stepsPerOne) hlarge
    rw [Nat.mul_right_comm, Nat.mul_left_comm x] at hmul'
    exact absurd hlimit (Nat.not_lt.2 (Nat.le_trans (Nat.le_of_lt hmul) hmul'))
  rw [ofDecimal_eq_ofRatio (d := ⟨negative, c, k⟩) hc hleast hmost]
  dsimp only
  rw [hx]
  exact ofRatio_of_inside negative hne below fits hq hunits hlow hhigh htie

/-! ## Seventeen digits -/

/-- A number whose first digit is at a power of ten is at least so large; `s` steps make one. -/
theorem tenPower_mul_le {n a b s : Nat} (hn : 0 < n) (h : 10 ^ (n - 1) * s ≤ steps * 10 ^ a) :
    (tenPower ((n : Int) - 1 - a - b)).1 * s * 10 ^ b ≤ steps * (tenPower ((n : Int) - 1 - a - b)).2 := by
  refine Nat.le_of_mul_le_mul_right (c := 10 ^ a) ?_ (Nat.pow_pos (by decide))
  unfold tenPower
  split
  · dsimp only
    refine Nat.le_trans (Nat.le_of_eq ?_) (Nat.mul_one steps ▸ h)
    rw [show n - 1 = ((n : Int) - 1 - a - b).toNat + b + a by omega, Nat.pow_add, Nat.pow_add, Nat.mul_right_comm _ s,
      Nat.mul_right_comm _ s]
  · have hmul := Nat.mul_le_mul_right (10 ^ (-((n : Int) - 1 - a - b)).toNat) h
    have hpow : 10 ^ (n - 1) * 10 ^ (-((n : Int) - 1 - a - b)).toNat = 10 ^ b * 10 ^ a := by
      rw [← Nat.pow_add, ← Nat.pow_add]
      congr 1
      omega
    rw [Nat.mul_right_comm, hpow, Nat.mul_right_comm steps] at hmul
    dsimp only
    rw [Nat.one_mul, Nat.mul_assoc, Nat.mul_comm s]
    exact hmul

theorem stepsPerOne_pos : 0 < stepsPerOne := by
  unfold stepsPerOne
  exact Nat.two_pow_pos 1074

/-- The last of seventeen digits is worth at most a part in `10 ^ 16` of the number. -/
theorem lastPlace_le (hne : steps ≠ 0) :
    (tenPower (lastPlace steps 17)).1 * stepsPerOne * 10 ^ 16 ≤ steps * (tenPower (lastPlace steps 17)).2 := by
  have hsteps : stepsPerOne ≤ 10 ^ 324 := by decide +kernel
  have hplace : lastPlace steps 17 = (digitCount (steps * 10 ^ 324 / stepsPerOne) : Int) - 1 - (324 : Nat) - (16 : Nat) := by
    unfold lastPlace firstPlace
    omega
  have hfirst : 10 ^ (digitCount (steps * 10 ^ 324 / stepsPerOne) - 1) * stepsPerOne ≤ steps * 10 ^ 324 := by
    rw [← Nat.le_div_iff_mul_le stepsPerOne_pos]
    refine pow_le_of_digitCount (Nat.ne_of_gt (Nat.div_pos ?_ stepsPerOne_pos))
    exact Nat.le_trans hsteps (Nat.le_mul_of_pos_left _ (Nat.pos_of_ne_zero hne))
  rw [hplace]
  exact tenPower_mul_le (Decimal.digitCount_pos _) hfirst

/-- Multiples of the last of seventeen digits are closer to each other than the ends of the interval are
to the double. -/
theorem lastPlace_lt (h : Units steps m e) {space q : Nat} (hq : 0 < q) (hlast : space * 10 ^ 16 ≤ steps * q) :
    space < 2 ^ e * q ∧ 2 * space < gapBelow m e * q := by
  have hunit : 0 < 2 ^ e * q := Nat.mul_pos (Nat.two_pow_pos _) hq
  rw [h.eq, Nat.mul_assoc] at hlast
  unfold gapBelow
  split
  · next hcond =>
    rw [Bool.and_eq_true, decide_eq_true_iff] at hcond
    rw [hcond.1] at hlast
    omega
  · have hless := Nat.mul_le_mul_right (2 ^ e * q) (Nat.le_of_lt h.lt)
    rw [Nat.mul_assoc]
    omega

/-- A multiple at most half a spacing away from the double lies in the interval. -/
theorem holds_of_near (h : Units steps m e) (hgap : gapBelow m e ≤ 4 * steps) {k : Int} {space x : Nat}
    (hspace : (tenPower k).1 * stepsPerOne = space) (hunit : space < 2 ^ e * (tenPower k).2)
    (hbelow : 2 * space < gapBelow m e * (tenPower k).2)
    (hlow : 2 * (steps * (tenPower k).2) ≤ 2 * (x * space) + space)
    (hhigh : 2 * (x * space) ≤ 2 * (steps * (tenPower k).2) + space) : (Interval.around steps).holds x k = true := by
  have hx : x * (tenPower k).1 * stepsPerOne = x * space := by rw [Nat.mul_assoc, hspace]
  have hle := Nat.mul_le_mul_right (tenPower k).2 hgap
  rw [Nat.mul_assoc] at hle
  rw [holds_iff h, hx, Nat.sub_mul, Nat.add_mul, Nat.mul_assoc 4, Nat.mul_assoc 2]
  omega

/-- The multiple of a power of ten that is tried, without the pair that the power is. -/
theorem candidate?_eq (steps : Nat) (k : Int) {space c : Nat} (hspace : (tenPower k).1 * stepsPerOne = space)
    (hc : steps * (tenPower k).2 / space = c) :
    candidate? steps k = nearer? (2 * (steps * (tenPower k).2)) ((2 * c + 1) * space) c
      ((Interval.around steps).holds c k) ((Interval.around steps).holds (c + 1) k) := by
  unfold candidate?
  subst hc hspace
  cases tenPower k
  rfl

/-- **One of the multiples around a double reads back** when there are seventeen digits. -/
theorem candidate?_isSome (hne : steps ≠ 0) (fits : Fits steps) : ∃ c, candidate? steps (lastPlace steps 17) = some c := by
  have h := units_of_fits hne fits
  have hgap := gapBelow_le h hne
  obtain ⟨hp, hq⟩ := tenPower_pos (lastPlace steps 17)
  obtain ⟨hunit, hbelow⟩ := lastPlace_lt h hq (lastPlace_le hne)
  generalize lastPlace steps 17 = k at *
  generalize hspace : (tenPower k).1 * stepsPerOne = space at *
  have hspace0 : 0 < space := hspace ▸ Nat.mul_pos hp stepsPerOne_pos
  generalize hc : steps * (tenPower k).2 / space = c
  have hfloor : c * space ≤ steps * (tenPower k).2 := hc ▸ Nat.div_mul_le_self _ _
  have hceil : steps * (tenPower k).2 < (c + 1) * space := by
    rw [← hc, ← Nat.div_lt_iff_lt_mul hspace0]
    exact Nat.lt_succ_self _
  have hone : (Interval.around steps).holds c k = true ∨ (Interval.around steps).holds (c + 1) k = true := by
    have hsucc : (c + 1) * space = c * space + space := Nat.succ_mul c space
    rcases Nat.le_total (2 * (steps * (tenPower k).2)) (2 * (c * space) + space) with hle | hle
    · exact .inl (holds_of_near h (by omega) hspace hunit hbelow hle (by omega))
    · exact .inr (holds_of_near h (by omega) hspace hunit hbelow (by omega) (by omega))
  rw [candidate?_eq steps k hspace hc]
  rcases hone with hone | hone <;> rw [hone]
  · cases (Interval.around steps).holds (c + 1) k <;> exact ⟨_, rfl⟩
  · cases (Interval.around steps).holds c k <;> exact ⟨_, rfl⟩

/-! ## Reading back -/

open Decimal (Alike)

/-- Equal quotients have one nearest double. -/
theorem ofRatio_congr (negative : Bool) {a d a' d' : Nat} (hd : 0 < d) (hd' : 0 < d') (h : a * d' = a' * d) :
    ofRatio negative a d = ofRatio negative a' d' := by
  rw [← ofRatio_mul negative hd', h, Nat.mul_comm d, ofRatio_mul negative hd]

theorem tenPower_sub (k : Int) (j : Nat) :
    10 ^ j * (tenPower (k - j)).1 * (tenPower k).2 = (tenPower k).1 * (tenPower (k - j)).2 := by
  have hpow : ∀ {x y : Nat}, x = y → 10 ^ x = 10 ^ y := fun h => congrArg _ h
  unfold tenPower
  split
  · rw [if_pos (by omega)]
    simp only [Nat.mul_one, ← Nat.pow_add]
    exact hpow (by omega)
  · split <;> simp only [Nat.mul_one, Nat.one_mul, ← Nat.pow_add] <;> exact hpow (by omega)

theorem ofDecimal_padded (d : Decimal) (j : Nat) : ofDecimal (d.padded j) = ofDecimal d := by
  by_cases hc : d.coefficient = 0
  · simp [ofDecimal, hc]
  have hcj : (d.padded j).coefficient ≠ 0 := Nat.mul_ne_zero hc (Nat.ne_of_gt (Nat.pow_pos (by decide)))
  have hleading := Decimal.leading_padded hc j
  by_cases hsmall : d.leading < -330
  · simp [ofDecimal, hsmall, hleading]
  by_cases hlarge : 310 < d.leading
  · unfold ofDecimal
    rw [hleading, if_neg (by simp only [Bool.or_eq_true, decide_eq_true_iff]; omega), if_pos hlarge,
      if_neg (by simp only [Bool.or_eq_true, decide_eq_true_iff]; omega), if_pos hlarge, Decimal.padded_negative]
  · rw [ofDecimal_eq_ofRatio hcj (by omega) (by omega), ofDecimal_eq_ofRatio hc (by omega) (by omega)]
    refine ofRatio_congr _ (tenPower_pos _).2 (tenPower_pos _).2 ?_
    have h := tenPower_sub d.exponent j
    simp only [Decimal.padded_coefficient, Decimal.padded_exponent]
    calc d.coefficient * 10 ^ j * (tenPower (d.exponent - j)).1 * stepsPerOne * (tenPower d.exponent).2
        = d.coefficient * (10 ^ j * (tenPower (d.exponent - j)).1 * (tenPower d.exponent).2) * stepsPerOne := by
          simp only [Nat.mul_assoc, Nat.mul_left_comm, Nat.mul_comm]
      _ = d.coefficient * (tenPower d.exponent).1 * stepsPerOne * (tenPower (d.exponent - j)).2 := by
          rw [h]
          simp only [Nat.mul_assoc, Nat.mul_comm]

/-- The double nearest a decimal depends on its value alone. -/
theorem ofDecimal_alike {d d' : Decimal} (h : Alike d d') : ofDecimal d = ofDecimal d' := h.congr ofDecimal_padded

/-- Zeros at the end do not take a decimal out of the interval, or into it. -/
theorem holds_padded (h : Units steps m e) (c : Nat) (k : Int) (j : Nat) :
    (Interval.around steps).holds (c * 10 ^ j) (k - j) = (Interval.around steps).holds c k := by
  have hq := (tenPower_pos k).2
  have hq' := (tenPower_pos (k - j)).2
  have hscale : ∀ x : Nat, x * (tenPower (k - j)).2 * (tenPower k).2 = x * (tenPower k).2 * (tenPower (k - j)).2 := fun x =>
    Nat.mul_right_comm ..
  have hvalue : 4 * (c * 10 ^ j * (tenPower (k - j)).1 * stepsPerOne) * (tenPower k).2 =
      4 * (c * (tenPower k).1 * stepsPerOne) * (tenPower (k - j)).2 := by
    have hpower := tenPower_sub k j
    calc 4 * (c * 10 ^ j * (tenPower (k - j)).1 * stepsPerOne) * (tenPower k).2
        = 4 * c * (10 ^ j * (tenPower (k - j)).1 * (tenPower k).2) * stepsPerOne := by
          simp only [Nat.mul_assoc, Nat.mul_left_comm, Nat.mul_comm]
      _ = 4 * (c * (tenPower k).1 * stepsPerOne) * (tenPower (k - j)).2 := by
          rw [hpower]
          simp only [Nat.mul_assoc, Nat.mul_left_comm, Nat.mul_comm]
  rw [Bool.eq_iff_iff, holds_iff h, holds_iff h]
  generalize 4 * (c * 10 ^ j * (tenPower (k - j)).1 * stepsPerOne) = x at *
  generalize 4 * (c * (tenPower k).1 * stepsPerOne) = y at *
  have hle : ∀ z, z * (tenPower (k - j)).2 ≤ x ↔ z * (tenPower k).2 ≤ y := fun z => by
    rw [← Nat.mul_le_mul_right_iff hq, hscale, hvalue, Nat.mul_le_mul_right_iff hq']
  have hge : ∀ z, x ≤ z * (tenPower (k - j)).2 ↔ y ≤ z * (tenPower k).2 := fun z => by
    rw [← Nat.mul_le_mul_right_iff hq, hscale, hvalue, Nat.mul_le_mul_right_iff hq']
  simp only [hle, hge, ← Nat.not_le]

theorem toDecimal_zero (negative : Bool) : toDecimal negative 0 = ⟨negative, 0, 0⟩ := if_pos rfl

theorem toDecimal_of_ne (negative : Bool) (hne : steps ≠ 0) :
    toDecimal negative steps = ⟨negative, (shortest steps).1, (shortest steps).2⟩ := if_neg hne

/-- **The shortest decimal of a double** lies in its interval. -/
theorem holds_shortest (hne : steps ≠ 0) (fits : Fits steps) :
    (Interval.around steps).holds (shortest steps).1 (shortest steps).2 = true := by
  obtain ⟨n, c, h1, h2, heq, hc, -⟩ := search_spec (fun n => candidate? steps (lastPlace steps n)) 16 1
  have hfound : candidate? steps (lastPlace steps n) = some c := by
    rcases hc with hc | ⟨hn, -, hnone⟩
    · exact hc
    · obtain ⟨c', hc'⟩ := candidate?_isSome hne fits
      rw [hn] at hnone
      exact absurd (hnone.symm.trans hc') (by simp)
  obtain ⟨hstrip, -⟩ := stripZeros_spec 20 c
  have hholds := (candidate?_cases hfound).1
  rw [shortest_eq heq]
  dsimp only
  rw [← holds_padded (units_of_fits hne fits) _ _ (stripZeros 20 c).2, hstrip, Int.add_sub_cancel]
  exact hholds

/-- **A double is read back** from the decimal that it is written as. -/
theorem ofDecimal_toDecimal (negative : Bool) (below : steps < stepLimit) (fits : Fits steps) :
    ofDecimal (toDecimal negative steps) = .finite negative steps below fits := by
  by_cases hne : steps = 0
  · subst hne
    rw [toDecimal_zero]
    rfl
  · rw [toDecimal_of_ne negative hne]
    exact ofDecimal_of_holds negative hne below fits (holds_shortest hne fits)

end Double
end EquityScreen
