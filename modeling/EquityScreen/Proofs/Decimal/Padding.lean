/-
Decimals of one value. A decimal with zeros added at its end is written differently and has the same
value (`padded`); two decimals are alike when padding makes them equal.

What a decimal is whole by, and what is left of it without its fraction, depend on its value alone.
Arithmetic keeps the value of a decimal that is alike to one of at most 28 digits (`Alike.fitted`).
-/
import EquityScreen.Proofs.Decimal.Digits

namespace EquityScreen
namespace Decimal

variable {d d' d'' : Decimal} {k n : Nat}

/-- The decimal with so many zeros more at its end. -/
def padded (d : Decimal) (k : Nat) : Decimal := ⟨d.negative, d.coefficient * 10 ^ k, d.exponent - k⟩

@[simp] theorem padded_negative (d : Decimal) (k : Nat) : (d.padded k).negative = d.negative := rfl

@[simp] theorem padded_coefficient (d : Decimal) (k : Nat) : (d.padded k).coefficient = d.coefficient * 10 ^ k := rfl

@[simp] theorem padded_exponent (d : Decimal) (k : Nat) : (d.padded k).exponent = d.exponent - k := rfl

@[simp] theorem padded_zero (d : Decimal) : d.padded 0 = d := by simp [padded]

theorem padded_padded (d : Decimal) (j k : Nat) : (d.padded j).padded k = d.padded (j + k) := by
  simp only [padded, mk.injEq, true_and]
  exact ⟨by rw [Nat.pow_add, Nat.mul_assoc], by omega⟩

theorem padded_inj (h : d.padded k = d'.padded k) : d = d' := by
  obtain ⟨hn, hc, he⟩ := mk.inj h
  have hc := Nat.eq_of_mul_eq_mul_right (Nat.pow_pos (by decide)) hc
  have he : d.exponent = d'.exponent := by omega
  cases d
  cases d'
  simp_all

theorem leading_padded (hc : d.coefficient ≠ 0) (k : Nat) : (d.padded k).leading = d.leading := by
  simp only [leading, padded, digitCount_mul_pow hc]
  omega

/-! ## Likeness -/

/-- The decimals have the same sign and the same value. -/
def Alike (d d' : Decimal) : Prop := ∃ i j, d.padded i = d'.padded j

theorem Alike.refl (d : Decimal) : Alike d d := ⟨0, 0, rfl⟩

theorem Alike.symm (h : Alike d d') : Alike d' d := by
  obtain ⟨i, j, h⟩ := h
  exact ⟨j, i, h.symm⟩

theorem Alike.trans (h : Alike d d') (h' : Alike d' d'') : Alike d d'' := by
  obtain ⟨i, j, h⟩ := h
  obtain ⟨i', j', h'⟩ := h'
  refine ⟨i + i', j' + j, ?_⟩
  rw [← padded_padded, h, padded_padded, Nat.add_comm, ← padded_padded, h', padded_padded]

theorem alike_padded (d : Decimal) (k : Nat) : Alike d (d.padded k) := ⟨k, 0, by simp⟩

/-- Of two decimals that are alike one is the other with zeros at its end. -/
theorem Alike.cases (h : Alike d d') : (∃ k, d' = d.padded k) ∨ ∃ k, d = d'.padded k := by
  obtain ⟨i, j, h⟩ := h
  rcases Nat.le_total i j with hij | hij
  · refine .inr ⟨j - i, padded_inj (k := i) ?_⟩
    rw [padded_padded, Nat.sub_add_cancel hij, h]
  · refine .inl ⟨i - j, padded_inj (k := j) ?_⟩
    rw [padded_padded, Nat.sub_add_cancel hij, h]

/-- What zeros at the end do not change depends on the value alone. -/
theorem Alike.congr {α : Type} {f : Decimal → α} (hf : ∀ d k, f (d.padded k) = f d) (h : Alike d d') : f d = f d' := by
  obtain ⟨i, j, h⟩ := h
  rw [← hf d i, h, hf]

theorem Alike.negative (h : Alike d d') : d.negative = d'.negative := h.congr (fun _ _ => rfl)

theorem Alike.coefficient_eq_zero (h : Alike d d') : d.coefficient = 0 ↔ d'.coefficient = 0 :=
  iff_of_eq (h.congr (f := fun d => d.coefficient = 0) fun d k => by
    rw [padded_coefficient, Nat.mul_eq_zero, or_iff_left (Nat.ne_of_gt (Nat.pow_pos (by decide)))])

theorem Alike.leading (h : Alike d d') (hc : d.coefficient ≠ 0) : d.leading = d'.leading := by
  obtain ⟨i, j, heq⟩ := id h
  rw [← leading_padded hc i, heq, leading_padded fun hc' => hc (h.coefficient_eq_zero.2 hc')]

/-- Zeros of one sign are alike. -/
theorem alike_of_zero (hn : d.negative = d'.negative) (hc : d.coefficient = 0) (hc' : d'.coefficient = 0) :
    Alike d d' := by
  refine ⟨(d.exponent - d'.exponent).toNat, (d'.exponent - d.exponent).toNat, ?_⟩
  simp only [padded, hn, hc, hc', Nat.zero_mul, mk.injEq, true_and]
  omega

/-- Moving the point keeps decimals alike. -/
theorem Alike.moved (h : Alike d d') (places : Int) :
    Alike { d with exponent := d.exponent + places } { d' with exponent := d'.exponent + places } := by
  obtain ⟨i, j, h⟩ := h
  obtain ⟨hn, hc, he⟩ := mk.inj h
  exact ⟨i, j, by simp only [padded, mk.injEq]; exact ⟨hn, hc, by omega⟩⟩

/-! ## Whole parts -/

theorem isWhole_padded (d : Decimal) (k : Nat) : (d.padded k).isWhole = d.isWhole := by
  rw [Bool.eq_iff_iff, isWhole_iff, isWhole_iff, padded_coefficient, padded_exponent]
  have hpos : 0 < 10 ^ k := Nat.pow_pos (by decide)
  rcases Int.le_total d.exponent 0 with he | he
  · rw [show (-(d.exponent - (k : Int))).toNat = (-d.exponent).toNat + k by omega, Nat.pow_add,
      Nat.mul_dvd_mul_iff_right hpos]
  · have hleft : 10 ^ (-(d.exponent - (k : Int))).toNat ∣ d.coefficient * 10 ^ k :=
      Nat.dvd_trans (Nat.pow_dvd_pow 10 (by omega)) (Nat.dvd_mul_left _ _)
    rw [show (-d.exponent).toNat = 0 by omega]
    exact iff_of_true hleft (Nat.one_dvd _)

theorem Alike.isWhole (h : Alike d d') : d.isWhole = d'.isWhole := h.congr isWhole_padded

theorem truncate_eq (d : Decimal) :
    d.truncate = if d.negative then -(d.truncate.natAbs : Int) else d.truncate.natAbs := by
  unfold truncate
  dsimp only
  split <;> simp only [Int.natAbs_neg, Int.natAbs_natCast]

theorem truncate_congr (hn : d.negative = d'.negative) (h : d.truncate.natAbs = d'.truncate.natAbs) :
    d.truncate = d'.truncate := by
  rw [truncate_eq d, truncate_eq d', hn, h]

theorem truncate_padded (d : Decimal) (k : Nat) : (d.padded k).truncate = d.truncate := by
  refine truncate_congr rfl ?_
  have hpos : 0 < 10 ^ k := Nat.pow_pos (by decide)
  have hexponent := padded_exponent d k
  rw [natAbs_truncate, natAbs_truncate, padded_coefficient]
  generalize (d.padded k).exponent = e at hexponent
  rcases Int.le_total 0 e with he | he
  · rw [if_pos he, if_pos (by omega), Nat.mul_assoc, ← Nat.pow_add,
      show k + e.toNat = d.exponent.toNat by omega]
  · by_cases he0 : 0 ≤ d.exponent
    · rw [if_pos he0]
      obtain ⟨m, hm⟩ : ∃ m, k = d.exponent.toNat + m := ⟨k - d.exponent.toNat, by omega⟩
      split
      · rw [Nat.mul_assoc, ← Nat.pow_add, show k + e.toNat = d.exponent.toNat by omega]
      · rw [show (-e).toNat = m by omega, hm, Nat.pow_add, ← Nat.mul_assoc,
          Nat.mul_div_cancel _ (Nat.pow_pos (by decide))]
    · rw [if_neg (by omega), if_neg he0, show (-e).toNat = (-d.exponent).toNat + k by omega,
        Nat.pow_add, Nat.mul_div_mul_right _ _ hpos]

theorem Alike.truncate (h : Alike d d') : d.truncate = d'.truncate := h.congr truncate_padded

/-- The decimal of a whole number is that number. -/
theorem truncate_ofInt (n : Int) : (ofInt n).truncate = n := by
  have habs : (ofInt n).truncate.natAbs = n.natAbs := by
    rw [natAbs_truncate, if_pos (show 0 ≤ (ofInt n).exponent from Int.le_refl 0)]
    exact Nat.mul_one n.natAbs
  rw [truncate_eq, habs]
  by_cases hn : n < 0
  · rw [if_pos (show (ofInt n).negative = true from decide_eq_true hn)]
    omega
  · rw [if_neg (show ¬ (ofInt n).negative = true from ne_true_of_eq_false (decide_eq_false hn))]
    omega

/-! ## Results of arithmetic -/

/-- Of zeros at the end so many can be left out. -/
theorem withoutDigits_padded (hn : n ≤ k) (hfull : d.coefficient * 10 ^ (k - n) ≠ 10 ^ precision)
    (hlength : n ≤ digitCount (d.coefficient * 10 ^ k)) : (d.padded k).withoutDigits n = d.padded (k - n) := by
  have hpos : 0 < 10 ^ n := Nat.pow_pos (by decide)
  have hsplit : d.coefficient * 10 ^ k = d.coefficient * 10 ^ (k - n) * 10 ^ n := by
    rw [Nat.mul_assoc, ← Nat.pow_add, Nat.sub_add_cancel hn]
  have hround : roundDiv (d.coefficient * 10 ^ k) (10 ^ n) = d.coefficient * 10 ^ (k - n) := by
    rw [hsplit, roundDiv_of_dvd hpos (Nat.dvd_mul_left _ _), Nat.mul_div_cancel _ hpos]
  unfold withoutDigits
  split
  · next h0 => rw [h0, Nat.sub_zero]
  · rw [padded_coefficient, if_neg (Nat.not_lt.2 hlength), hround]
    dsimp only
    rw [if_neg hfull]
    simp only [padded, mk.injEq, true_and]
    omega

/-- **Arithmetic keeps the value** of a decimal that can be written with the digits that are kept. -/
theorem Alike.fitted (h : Alike d d') (hdigits : digitCount d.coefficient ≤ precision)
    (hlow : leastPower ≤ d.exponent) (hhigh : d.leading ≤ greatestPower) :
    ∃ r, d'.fitted = some r ∧ Alike d r := by
  by_cases hc : d.coefficient = 0
  · have hc' := h.coefficient_eq_zero.1 hc
    refine ⟨_, if_pos hc', alike_of_zero h.negative hc hc'⟩
  · have hc' : d'.coefficient ≠ 0 := fun hc' => hc (h.coefficient_eq_zero.2 hc')
    have hleading := h.leading hc
    rcases h.cases with ⟨k, rfl⟩ | ⟨k, hk⟩
    · have hcount : digitCount (d.padded k).coefficient = digitCount d.coefficient + k := digitCount_mul_pow hc k
      have hpositive := digitCount_pos d.coefficient
      have hprecision : precision = 28 := rfl
      have hexponent := padded_exponent d k
      -- What is given up are zeros.
      have hexcess : (d.padded k).excess ≤ k := by
        unfold excess
        omega
      have hgiven : digitCount (d.padded k).coefficient - precision ≤ (d.padded k).excess := Nat.le_max_left _ _
      generalize hn : (d.padded k).excess = n at hexcess hgiven
      have hless : d.coefficient * 10 ^ (k - n) < 10 ^ precision := by
        rw [← digitCount_le_iff (by decide), digitCount_mul_pow hc]
        omega
      have hwithout : (d.padded k).withoutDigits n = d.padded (k - n) :=
        withoutDigits_padded hexcess (Nat.ne_of_lt hless) (show n ≤ digitCount (d.padded k).coefficient by omega)
      refine ⟨d.padded (k - n), ?_, alike_padded d _⟩
      unfold Decimal.fitted
      rw [if_neg hc', hn, hwithout]
      dsimp only
      rw [if_neg (by omega), if_neg (by rw [leading_padded hc]; omega)]
    · have hdigits' : digitCount d'.coefficient ≤ precision := by
        rw [hk] at hdigits
        exact Nat.le_trans (digitCount_mono (Nat.le_mul_of_pos_right _ (Nat.pow_pos (by decide)))) hdigits
      have hlow' : leastPower ≤ d'.exponent := by
        rw [hk, padded_exponent] at hlow
        omega
      have hexponent : d'.exponent ≤ greatestPower := by
        have := digitCount_pos d'.coefficient
        unfold Decimal.leading at hleading hhigh
        omega
      exact ⟨d', fitted_of_plain hdigits' hlow' hexponent (by omega), h⟩

end Decimal
end EquityScreen
