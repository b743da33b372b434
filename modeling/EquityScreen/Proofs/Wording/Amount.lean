/-
Which amounts cannot be written.

An amount is written with at most two places after the point of the magnitude that abbreviates it,
and with 28 digits at most. So it cannot be written when it is so large that its magnitude leaves
more than 26 digits before the point, unless a larger magnitude fits it (`abbreviated_error_iff`).
Percents and multiples can always be written.
-/
import EquityScreen.Proofs.Double.Shortest
import EquityScreen.Proofs.Outcome
import EquityScreen.Wording.Amount

namespace EquityScreen
namespace Decimal

/-- An amount, cut to the digits that are kept, reaches `10 ^ 26` of one of the magnitudes, and none
of the larger magnitudes leaves two places at most. Or it is too large to be cut. -/
def Unwieldy (style : CurrencyStyle) (d : Decimal) : Prop :=
  match d.fitted with
  | none => True
  | some r => ∃ m ∈ style.magnitudes, 10 ^ (m.places + 26) ≤ r.truncate.natAbs ∧
      ∀ m' ∈ style.magnitudes, m.places < m'.places → ¬ 10 ^ (m'.places - 2) ∣ r.truncate.natAbs

/-- The same, magnitude by magnitude: `r` is what was kept of the amount. -/
def Stuck (r : Decimal) : List Magnitude → Prop
  | [] => False
  | m :: ms => (m.places : Int) + 26 ≤ r.leading ∨
      ((m.places : Int) ≤ r.leading → ¬ 10 ^ (m.places - 2) ∣ r.truncate.natAbs) ∧ Stuck r ms

theorem two_le_places (m : Magnitude) : 2 ≤ m.places := by cases m <;> decide

theorem places_le_twelve (m : Magnitude) : m.places ≤ 12 := by cases m <;> decide

variable {d r : Decimal}

/-- A magnitude leaves two places at most exactly when it divides the hundredfold amount. -/
theorem fitsPlaces_iff (m : Magnitude) (he : 0 ≤ r.exponent) :
    ({ r with exponent := r.exponent - m.places } : Decimal).fitsPlaces 2 = true ↔
      10 ^ (m.places - 2) ∣ r.truncate.natAbs := by
  have hm := two_le_places m
  unfold fitsPlaces
  rw [isWhole_iff, natAbs_truncate, if_pos he]
  dsimp only
  rcases Nat.le_total (m.places - 2) r.exponent.toNat with hle | hle
  · rw [show (-(r.exponent - (m.places : Int) + ((2 : Nat) : Int))).toNat = 0 by omega, Nat.pow_zero]
    have hdvd : 10 ^ (m.places - 2) ∣ 10 ^ r.exponent.toNat := Nat.pow_dvd_pow 10 hle
    exact ⟨fun _ => Nat.dvd_trans hdvd (Nat.dvd_mul_left ..), fun _ => Nat.one_dvd _⟩
  · rw [show (-(r.exponent - (m.places : Int) + ((2 : Nat) : Int))).toNat =
      m.places - 2 - r.exponent.toNat by omega]
    conv => rhs; rw [show m.places - 2 = m.places - 2 - r.exponent.toNat + r.exponent.toNat by omega,
      Nat.pow_add]
    exact (Nat.mul_dvd_mul_iff_right (Nat.pow_pos (by decide))).symm

/-- An amount that is stuck has more digits than are kept, so none of them is after the point. -/
theorem exponent_nonneg_of_stuck (hd : digitCount r.coefficient ≤ precision) {ms : List Magnitude}
    (h : Stuck r ms) : 0 ≤ r.exponent := by
  have hp : precision = 28 := rfl
  induction ms with
  | nil => exact absurd h id
  | cons m ms ih =>
    have hm := two_le_places m
    rcases h with h | h
    · unfold leading at h
      omega
    · exact ih h.2

/-- Abbreviating fails at the first magnitude that leaves too many digits. -/
theorem abbreviated_error_of_fitted (hc : d.coefficient ≠ 0) (he : leastPower + 12 ≤ d.exponent)
    (hr : d.fitted = some r) (ms : List Magnitude) :
    (∃ e, d.abbreviated ms = .error e) ↔ Stuck r ms := by
  obtain ⟨hrc, hdigits, -⟩ := fitted_some hc (by omega) hr
  induction ms with
  | nil => simp [abbreviated, Stuck]
  | cons m ms ih =>
    have hm := places_le_twelve m
    have hs := shift_fitted hc m.places (by omega) hr
    have hreach : r.reaches m.places = decide ((m.places : Int) ≤ r.leading) := by
      simp [reaches, hrc]
    have hlong : ({ r with exponent := r.exponent - m.places } : Decimal).tooLongFor 2 =
        decide ((m.places : Int) + 26 ≤ r.leading) := by
      unfold tooLongFor leading precision
      dsimp only
      exact decide_eq_decide.2 (by omega)
    simp only [abbreviated, Stuck, hr, hs, AmountError.result, bind, Except.bind, hreach, hlong,
      decide_eq_true_eq]
    split
    · next h1 =>
      split
      · next h2 => simp [h2]
      · next h2 =>
        split
        · next h3 =>
          refine ⟨fun ⟨e, h⟩ => absurd h (by simp), ?_⟩
          rintro (h | ⟨h, hstuck⟩)
          · exact absurd h h2
          · exact absurd ((fitsPlaces_iff m (exponent_nonneg_of_stuck hdigits hstuck)).1 h3) (h h1)
        · next h3 =>
          rw [ih]
          constructor
          · intro hstuck
            exact .inr ⟨fun _ h => h3 ((fitsPlaces_iff m (exponent_nonneg_of_stuck hdigits hstuck)).2 h),
              hstuck⟩
          · rintro (h | h)
            · exact absurd h h2
            · exact h.2
    · next h1 =>
      rw [ih]
      constructor
      · exact fun h => .inr ⟨fun h2 => absurd h2 h1, h⟩
      · rintro (h | h)
        · exact absurd h (by omega)
        · exact h.2

/-- Of magnitudes from the largest down, an amount is stuck at one that leaves too many digits while
no larger one fits. -/
theorem stuck_iff (hc : r.coefficient ≠ 0) {ms : List Magnitude}
    (hsorted : ms.Pairwise fun m m' => m'.places < m.places) :
    Stuck r ms ↔ ∃ m ∈ ms, 10 ^ (m.places + 26) ≤ r.truncate.natAbs ∧
      ∀ m' ∈ ms, m.places < m'.places → ¬ 10 ^ (m'.places - 2) ∣ r.truncate.natAbs := by
  simp only [pow_le_natAbs_truncate hc, Int.natCast_add, Int.cast_ofNat_Int]
  induction ms with
  | nil => simp [Stuck]
  | cons m ms ih =>
    rw [List.pairwise_cons] at hsorted
    simp only [Stuck, ih hsorted.2]
    have hm := places_le_twelve m
    constructor
    · rintro (h | ⟨hno, m₀, hm₀, h, hlarger⟩)
      · refine ⟨m, List.mem_cons_self, h, fun m' hm' hlt => ?_⟩
        rcases List.mem_cons.1 hm' with rfl | hm'
        · exact absurd hlt (Nat.lt_irrefl _)
        · exact absurd hlt (Nat.lt_asymm (hsorted.1 m' hm'))
      · refine ⟨m₀, List.mem_cons_of_mem _ hm₀, h, fun m' hm' hlt => ?_⟩
        rcases List.mem_cons.1 hm' with rfl | hm'
        · exact hno (by omega)
        · exact hlarger m' hm' hlt
    · rintro ⟨m₀, hm₀, h, hlarger⟩
      rcases List.mem_cons.1 hm₀ with rfl | hm₀
      · exact .inl h
      · exact .inr ⟨fun _ => hlarger m List.mem_cons_self (hsorted.1 m₀ hm₀), m₀, hm₀, h,
          fun m' hm' => hlarger m' (List.mem_cons_of_mem _ hm')⟩

theorem magnitudes_sorted (style : CurrencyStyle) :
    style.magnitudes.Pairwise fun m m' => m'.places < m.places := by
  cases style <;> decide

/-- **Writing an amount** fails exactly for the unwieldy ones. -/
theorem abbreviated_error_iff (style : CurrencyStyle) (d : Decimal) (he : leastPower + 12 ≤ d.exponent) :
    (∃ e, d.abbreviated style.magnitudes = .error e) ↔ d.Unwieldy style := by
  unfold Unwieldy
  by_cases hc : d.coefficient = 0
  · have hr : d.fitted = some { d with exponent := max leastPower (min greatestPower d.exponent) } :=
      if_pos hc
    have hzero : ({ d with exponent := max leastPower (min greatestPower d.exponent) } : Decimal).truncate = 0 := by
      simp [truncate, hc]
    have hok : ∀ ms : List Magnitude, ∃ s, d.abbreviated ms = .ok s := by
      intro ms
      induction ms with
      | nil => exact ⟨_, rfl⟩
      | cons m ms ih =>
        simp only [abbreviated, hr, AmountError.result, bind, Except.bind, reaches, hc, bne_self_eq_false,
          Bool.false_and, Bool.false_eq_true, if_false]
        exact ih
    obtain ⟨s, hs⟩ := hok style.magnitudes
    rw [hs, hr]
    dsimp only
    rw [hzero]
    refine ⟨fun ⟨e, h⟩ => absurd h (by simp), ?_⟩
    rintro ⟨m, -, h, -⟩
    exact absurd h (by simp)
  · cases hr : d.fitted with
    | none =>
      have hne : style.magnitudes ≠ [] := by cases style <;> simp [CurrencyStyle.magnitudes]
      obtain ⟨m, ms, hms⟩ := List.exists_cons_of_ne_nil hne
      simp [hms, abbreviated, hr, AmountError.result, bind, Except.bind]
    | some r =>
      obtain ⟨hrc, -⟩ := fitted_some hc (by omega) hr
      rw [abbreviated_error_of_fitted hc he hr, stuck_iff hrc (magnitudes_sorted style)]

end Decimal

/-! ## Values -/

/-- A number that cannot be written as an amount. -/
def Number.Unwieldy (style : CurrencyStyle) (n : Number) : Prop :=
  match n.toQuantity with
  | .finite d => d.Unwieldy style
  | _ => True

/-- The decimals that amounts are written from have an ordinary power of ten. -/
theorem Number.toQuantity_exponent {n : Number} {d : Decimal} (h : n.toQuantity = .finite d) :
    Decimal.leastPower + 12 ≤ d.exponent := by
  have hleast : Decimal.leastPower = -1000026 := rfl
  cases n with
  | int n =>
    simp only [toQuantity, Quantity.finite.injEq] at h
    rw [← h]
    dsimp only [Decimal.ofInt]
    omega
  | double x =>
    cases x with
    | nan | infinite => simp [toQuantity] at h
    | finite negative steps below fits =>
      simp only [toQuantity, Quantity.finite.injEq] at h
      have := (Double.toDecimal_size negative below).1
      rw [← h]
      omega

/-- An amount fails to be written exactly when it is unwieldy. -/
theorem Value.worded_amount_error_iff {k : Kind} (hk : k = .currency ∨ k = .numeric)
    (style : CurrencyStyle) (n : Number) :
    (∃ e, (Value.number n).worded k style = .error e) ↔ n.Unwieldy style := by
  have heq : (Value.number n).worded k style =
      (n.toQuantity.worded k style).mapError (AmountError.on (.number n)) := by
    rcases hk with rfl | rfl <;> rfl
  have hq : n.toQuantity.worded k style = match n.toQuantity with
      | .finite d => d.abbreviated style.magnitudes
      | _ => .error .unwritable := by
    rcases hk with rfl | rfl <;> rfl
  rw [heq, hq]
  unfold Number.Unwieldy
  cases h : n.toQuantity with
  | finite d =>
    dsimp only
    rw [← Decimal.abbreviated_error_iff style d (Number.toQuantity_exponent h)]
    cases d.abbreviated style.magnitudes <;> simp
  | infinite negative => simp
  | nan negative signalling payload => simp

/-- A percentage or a multiple can always be written. -/
theorem Value.worded_double {k : Kind} (hk : k = .percentage ∨ k = .ratio) (style : CurrencyStyle)
    (x : Double) : ∃ s, (Value.number (.double x)).worded k style = .ok s := by
  rcases hk with rfl | rfl
  · have hshift : ∃ q, (Number.double x).toQuantity.shift 2 = .ok q := by
      cases x with
      | nan => exact ⟨_, rfl⟩
      | infinite negative => exact ⟨_, rfl⟩
      | finite negative steps below fits =>
        obtain ⟨-, hhigh⟩ := Double.toDecimal_size negative below
        have hgreat : Decimal.greatestPower = 999999 := rfl
        have hsmall : (Double.toDecimal negative steps).leading + 2 < Decimal.greatestPower := by omega
        obtain ⟨r, hr⟩ := Decimal.shift_isSome hsmall
        exact ⟨.finite r, by simp only [Number.toQuantity, Quantity.shift, hr, Quantity.ofResult]⟩
    obtain ⟨q, hq⟩ := hshift
    refine ⟨q.trimmed 1 ++ "%", ?_⟩
    simp only [Value.worded, Value.quantity?, Quantity.worded, hq, Except.mapError_ok]
  · exact ⟨_, rfl⟩

end EquityScreen
