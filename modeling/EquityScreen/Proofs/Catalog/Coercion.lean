/-
The values of literals. What a literal is worth on a field has the form that the kind of the field
asks for; and a literal that a query can hold has no value that could not be worked out, unless it is
immense: ten to the power of a million or so.
-/
import EquityScreen.Catalog.Coercion
import EquityScreen.Proofs.Catalog.Regular
import EquityScreen.Proofs.Decimal.Digits
import EquityScreen.Proofs.Outcome

namespace EquityScreen

theorem Double.ofRatio_ne_nan (negative : Bool) (a d : Nat) : ofRatio negative a d ≠ .nan := by
  unfold ofRatio
  dsimp only
  split
  · exact Double.noConfusion
  · exact Double.noConfusion

theorem Double.ofDecimal_ne_nan (d : Decimal) : ofDecimal d ≠ .nan := by
  unfold ofDecimal
  split
  · exact Double.noConfusion
  · split
    · exact Double.noConfusion
    · split
      · exact ofRatio_ne_nan _ _ _
      · exact ofRatio_ne_nan _ _ _

theorem Quantity.shift_finite {places : Int} {d : Decimal} {q : Quantity}
    (h : (Quantity.finite d).shift places = .ok q) : ∃ r, d.shift places = some r ∧ q = .finite r := by
  simp only [shift, ofResult] at h
  split at h
  · next r hr => exact ⟨r, hr, (Except.ok.inj h).symm⟩
  · exact absurd h (by simp)

namespace Catalog

variable {f : Field} {d : Decimal} {unit : Option UnitMark} {currency : Bool}

/-! ## The kinds of fields -/

theorem coerceOn_sector (hk : f.kind = .sector) (q : Quantity) :
    coerceOn f (.number q) unit currency = .error (.unitMismatch f.label "number") := by
  simp only [coerceOn, hk, coerceSector]

theorem coerceOn_text (hk : f.kind = .text) (raw : Literal) :
    coerceOn f raw unit currency = coerceText f raw unit currency := by
  simp only [coerceOn, hk]

theorem coerceOn_percentage (hk : f.kind = .percentage) (d : Decimal) :
    coerceOn f (.number (.finite d)) unit currency =
      (onlyUnit .percent f.label unit currency).bind fun _ => coercePercentage (.finite d) := by
  simp only [coerceOn, hk]
  rfl

theorem coerceOn_ratio (hk : f.kind = .ratio) (d : Decimal) :
    coerceOn f (.number (.finite d)) unit currency =
      (onlyUnit .times f.label unit currency).bind fun _ => .ok (.number (.double (.ofDecimal d))) := by
  simp only [coerceOn, hk]
  rfl

theorem coerceOn_amount (hk : f.kind = .currency ∨ f.kind = .numeric) (d : Decimal) :
    coerceOn f (.number (.finite d)) unit currency =
      (amountUnit f unit currency).bind fun _ => (scaleAmount (.finite d) unit).bind coerceAmount := by
  rcases hk with hk | hk <;> simp only [coerceOn, hk] <;> rfl

/-! ## The form of a value -/

theorem isNaN_coerceAmount {v : Value} (h : coerceAmount (.finite d) = .ok v) :
    ∃ n, v = .number n ∧ n.isNaN = false := by
  simp only [coerceAmount] at h
  split at h
  · exact ⟨_, (Except.ok.inj h).symm, rfl⟩
  · refine ⟨_, (Except.ok.inj h).symm, ?_⟩
    have := Double.ofDecimal_ne_nan d
    cases hd : Double.ofDecimal d with
    | nan => exact absurd hd this
    | infinite | finite => rfl

theorem scaleAmount_finite {q : Quantity} (h : scaleAmount (.finite d) unit = .ok q) :
    ∃ r, q = .finite r := by
  unfold scaleAmount at h
  split at h
  · exact ⟨d, (Except.ok.inj h).symm⟩
  · split at h
    · next r hr =>
      obtain ⟨r', -, rfl⟩ := Quantity.shift_finite hr
      exact ⟨r', (Except.ok.inj h).symm⟩
    · exact absurd h (by simp)
  · exact absurd h (by simp)

/-- What a number is worth on a field is a value of the field. -/
theorem takes_coerceOn {v : Value} (h : coerceOn f (.number (.finite d)) unit currency = .ok v) :
    f.kind.Takes v := by
  cases hk : f.kind with
  | sector =>
    rw [coerceOn_sector hk] at h
    exact absurd h nofun
  | text =>
    rw [coerceOn_text hk, coerceText] at h
    split at h
    · exact absurd h nofun
    · rw [← Except.ok.inj h]
      trivial
  | percentage =>
    rw [coerceOn_percentage hk] at h
    obtain ⟨-, -, h⟩ := Except.bind_ok_iff.1 h
    unfold coercePercentage at h
    split at h
    · next r hr =>
      obtain ⟨r', -, rfl⟩ := Quantity.shift_finite hr
      rw [← Except.ok.inj h]
      exact Double.ofDecimal_ne_nan r'
    · exact absurd h nofun
  | ratio =>
    rw [coerceOn_ratio hk] at h
    obtain ⟨-, -, h⟩ := Except.bind_ok_iff.1 h
    rw [← Except.ok.inj h]
    exact Double.ofDecimal_ne_nan d
  | currency | numeric =>
    rw [coerceOn_amount (by simp [hk])] at h
    obtain ⟨-, -, h⟩ := Except.bind_ok_iff.1 h
    obtain ⟨scaled, hs, h⟩ := Except.bind_ok_iff.1 h
    obtain ⟨r, rfl⟩ := scaleAmount_finite hs
    obtain ⟨n, rfl, hn⟩ := isNaN_coerceAmount h
    exact hn

theorem takes_coerceOn_text {s : String} {v : Value} (hk : f.kind = .text)
    (h : coerceOn f (.text s) none false = .ok v) : f.kind.Takes v := by
  rw [coerceOn_text hk, coerceText, if_neg (by simp)] at h
  rw [hk, ← Except.ok.inj h]
  trivial

/-- What anything is worth as a symbol is in capitals. -/
theorem upper_coerceOn {raw : Literal} {v : Value} (hk : f.kind = .text) (hkey : f.key = "symbol")
    (h : coerceOn f raw unit currency = .ok v) : ∃ s, v = .text (Text.upper s) := by
  rw [coerceOn_text hk] at h
  dsimp only [coerceText] at h
  split at h
  · exact absurd h nofun
  · rw [if_pos (by rw [hkey]; rfl)] at h
    exact ⟨_, (Except.ok.inj h).symm⟩

/-- A text is never refused on a text field. -/
theorem isBreakdown_coerceOn_text {s : String} {e : CoercionError} (hk : f.kind = .text)
    (h : coerceOn f (.text s) none false = .error e) : e.isBreakdown = false := by
  rw [coerceOn_text hk, coerceText, if_neg (by simp)] at h
  exact absurd h nofun

/-! ## Values that cannot be worked out -/

/-- Some power of ten times the number, as large as the largest mark asks for, is too large for a
result; or the mark means nothing. -/
def Immense (d : Decimal) (unit : Option UnitMark) : Prop :=
  Decimal.greatestPower ≤ d.leading + 12 ∨ ∃ mark, unit = some (.other mark)

theorem shift_of_not_immense (h : ¬ Immense d unit) (places : Int) (hp : places ≤ 12) :
    ∃ q, (Quantity.finite d).shift places = .ok q := by
  have hd : ¬ Decimal.greatestPower ≤ d.leading + 12 := fun hl => h (.inl hl)
  have hl : d.leading + places < Decimal.greatestPower := by omega
  obtain ⟨r, hr⟩ := Decimal.shift_isSome hl
  exact ⟨.finite r, by simp only [Quantity.shift, hr, Quantity.ofResult]⟩

theorem isBreakdown_onlyUnit {allowed : UnitMark} {label : String} {e : CoercionError}
    (h : onlyUnit allowed label unit currency = .error e) : e.isBreakdown = false := by
  unfold onlyUnit at h
  split at h
  · rw [← Except.error.inj h]; rfl
  · exact absurd h (by simp)

theorem amountUnit_cases (f : Field) (unit : Option UnitMark) (currency : Bool) :
    amountUnit f unit currency = .ok () ∧ (unit ≠ some .percent ∧ unit ≠ some .times) ∨
    ∃ e, amountUnit f unit currency = .error e ∧ e.isBreakdown = false := by
  unfold amountUnit
  split
  · exact .inr ⟨_, rfl, rfl⟩
  · next h =>
    split
    · exact .inr ⟨_, rfl, rfl⟩
    · refine .inl ⟨rfl, ?_, ?_⟩
      · rintro rfl; exact h (by simp)
      · rintro rfl; exact h (by simp)

theorem immense_of_scaleAmount {e : CoercionError} (hu : unit ≠ some .percent ∧ unit ≠ some .times)
    (h : scaleAmount (.finite d) unit = .error e) : Immense d unit := by
  refine Classical.byContradiction fun hd => ?_
  match unit, hu, hd, h with
  | some (.magnitude m), _, hd, h =>
    obtain ⟨q, hq⟩ := shift_of_not_immense hd m.places (by cases m <;> decide)
    simp only [scaleAmount, hq] at h
    exact absurd h (by simp)
  | some .percent, hu, _, _ => exact hu.1 rfl
  | some .times, hu, _, _ => exact hu.2 rfl
  | some (.other mark), _, hd, _ => exact hd (.inr ⟨mark, rfl⟩)

/-- **A number whose value could not be worked out** is immense. -/
theorem immense_of_isBreakdown {e : CoercionError}
    (h : coerceOn f (.number (.finite d)) unit currency = .error e) (he : e.isBreakdown = true) :
    Immense d unit := by
  refine Classical.byContradiction fun hd => ?_
  have hno : e.isBreakdown ≠ false := fun h => absurd (he.symm.trans h) nofun
  cases hk : f.kind with
  | sector =>
    rw [coerceOn_sector hk] at h
    exact hno (Except.error.inj h ▸ rfl)
  | text =>
    rw [coerceOn_text hk, coerceText] at h
    split at h
    · exact hno (Except.error.inj h ▸ rfl)
    · exact absurd h nofun
  | percentage =>
    rw [coerceOn_percentage hk] at h
    rcases Except.bind_error_iff.1 h with h | ⟨-, -, h⟩
    · exact hno (isBreakdown_onlyUnit h)
    · obtain ⟨q, hq⟩ := shift_of_not_immense hd (-2) (by decide)
      simp only [coercePercentage, hq] at h
      exact absurd h nofun
  | ratio =>
    rw [coerceOn_ratio hk] at h
    rcases Except.bind_error_iff.1 h with h | ⟨-, -, h⟩
    · exact hno (isBreakdown_onlyUnit h)
    · exact absurd h nofun
  | currency | numeric =>
    rw [coerceOn_amount (by simp [hk])] at h
    rcases amountUnit_cases f unit currency with ⟨hok, hu⟩ | ⟨e', he', hb⟩
    · rw [hok] at h
      replace h : (scaleAmount (.finite d) unit).bind coerceAmount = .error e := h
      rcases Except.bind_error_iff.1 h with h | ⟨q, hq, h⟩
      · exact hd (immense_of_scaleAmount hu h)
      · obtain ⟨r, rfl⟩ := scaleAmount_finite hq
        rw [coerceAmount] at h
        split at h <;> exact absurd h nofun
    · rw [he'] at h
      exact hno (Except.error.inj h ▸ hb)

/-- **An amount is too large** when its magnitude takes it beyond the greatest power of ten. -/
theorem coerceOn_trillions {zeros : Nat} (hk : f.kind = .currency) (hcurrency : currency = false)
    (hzeros : Decimal.greatestPower < zeros + 12) :
    coerceOn f (.number (.finite ⟨false, 10 ^ zeros, 0⟩)) (some (.magnitude .trillion)) currency =
      .error (.fault .tooLarge) := by
  have hfault : scaleAmount (.finite ⟨false, 10 ^ zeros, 0⟩) (some (.magnitude .trillion)) = .error (.fault .tooLarge) := by
    have hplaces : (Quantity.finite ⟨false, 10 ^ zeros, 0⟩).shift Magnitude.trillion.places =
        Quantity.ofResult ((⟨false, 10 ^ zeros, 0⟩ : Decimal).shift (12 : Nat)) := rfl
    rw [scaleAmount, hplaces, Decimal.shift_pow hzeros]
    rfl
  have hunit : amountUnit f (some (.magnitude .trillion)) currency = .ok () := by
    simp [amountUnit, hcurrency]
  rw [coerceOn_amount (.inl hk), hunit, hfault]
  rfl

end Catalog
end EquityScreen
