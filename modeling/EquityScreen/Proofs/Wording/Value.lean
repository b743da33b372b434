/-
Values written and read again.

A number is written as figures: a numeral and its mark (`Figures`). What the figures of a number are
worth on its field is that number again (`Field.Canonical.figures`): the shortest decimal of a double reads
back, moving the point there and back keeps the value of a decimal, and no value of a field is so large that
digits are lost on the way. Cut into tokens, figures are one number, so a number of a field reads back as
itself (`Field.Canonical.reads_back`). A text stands between quotes (`Field.Canonical.quoted`).
-/
import EquityScreen.Catalog.Builtin
import EquityScreen.Catalog.Coercion
import EquityScreen.Proofs.Catalog.Coercion
import EquityScreen.Proofs.Decimal.Writing
import EquityScreen.Proofs.Double.Whole
import EquityScreen.Proofs.Outcome
import EquityScreen.Proofs.Predicate.Form

namespace EquityScreen

open Decimal (digitCount digitCount_pos digitCount_le_iff)

/-! ## Figures -/

/-- A number as it is written: a numeral and its mark, if there is one. -/
structure Figures where
  negative : Bool
  whole : List Char
  fraction : List Char
  mark : Option UnitMark
  whole_digits : Scan.Digits whole
  whole_nonempty : whole ≠ []
  fraction_digits : Scan.Digits fraction
  mark_known : ∀ s, mark ≠ some (.other s)

namespace Figures

/-- The characters of the figures. -/
def chars (w : Figures) : List Char := Scan.numeralChars w.negative w.whole w.fraction ++ Scan.markChars w.mark

/-- The decimal of the numeral. -/
def value (w : Figures) : Decimal := .ofNumeral w.negative w.whole w.fraction

/-- Figures that stand alone are one number. -/
theorem tokenize_chars (w : Figures) :
    ∃ t, tokenize (String.ofList w.chars) = .ok [t] ∧ t.said = (.number w.value w.mark false, String.ofList w.chars) := by
  obtain ⟨c, cs, hcs, hc⟩ := Scan.numeralChars_cons w.negative w.fraction w.whole_digits w.whole_nonempty
  have hblank := (Scan.numeral_first hc).1
  have hplus : c ≠ '+' := by
    rintro rfl
    rcases hc with hc | hc
    · exact absurd hc (by decide)
    · exact absurd hc.digit (by decide)
  have hmark : Scan.refinement? w.chars = none := by
    rw [chars, hcs, List.cons_append, Scan.refinement?, List.dropWhile_cons_of_neg (by simp [hblank])]
    split
    · next h => exact absurd (List.cons.inj h).1 hplus
    · rfl
  have hcuts := Scan.cuts_nil.cons
    (Scan.begins_number w.negative w.whole_digits w.whole_nonempty w.fraction_digits w.mark_known .nil)
  rw [List.append_nil] at hcuts
  obtain ⟨ts, hts, hsaid⟩ := tokenize_of_cuts String.toList_ofList hcuts hmark
  obtain ⟨t, rfl⟩ : ∃ t, ts = [t] := by
    apply List.length_eq_one_iff.1
    rw [← List.length_map (f := Token.said), hsaid]
    rfl
  exact ⟨t, hts, (List.cons.inj hsaid).1⟩

end Figures

open Decimal (Alike)

/-- A trimmed decimal is the numeral of figures, with whatever mark. -/
theorem Decimal.trimmed_figures (places : Nat) (d : Decimal) (mark : Option UnitMark)
    (hmark : ∀ s, mark ≠ some (.other s)) :
    ∃ w : Figures, w.mark = mark ∧ String.ofList w.chars = d.trimmed places ++ (mark.map UnitMark.spelling).getD "" ∧
      Alike d w.value := by
  obtain ⟨ds, fs, h, heq⟩ := d.trimmed_numeral places
  refine ⟨⟨d.negative, ds, fs, mark, h.whole, h.nonempty, h.fraction, hmark⟩, rfl, ?_, h.alike⟩
  rw [heq, Figures.chars, String.ofList_append, Scan.markChars, String.ofList_toList]

/-- A decimal of an ordinary size: so few digits, and those so near the point, that arithmetic keeps it. -/
structure Decimal.Ordinary (d : Decimal) : Prop where
  digits : digitCount d.coefficient ≤ 28
  low : -1000 ≤ d.exponent
  high : d.leading < 2000

namespace Decimal.Ordinary

variable {d q : Decimal}

/-- An ordinary decimal is its own result. -/
theorem fitted (h : d.Ordinary) : d.fitted = some d := by
  have hleast : leastPower = -1000026 := rfl
  have hgreat : greatestPower = 999999 := rfl
  have hlead := h.high
  have hexp := h.low
  have := digitCount_pos d.coefficient
  refine fitted_of_plain h.digits (by omega) ?_ (by omega)
  unfold leading at hlead
  omega

/-- Moving the point of an ordinary decimal moves it. -/
theorem shift (h : d.Ordinary) (places : Int) (hlow : -100 ≤ places) (hhigh : places ≤ 100) :
    d.shift places = some { d with exponent := d.exponent + places } := by
  have hleast : leastPower = -1000026 := rfl
  have hgreat : greatestPower = 999999 := rfl
  have hlead := h.high
  have hexp := h.low
  have := digitCount_pos d.coefficient
  unfold leading at hlead
  refine fitted_of_plain h.digits ?_ ?_ ?_
  · dsimp only
    omega
  · dsimp only
    omega
  · dsimp only [leading]
    omega

/-- Moving the point of a decimal to where an ordinary one has it gives the value of that. -/
theorem shift_alike (h : d.Ordinary) (places : Int) (halike : Alike { d with exponent := d.exponent - places } q) :
    ∃ r, q.shift places = some r ∧ Alike d r := by
  have hlead := h.high
  have hlow : -1000 ≤ d.exponent := h.low
  have hmoved := halike.moved places
  dsimp only at hmoved
  rw [Int.sub_add_cancel] at hmoved
  exact hmoved.fitted h.digits (Int.le_trans (by decide) hlow) (Int.le_of_lt (Int.lt_trans hlead (by decide)))

end Decimal.Ordinary

/-! ## Doubles -/

theorem Double.ordinary_toDecimal (negative : Bool) {steps : Nat} (below : steps < stepLimit) :
    (toDecimal negative steps).Ordinary := by
  obtain ⟨hlow, hhigh⟩ := toDecimal_size negative below
  have hdigits := digitCount_toDecimal negative steps
  exact ⟨by omega, by omega, by omega⟩

/-- A double as a percentage. -/
theorem Double.percentage_figures (style : CurrencyStyle) (negative : Bool) {steps : Nat} (below : steps < stepLimit)
    (fits : Fits steps) :
    ∃ w : Figures, w.mark = some .percent ∧
      (Quantity.finite (toDecimal negative steps)).worded .percentage style = .ok (String.ofList w.chars) ∧
      Catalog.coercePercentage (.finite w.value) = .ok (.number (.double (.finite negative steps below fits))) := by
  have hordinary := ordinary_toDecimal negative below
  have hback := ofDecimal_toDecimal negative below fits
  generalize toDecimal negative steps = d at hordinary hback ⊢
  have hshift := hordinary.shift 2 (by decide) (by decide)
  obtain ⟨w, hmark, hchars, halike⟩ :=
    Decimal.trimmed_figures 1 { d with exponent := d.exponent + 2 } (some .percent) nofun
  refine ⟨w, hmark, ?_, ?_⟩
  · simp only [Quantity.worded, Quantity.shift, hshift, Quantity.ofResult, Quantity.trimmed]
    rw [hchars]
    rfl
  · obtain ⟨r, hr, hvalue⟩ := hordinary.shift_alike (q := w.value) (-2) (by rwa [Int.sub_neg])
    simp only [Catalog.coercePercentage, Quantity.shift, hr, Quantity.ofResult, Quantity.toDouble]
    rw [← ofDecimal_alike hvalue, hback]

/-- A double as a multiple. -/
theorem Double.ratio_figures (style : CurrencyStyle) (negative : Bool) {steps : Nat} (below : steps < stepLimit)
    (fits : Fits steps) :
    ∃ w : Figures, w.mark = none ∧
      (Quantity.finite (toDecimal negative steps)).worded .ratio style = .ok (String.ofList w.chars) ∧
      Catalog.coerceRatio (.finite w.value) = .ok (.number (.double (.finite negative steps below fits))) := by
  obtain ⟨w, hmark, hchars, halike⟩ := Decimal.trimmed_figures 2 (toDecimal negative steps) none nofun
  refine ⟨w, hmark, ?_, ?_⟩
  · simp only [Quantity.worded, Quantity.trimmed]
    rw [hchars]
    exact congrArg Except.ok String.append_empty.symm
  · simp only [Catalog.coerceRatio, Quantity.toDouble]
    rw [← ofDecimal_alike halike, ofDecimal_toDecimal negative below fits]

/-! ## Amounts -/

/-- **An amount is written as figures**, abbreviated or not, and multiplied out again it has its value. -/
theorem Decimal.abbreviated_figures {d : Decimal} (h : d.Ordinary) (hhigh : d.leading < 28) (ms : List Magnitude) :
    ∃ w : Figures, d.abbreviated ms = .ok (String.ofList w.chars) ∧
      (w.mark = none ∨ ∃ m, w.mark = some (.magnitude m)) ∧
      ∃ q, Catalog.scaleAmount (.finite w.value) w.mark = .ok (.finite q) ∧ Alike d q := by
  induction ms with
  | nil =>
    obtain ⟨w, hmark, hchars, halike⟩ := trimmed_figures 0 d none nofun
    refine ⟨w, ?_, .inl hmark, w.value, ?_, halike⟩
    · rw [abbreviated, hchars]
      exact congrArg Except.ok String.append_empty.symm
    · rw [hmark]
      rfl
  | cons m ms ih =>
    obtain ⟨hm, hm'⟩ : 3 ≤ m.places ∧ m.places ≤ 12 := by cases m <;> decide
    have hshift := h.shift (-(m.places : Int)) (by omega) (by omega)
    simp only [abbreviated, h.fitted, hshift, AmountError.result, bind, Except.bind]
    split
    · have hshort : ({ d with exponent := d.exponent + -(m.places : Int) } : Decimal).tooLongFor 2 = false := by
        unfold leading at hhigh
        unfold tooLongFor leading precision
        refine decide_eq_false ?_
        dsimp only
        omega
      rw [hshort, if_neg Bool.false_ne_true]
      split
      · obtain ⟨w, hmark, hchars, halike⟩ :=
          trimmed_figures 0 { d with exponent := d.exponent + -(m.places : Int) } (some (.magnitude m)) nofun
        obtain ⟨r, hr, hvalue⟩ := h.shift_alike (q := w.value) m.places (by rwa [Int.sub_eq_add_neg])
        refine ⟨w, ?_, .inr ⟨m, hmark⟩, r, ?_, hvalue⟩
        · rw [hchars]
          rfl
        · simp only [hmark, Catalog.scaleAmount, Quantity.shift, hr, Quantity.ofResult]
      · exact ih
    · exact ih

/-- What an amount is worth depends on its value alone. -/
theorem Catalog.coerceAmount_alike {d q : Decimal} (h : Alike d q) :
    coerceAmount (.finite q) = coerceAmount (.finite d) := by
  simp only [coerceAmount, ← h.isWhole, ← h.truncate, ← Double.ofDecimal_alike h]

/-- The number is a whole number of at most 28 digits, or a double up to `2 ^ 53`. -/
def Number.IsAmount : Number → Prop
  | .int n => n.natAbs < 10 ^ 28
  | .double (.finite _ steps _ _) => steps ≤ 2 ^ 53 * stepsPerOne
  | .double _ => False

/-- An amount is worth its own value. -/
theorem Number.IsAmount.coerceAmount {n : Number} (h : n.IsAmount) :
    ∃ d, n.toQuantity = .finite d ∧ d.Ordinary ∧ d.leading < 28 ∧
      ∃ n', Catalog.coerceAmount (.finite d) = .ok (.number n') ∧ n'.same n = true := by
  cases n with
  | int n =>
    have hdigits : digitCount n.natAbs ≤ 28 := (digitCount_le_iff (by decide)).2 h
    have hlead : (Decimal.ofInt n).leading < 28 := by
      unfold Decimal.leading Decimal.ofInt
      dsimp only
      omega
    have hordinary : (Decimal.ofInt n).Ordinary := ⟨hdigits, show -1000 ≤ (0 : Int) by decide, by omega⟩
    refine ⟨.ofInt n, rfl, hordinary, hlead, .int n, ?_, Number.same_iff.2 ⟨_, rfl, rfl⟩⟩
    rw [Catalog.coerceAmount, if_pos (show (Decimal.ofInt n).isWhole = true from if_pos (Int.le_refl 0)),
      Decimal.truncate_ofInt]
  | double x =>
    cases x with
    | nan | infinite => exact absurd h id
    | finite negative steps below fits =>
      refine ⟨Double.toDecimal negative steps, rfl, Double.ordinary_toDecimal negative below,
        Double.leading_toDecimal negative fits h, ?_⟩
      rw [Catalog.coerceAmount]
      split
      · next hwhole =>
        have hplace := congrArg (some <| Place.at ·) (Double.truncate_toDecimal negative below fits h hwhole)
        exact ⟨_, rfl, Number.same_iff.2 ⟨_, hplace, rfl⟩⟩
      · rw [Double.ofDecimal_toDecimal negative below fits]
        exact ⟨_, rfl, Number.same_iff.2 ⟨_, rfl, rfl⟩⟩

/-! ## Values of a field -/

/-- The double is a number, and no infinity. -/
def Double.IsFinite : Double → Prop
  | .finite .. => True
  | .nan | .infinite _ => False

/-- The values that a comparison with a field can hold and a query can write: finite doubles on percentages
and multiples, amounts on currencies and plain numbers, and on texts what has no blank at either end and no
double quote, in capitals for a symbol. -/
def Field.Canonical (f : Field) (v : Value) : Prop :=
  match f.kind, v with
  | .percentage, .number (.double x) | .ratio, .number (.double x) => x.IsFinite
  | .currency, .number n | .numeric, .number n => n.IsAmount
  | .text, .text s => Text.trim s = s ∧ '\x22' ∉ s.toList ∧ (f.key = "symbol" → Text.upper s = s)
  | _, _ => False

variable {f : Field} {v : Value}

/-- A finite double is the same as itself. -/
theorem Value.same_finite (negative : Bool) {steps : Nat} (below : steps < stepLimit) (fits : Fits steps) :
    (Value.number (.double (.finite negative steps below fits))).same
      (.number (.double (.finite negative steps below fits))) = true := by
  rw [Value.same, Number.same_iff]
  exact ⟨_, rfl, rfl⟩

/-- **A number of a field is written as figures** that are worth the number on the field. -/
theorem Field.Canonical.figures (h : f.Canonical v) (hk : f.kind ≠ .text) (style : CurrencyStyle) :
    ∃ w : Figures, v.worded f.kind style = .ok (String.ofList w.chars) ∧
      ∃ v', Catalog.coerceOn f (.number (.finite w.value)) w.mark false = .ok v' ∧ v'.same v = true := by
  have hamount : ∀ {n : Number}, f.kind = .currency ∨ f.kind = .numeric → v = .number n → n.IsAmount →
      ∃ w : Figures, v.worded f.kind style = .ok (String.ofList w.chars) ∧
        ∃ v', Catalog.coerceOn f (.number (.finite w.value)) w.mark false = .ok v' ∧ v'.same v = true := by
    rintro n hkind rfl hn
    obtain ⟨d, hd, hordinary, hhigh, n', hn', hsame⟩ := hn.coerceAmount
    obtain ⟨w, hw, hmark, q, hq, halike⟩ := Decimal.abbreviated_figures hordinary hhigh style.magnitudes
    have hunit : Catalog.amountUnit f w.mark false = .ok () := by
      rcases hmark with hmark | ⟨m, hmark⟩ <;> rw [hmark] <;> rfl
    refine ⟨w, ?_, .number n', ?_, hsame⟩
    · rcases hkind with hkind | hkind <;>
        simp only [hkind, Value.worded, Value.quantity?, hd, Quantity.worded, hw, Except.mapError_ok]
    · rw [Catalog.coerceOn_amount hkind, hunit, hq, ← hn', ← Catalog.coerceAmount_alike halike]
      rfl
  unfold Field.Canonical at h
  split at h
  · next x hkind =>
    cases x with
    | nan | infinite => exact absurd h id
    | finite negative steps below fits =>
      obtain ⟨w, hmark, hw, hv⟩ := Double.percentage_figures style negative below fits
      refine ⟨w, ?_, _, ?_, Value.same_finite negative below fits⟩
      · simp only [hkind, Value.worded, Value.quantity?, Number.toQuantity, hw, Except.mapError_ok]
      · rw [Catalog.coerceOn_percentage hkind, hmark]
        exact hv
  · next x hkind =>
    cases x with
    | nan | infinite => exact absurd h id
    | finite negative steps below fits =>
      obtain ⟨w, hmark, hw, hv⟩ := Double.ratio_figures style negative below fits
      refine ⟨w, ?_, _, ?_, Value.same_finite negative below fits⟩
      · simp only [hkind, Value.worded, Value.quantity?, Number.toQuantity, hw, Except.mapError_ok]
      · rw [Catalog.coerceOn_ratio hkind, hmark]
        exact hv
  · next hkind => exact hamount (.inl hkind) rfl h
  · next hkind => exact hamount (.inr hkind) rfl h
  · next hkind => exact absurd hkind hk
  · exact absurd h id

/-- **A text of a field is written between quotes** and is worth itself. -/
theorem Field.Canonical.quoted (h : f.Canonical v) (hk : f.kind = .text) (style : CurrencyStyle) :
    ∃ s, v = .text s ∧ v.worded f.kind style = .ok ("\x22" ++ s ++ "\x22") ∧ Text.trim s = s ∧ '\x22' ∉ s.toList ∧
      Catalog.coerceOn f (.text s) none false = .ok v := by
  unfold Field.Canonical at h
  rw [hk] at h
  cases v with
  | number n => exact absurd h id
  | text s =>
    obtain ⟨htrim, hquote, hupper⟩ := h
    refine ⟨s, rfl, by rw [hk]; rfl, htrim, hquote, ?_⟩
    rw [Catalog.coerceOn_text hk]
    simp only [Catalog.coerceText, Option.isSome_none, Bool.or_self, Bool.false_eq_true, if_false,
      htrim]
    split
    · next hkey => rw [hupper (beq_iff_eq.1 hkey)]
    · rfl

/-- **A rendered number reads back as itself.** A number of a field is put into words in either style; cut
into tokens the text is one number without a currency sign; and the value that this number has on the field,
with the mark that it carries, is the number that was written. -/
theorem Field.Canonical.reads_back {c : Catalog} {key : String} {f : Field} (hf : c.field? key = some f)
    (hk : f.kind ≠ .text) {v : Value} (hv : f.Canonical v) (style : CurrencyStyle) :
    ∃ text q u t v', v.worded f.kind style = .ok text ∧ tokenize text = .ok [t] ∧ t.content = .number q u false ∧
      c.coerce key (.number (.finite q)) u false = .ok v' ∧ v'.same v = true := by
  obtain ⟨w, hworded, v', hv', hsame⟩ := hv.figures hk style
  obtain ⟨t, ht, hsaid⟩ := w.tokenize_chars
  refine ⟨_, w.value, w.mark, t, v', hworded, ht, congrArg Prod.fst hsaid, ?_, hsame⟩
  rw [Catalog.coerce, hf]
  exact hv'

/-- Twelve billion and some are written in millions, which leave two places. -/
theorem Field.Canonical.reads_back_millions :
    let v : Value := .number (.int (-12345670000))
    ∃ f, Catalog.builtin.field? "mcap" = some f ∧ f.kind ≠ .text ∧ f.Canonical v ∧
      v.worded f.kind .western = .ok "-12345.67M" ∧ ∃ text q u t v', v.worded f.kind .western = .ok text ∧
        tokenize text = .ok [t] ∧ t.content = .number q u false ∧
        Catalog.builtin.coerce "mcap" (.number (.finite q)) u false = .ok v' ∧ v'.same v = true := by
  intro v
  obtain ⟨f, hf, hkind⟩ : ∃ f, Catalog.builtin.field? "mcap" = some f ∧ f.kind = .currency :=
    Option.map_eq_some_iff.1 (show (Catalog.builtin.field? "mcap").map (·.kind) = some .currency by decide)
  have hk : f.kind ≠ .text := by rw [hkind]; decide
  have hv : f.Canonical v := by
    unfold Field.Canonical
    rw [hkind]
    show (-12345670000 : Int).natAbs < 10 ^ 28
    decide
  have hworded : v.worded f.kind .western = .ok "-12345.67M" := by
    rw [hkind]
    exact Except.toOption_eq_some.1 (by decide +kernel)
  exact ⟨f, hf, hk, hv, hworded, Field.Canonical.reads_back hf hk hv .western⟩

end EquityScreen
