/-
What a number literal is worth on a field of figures, measured by the value that is meant: the literal moved by
the places of its unit.

* `Kind.Admits`: the units that a kind of field takes.
* `Kind.Exact`: the number for a value, a whole number where the value is one and the field holds amounts, and
  the nearest double otherwise.
* `Catalog.coerce_exact`: a unit is refused exactly when it does not fit; any other literal of 28 digits is worth
  its value exactly, unless the arithmetic for it leaves the range of decimals at the top or near zero.
-/
import EquityScreen.Proofs.Catalog.Coercion
import EquityScreen.Proofs.Decimal.Fitted
import EquityScreen.Proofs.Double.Nearest

namespace EquityScreen

/-! ## Units and values -/

namespace Kind

/-- Fields of the kind hold amounts, whole where they can be. -/
def IsAmount (k : Kind) : Prop := k = Kind.currency ∨ k = Kind.numeric

/-- The unit and the currency sign fit the kind. -/
def Admits : Kind → Option UnitMark → Bool → Prop
  | .percentage, unit, sign => (unit = none ∨ unit = some .percent) ∧ sign = false
  | .ratio, unit, sign => (unit = none ∨ unit = some .times) ∧ sign = false
  | .currency, unit, _ => unit = none ∨ ∃ m, unit = some (.magnitude m)
  | .numeric, unit, sign => (unit = none ∨ ∃ m, unit = some (.magnitude m)) ∧ sign = false
  | .sector, _, _ | .text, _, _ => False

/-- The places that a literal is moved by, when it is moved at all. -/
def places? : Kind → Option UnitMark → Option Int
  | .percentage, _ => some (-2)
  | .currency, some (.magnitude m) | .numeric, some (.magnitude m) => some m.places
  | _, _ => none

/-- The value that a literal stands for. -/
def meant (k : Kind) (unit : Option UnitMark) (d : Decimal) : Decimal := d.moved ((k.places? unit).getD 0)

/-- The number that a field of the kind holds for a value. -/
inductive Exact (k : Kind) (d : Decimal) : Number → Prop
  | whole {n : Int} (amount : k.IsAmount) (eq : (n : ℚ) = d.value) : Exact k d (.int n)
  | double {x : Double} (fraction : k.IsAmount → ∀ n : Int, (n : ℚ) ≠ d.value) (rounds : x.Rounds d.negative d.size) :
      Exact k d (.double x)

/-- What a field of the kind makes of a literal: the number for its value, unless that is worked out with decimals
and leaves their range. Beyond the top of it there is no answer; near zero nothing is left of an amount. -/
inductive Worth (k : Kind) (unit : Option UnitMark) (d : Decimal) : Except CoercionError Value → Prop
  | tooLarge (moved : (k.places? unit).isSome = true) (beyond : (k.meant unit d).Overflows) :
      Worth k unit d (.error (.fault .tooLarge))
  | nothing (moved : (k.places? unit).isSome = true) (amount : k.IsAmount) (small : (k.meant unit d).Vanishes) :
      Worth k unit d (.ok (.number (.int 0)))
  | exact {n : Number} (within : (k.places? unit).isSome = true → ¬ (k.meant unit d).Overflows)
      (left : (k.places? unit).isSome = true → k.IsAmount → ¬ (k.meant unit d).Vanishes)
      (value : k.Exact (k.meant unit d) n) : Worth k unit d (.ok (.number n))

variable {k : Kind} {d r : Decimal} {unit : Option UnitMark} {places : Int}

theorem meant_of_places (h : k.places? unit = some places) (d : Decimal) : k.meant unit d = d.moved places := by
  rw [meant, h, Option.getD_some]

theorem meant_of_none (h : k.places? unit = none) (d : Decimal) : k.meant unit d = d := by
  rw [meant, h, Option.getD_none, Decimal.moved, Int.add_zero]

/-- The value that is meant is the literal's times the power of ten that its unit stands for. -/
theorem value_meant (k : Kind) (unit : Option UnitMark) (d : Decimal) :
    (k.meant unit d).value = d.value * 10 ^ (k.places? unit).getD 0 :=
  d.value_moved _

/-- The double of a decimal is the number for its value, where no whole number is asked for. -/
theorem exact_ofDecimal (hk : ¬ k.IsAmount) (d : Decimal) : k.Exact d (.double (.ofDecimal d)) :=
  .double (fun h => absurd h hk) (Double.rounds_ofDecimal d)

end Kind

/-! ## Amounts -/

namespace Catalog

variable {f : Field} {k : Kind} {d r : Decimal} {unit : Option UnitMark} {currency : Bool} {places : Int}

/-- **An amount is worth its value.** -/
theorem exact_coerceAmount (hk : k.IsAmount) (d : Decimal) :
    ∃ n, coerceAmount (.finite d) = .ok (.number n) ∧ k.Exact d n := by
  by_cases hd : d.isWhole = true
  · exact ⟨_, if_pos hd, .whole hk (Decimal.truncate_of_isWhole hd)⟩
  · refine ⟨_, if_neg hd, .double (fun _ n hn => hd ?_) (Double.rounds_ofDecimal d)⟩
    exact (Decimal.isWhole_iff_value d).2 ⟨n, hn⟩

/-- What arithmetic leaves of an amount is worth as much, unless nothing is left. -/
theorem coerceAmount_fitted (hd : d.Short) (hr : d.fitted = some r) :
    (d.Vanishes → coerceAmount (.finite r) = .ok (.number (.int 0))) ∧
      (¬ d.Vanishes → coerceAmount (.finite r) = coerceAmount (.finite d)) := by
  obtain ⟨hnothing, hsame⟩ := hd.truncate_fitted hr
  constructor
  · intro hsmall
    obtain ⟨hwhole, hzero⟩ := hnothing hsmall
    simp only [coerceAmount, hwhole, if_true, hzero]
  · intro hstays
    obtain ⟨hwhole, htruncate⟩ := hsame hstays
    simp only [coerceAmount, hwhole, hd.ofDecimal_fitted hr]
    split
    · next h => rw [htruncate h]
    · rfl

/-- A literal that is moved by no places. -/
theorem worth_coerceAmount (hk : k.IsAmount) (hplaces : k.places? unit = none) (d : Decimal) :
    k.Worth unit d (coerceAmount (.finite d)) := by
  obtain ⟨n, hn, hexact⟩ := exact_coerceAmount hk d
  rw [hn]
  have hno : (k.places? unit).isSome ≠ true := by rw [hplaces]; exact Bool.false_ne_true
  exact .exact (fun h => absurd h hno) (fun h => absurd h hno) (by rwa [Kind.meant_of_none hplaces])

/-- A literal that is moved: its result, or why there is none. -/
theorem worth_shift {g : Quantity → Except CoercionError Value} (hd : d.Short) (hplaces : k.places? unit = some places)
    (hg : ∀ r, d.shift places = some r → ¬ (d.moved places).Overflows → k.Worth unit d (g (.finite r))) :
    k.Worth unit d (match (Quantity.finite d).shift places with
      | .ok q => g q
      | .error e => .error (.fault e)) := by
  have hmoved : (k.places? unit).isSome = true := by rw [hplaces]; rfl
  have hmeant := Kind.meant_of_places hplaces d
  have hnone := (hd.moved places).fitted_eq_none_iff
  have hshift : (d.moved places).fitted = d.shift places := rfl
  rw [hshift] at hnone
  simp only [Quantity.shift]
  cases hr : d.shift places with
  | none => exact .tooLarge hmoved (by rw [hmeant]; exact hnone.1 hr)
  | some r => exact hg r hr fun hover => absurd (hr.symm.trans (hnone.2 hover)) (by simp)

/-! ## Units -/

theorem onlyUnit_ok {allowed : UnitMark} (label : String) (h : (unit = none ∨ unit = some allowed) ∧ currency = false) :
    onlyUnit allowed label unit currency = .ok () := by
  obtain ⟨rfl | rfl, rfl⟩ := h <;> simp [onlyUnit]

theorem onlyUnit_error {allowed : UnitMark} (label : String)
    (h : ¬ ((unit = none ∨ unit = some allowed) ∧ currency = false)) :
    ∃ mark, onlyUnit allowed label unit currency = .error (.unitMismatch label mark) := by
  refine ⟨refusedUnit unit, if_pos ?_⟩
  cases currency with
  | true => rfl
  | false =>
    cases unit with
    | none => exact absurd ⟨.inl rfl, rfl⟩ h
    | some u =>
      have hne : u ≠ allowed := fun heq => h ⟨.inr (congrArg some heq), rfl⟩
      simp [hne]

theorem amountUnit_ok (hunit : unit = none ∨ ∃ m, unit = some (.magnitude m))
    (hsign : f.kind = .currency ∨ currency = false) : amountUnit f unit currency = .ok () := by
  obtain rfl | ⟨m, rfl⟩ := hunit <;> rcases hsign with hsign | rfl <;> simp [amountUnit, *]

theorem amountUnit_error (hknown : ∀ mark, unit ≠ some (.other mark))
    (h : ¬ ((unit = none ∨ ∃ m, unit = some (.magnitude m)) ∧ (f.kind = .currency ∨ currency = false))) :
    ∃ mark, amountUnit f unit currency = .error (.unitMismatch f.label mark) := by
  unfold amountUnit
  split
  · exact ⟨_, rfl⟩
  · next hunit =>
    refine ⟨"currency", if_pos ?_⟩
    have hfits : unit = none ∨ ∃ m, unit = some (.magnitude m) := by
      match unit with
      | none => exact .inl rfl
      | some (.magnitude m) => exact .inr ⟨m, rfl⟩
      | some .percent | some .times => exact absurd rfl hunit
      | some (.other mark) => exact absurd rfl (hknown mark)
    cases currency with
    | false => exact absurd ⟨hfits, .inr rfl⟩ h
    | true =>
      have hkind : f.kind ≠ .currency := fun hkind => h ⟨hfits, .inl hkind⟩
      simp [hkind]

/-! ## Literals -/

/-- An amount times its magnitude. -/
theorem worth_scaled (hk : f.kind.IsAmount) (hd : d.Short) (hunit : unit = none ∨ ∃ m, unit = some (.magnitude m)) :
    f.kind.Worth unit d ((scaleAmount (.finite d) unit).bind coerceAmount) := by
  obtain rfl | ⟨m, rfl⟩ := hunit
  · exact worth_coerceAmount hk (by rcases hk with hk | hk <;> rw [hk] <;> rfl) d
  · have hplaces : f.kind.places? (some (.magnitude m)) = some (m.places : Int) := by
      rcases hk with hk | hk <;> rw [hk] <;> rfl
    have hworth := worth_shift (g := coerceAmount) hd hplaces fun r hr hfits => ?_
    · simp only [scaleAmount]
      cases hshift : (Quantity.finite d).shift m.places with
      | ok q => rwa [hshift] at hworth
      | error e => rwa [hshift] at hworth
    · obtain ⟨hnothing, hsame⟩ := coerceAmount_fitted (hd.moved m.places) hr
      rw [← Kind.meant_of_places hplaces d] at hnothing hsame hfits
      by_cases hsmall : (f.kind.meant (some (.magnitude m)) d).Vanishes
      · rw [hnothing hsmall]
        exact .nothing (by rw [hplaces]; rfl) hk hsmall
      · rw [hsame hsmall]
        obtain ⟨n, hn, hexact⟩ := exact_coerceAmount hk (f.kind.meant (some (.magnitude m)) d)
        rw [hn]
        exact .exact (fun _ => hfits) (fun _ _ => hsmall) hexact

/-- A literal whose unit fits is worth what it stands for. -/
theorem worth_coerceOn (hunit : f.kind.Admits unit currency) (hd : d.Short) :
    f.kind.Worth unit d (coerceOn f (.number (.finite d)) unit currency) := by
  cases hk : f.kind with
  | sector | text => rw [hk] at hunit; exact hunit.elim
  | percentage =>
    rw [hk] at hunit
    rw [coerceOn_percentage hk, onlyUnit_ok _ hunit]
    have hplaces : Kind.percentage.places? unit = some (-2) := rfl
    have hamount : ¬ Kind.percentage.IsAmount := by simp [Kind.IsAmount]
    refine worth_shift (g := fun r => .ok (.number (.double r.toDouble))) hd hplaces fun r hr hfits => ?_
    rw [← Kind.meant_of_places hplaces d] at hfits
    have hdouble : Double.ofDecimal r = Double.ofDecimal (Kind.percentage.meant unit d) := (hd.moved (-2)).ofDecimal_fitted hr
    simp only [Quantity.toDouble, hdouble]
    exact .exact (fun _ => hfits) (fun _ h => absurd h hamount) (Kind.exact_ofDecimal hamount _)
  | ratio =>
    rw [hk] at hunit
    rw [coerceOn_ratio hk, onlyUnit_ok _ hunit]
    have hplaces : Kind.ratio.places? unit = none := by cases unit <;> rfl
    have hamount : ¬ Kind.ratio.IsAmount := by simp [Kind.IsAmount]
    have hno : (Kind.ratio.places? unit).isSome ≠ true := by rw [hplaces]; exact Bool.false_ne_true
    refine .exact (fun h => absurd h hno) (fun h => absurd h hno) ?_
    rw [Kind.meant_of_none hplaces]
    exact Kind.exact_ofDecimal hamount d
  | currency =>
    rw [hk] at hunit
    rw [← hk, coerceOn_amount (.inl hk), amountUnit_ok hunit (.inl hk)]
    exact worth_scaled (.inl hk) hd hunit
  | numeric =>
    rw [hk] at hunit
    rw [← hk, coerceOn_amount (.inr hk), amountUnit_ok hunit.1 (.inr hunit.2)]
    exact worth_scaled (.inr hk) hd hunit.1

/-- A literal whose unit does not fit is refused. -/
theorem coerceOn_of_not_admits (hk : f.kind.isNumeric = true) (hknown : ∀ mark, unit ≠ some (.other mark))
    (hunit : ¬ f.kind.Admits unit currency) (d : Decimal) :
    ∃ mark, coerceOn f (.number (.finite d)) unit currency = .error (.unitMismatch f.label mark) := by
  cases hkind : f.kind with
  | sector | text => rw [hkind] at hk; exact absurd hk (by decide)
  | percentage =>
    rw [hkind] at hunit
    obtain ⟨mark, herror⟩ := onlyUnit_error f.label hunit
    exact ⟨mark, by rw [coerceOn_percentage hkind, herror]; rfl⟩
  | ratio =>
    rw [hkind] at hunit
    obtain ⟨mark, herror⟩ := onlyUnit_error f.label hunit
    exact ⟨mark, by rw [coerceOn_ratio hkind, herror]; rfl⟩
  | currency =>
    rw [hkind] at hunit
    obtain ⟨mark, herror⟩ := @amountUnit_error f unit currency hknown fun hfits => hunit hfits.1
    exact ⟨mark, by rw [coerceOn_amount (.inl hkind), herror]; rfl⟩
  | numeric =>
    rw [hkind] at hunit
    obtain ⟨mark, herror⟩ := @amountUnit_error f unit currency hknown fun hfits =>
      hunit ⟨hfits.1, hfits.2.resolve_left (by rw [hkind]; decide)⟩
    exact ⟨mark, by rw [coerceOn_amount (.inr hkind), herror]; rfl⟩

/-- **Literals are worth their value.** On a field of figures a number is refused for its unit exactly when the unit or
the currency sign does not fit. Any other of at most 28 digits is worth the number for the value that it stands for,
unless that leaves the range of decimals on the way. -/
theorem coerce_exact {c : Catalog} {key : String} (hfield : c.field? key = some f) (hk : f.kind.isNumeric = true)
    (hknown : ∀ mark, unit ≠ some (.other mark)) (hd : d.Short) :
    ((∃ label mark, c.coerce key (.number (.finite d)) unit currency = .error (.unitMismatch label mark)) ↔
        ¬ f.kind.Admits unit currency) ∧
      (f.kind.Admits unit currency →
        f.kind.Worth unit d (c.coerce key (.number (.finite d)) unit currency)) := by
  have hcoerce : c.coerce key (.number (.finite d)) unit currency = coerceOn f (.number (.finite d)) unit currency := by
    rw [coerce, hfield]
  rw [hcoerce]
  refine ⟨⟨fun ⟨label, mark, hrefused⟩ hunit => ?_, fun hunit => ?_⟩, fun hunit => worth_coerceOn hunit hd⟩
  · have hworth := worth_coerceOn hunit hd
    rw [hrefused] at hworth
    cases hworth
  · exact ⟨f.label, coerceOn_of_not_admits hk hknown hunit d⟩

/-- One and a half crore of a market capitalisation, with a currency sign. -/
theorem coerce_exact_crores :
    (Catalog.builtin.field? "mcap").isSome = true ∧ Kind.currency.Admits (some (.magnitude .crore)) true ∧
      Kind.currency.Worth (some (.magnitude .crore)) ⟨false, 15, -1⟩
        (Catalog.builtin.coerce "mcap" (.number (.finite ⟨false, 15, -1⟩)) (some (.magnitude .crore)) true) := by
  obtain ⟨f, hf, hkind⟩ : ∃ f, Catalog.builtin.field? "mcap" = some f ∧ f.kind = .currency :=
    ⟨(Catalog.builtin.field? "mcap").get (by decide +kernel), by simp, by decide +kernel⟩
  have hunit : Kind.currency.Admits (some (.magnitude .crore)) true := .inr ⟨_, rfl⟩
  have hworth := (@coerce_exact f ⟨false, 15, -1⟩ (some (.magnitude .crore)) true Catalog.builtin "mcap" hf
    (by rw [hkind]; rfl) (fun mark => by simp) ⟨_, .refl _, by decide⟩).2
  rw [hkind] at hworth
  exact ⟨by decide +kernel, hunit, hworth hunit⟩

/-- A literal of one digit that is worth nothing, and is not refused for its unit either: ten to the power of 999988,
in trillions. -/
theorem not_forall_coerce_exact :
    ¬ ∀ (key : String) (f : Field) (d : Decimal) (unit : Option UnitMark) (currency : Bool),
      Catalog.builtin.field? key = some f → f.kind.isNumeric = true → d.Short → f.kind.Admits unit currency →
        ∃ n, Catalog.builtin.coerce key (.number (.finite d)) unit currency = .ok (.number n) ∧
          f.kind.Exact (f.kind.meant unit d) n := by
  intro hall
  obtain ⟨f, hf, hkind⟩ : ∃ f, Catalog.builtin.field? "mcap" = some f ∧ f.kind = .currency :=
    ⟨(Catalog.builtin.field? "mcap").get (by decide +kernel), by simp, by decide +kernel⟩
  obtain ⟨zeros, hzeros⟩ : ∃ zeros : Nat, zeros = 999988 := ⟨_, rfl⟩
  obtain ⟨n, hn, -⟩ := hall "mcap" f ⟨false, 10 ^ zeros, 0⟩ (some (.magnitude .trillion)) false hf (by rw [hkind]; rfl)
    (Decimal.short_pow _ _) (by rw [hkind]; exact .inr ⟨_, rfl⟩)
  rw [coerce, hf] at hn
  exact absurd (hn.symm.trans (coerceOn_trillions hkind rfl (by rw [hzeros]; decide))) (by simp)

end Catalog
end EquityScreen
