/-
What reading, running and wording a plan rely on in a catalog, and that the built-in catalog has it.

A field of figures takes figures, in the form of its kind: a fraction or a multiple is a double, an
amount or a count a whole number or a double, and never not-a-number. A text field takes texts.
-/
import EquityScreen.Catalog.Builtin
import EquityScreen.Proofs.Catalog.Names
import EquityScreen.Proofs.Predicate.Comparisons
import EquityScreen.Vocabulary
import EquityScreen.Wording.Amount

namespace EquityScreen

/-- The value has the form that values on a field of the kind have. Comparisons of the sector field
are sector sets, so no value is compared with it. -/
def Kind.Takes : Kind → Value → Prop
  | .text, .text _ => True
  | .percentage, .number (.double x) | .ratio, .number (.double x) => x ≠ .nan
  | .currency, .number n | .numeric, .number n => n.isNaN = false
  | _, _ => False

/-- The number is a value on a field of the kind and can be written in either style. -/
def Kind.Suits (k : Kind) (n : Number) : Prop :=
  k.Takes (.number n) ∧
    ∀ style ∈ CurrencyStyle.all, ((Value.number n).worded k style).isOk = true

/-- The comparison is about a field of the catalog, by an operator and with a value of that field. -/
def Comparison.Fits (c : Catalog) (cmp : Comparison) : Prop :=
  ∃ f, c.field? cmp.field = some f ∧ cmp.op ≠ .between ∧ cmp.op ∈ f.operators ∧ f.kind.Takes cmp.value

/-- A comparison of a phrase is about a field of figures. -/
def Vocabulary.PhraseTerm.Fits (c : Catalog) (t : PhraseTerm) : Prop :=
  ∃ f ∈ c.field? t.field, f.kind.isNumeric = true ∧ t.op ≠ .between ∧ ∀ n ∈ t.value, f.kind.Suits n

/-- What is relied on in a catalog. -/
structure Catalog.Regular (c : Catalog) : Prop where
  sector : ∀ f ∈ c.fields, f.kind = .sector ↔ f.key = "sector"
  operators : ∀ f ∈ c.fields, f.operators = f.kind.operators
  thresholds : ∀ f ∈ c.fields, ∀ n ∈ f.threshold, f.kind.isNumeric = true ∧ f.kind.Suits n
  symbol : ∃ f ∈ c.field? "symbol", f.kind = .text
  phrases : ∀ e ∈ Vocabulary.phrases, ∀ t ∈ e.2, t.Fits c
  orders : ∀ e ∈ Vocabulary.orders, (c.field? e.2.field).isSome = true
  fallback : (c.field? "mcap").isSome = true

/-! ## Fields -/

namespace Catalog

variable {c : Catalog} {f : Field} {key : String}

theorem mem_fields_of_field? (h : c.field? key = some f) : f ∈ c.fields := List.mem_of_find?_eq_some h

theorem key_of_field? (h : c.field? key = some f) : f.key = key := by
  have := List.find?_some h
  simpa using this

theorem field?_key (h : c.field? key = some f) : c.field? f.key = some f := by
  rw [key_of_field? h]; exact h

end Catalog

/-! ## Kinds -/

theorem Kind.all_operators (op : Operator) : op ∈ Operator.all := by cases op <;> decide

theorem Kind.mem_operators_of_isNumeric {k : Kind} (hk : k.isNumeric = true) (op : Operator) :
    op ∈ k.operators := by
  unfold operators
  rw [if_pos hk]
  exact all_operators op

theorem Kind.negated_mem_operators {k : Kind} {op op' : Operator} (h : op ∈ k.operators)
    (hneg : op.negated? = some op') : op' ∈ k.operators := by
  unfold operators at h ⊢
  split
  · exact all_operators op'
  · next hk =>
    rw [if_neg hk] at h
    simp only [List.mem_cons, List.not_mem_nil, or_false] at h ⊢
    rcases h with rfl | rfl <;> simp [Operator.negated?] at hneg <;> simp [← hneg]

/-! ## Fitting comparisons -/

theorem Comparison.Fits.negated {c : Catalog} (hc : c.Regular) {cmp : Comparison} {op : Operator}
    (h : cmp.Fits c) (hneg : cmp.op.negated? = some op) : Comparison.Fits c { cmp with op } := by
  obtain ⟨f, hf, hne, hop, hv⟩ := h
  refine ⟨f, hf, ?_, ?_, hv⟩
  · rintro rfl
    have := Operator.negated?_negated? hneg
    exact absurd this (by simp [Operator.negated?])
  · rw [hc.operators f (Catalog.mem_fields_of_field? hf)] at hop ⊢
    exact Kind.negated_mem_operators hop hneg

/-! ## The built-in catalog -/

instance (k : Kind) (v : Value) : Decidable (k.Takes v) :=
  match k, v with
  | .text, .text _ => isTrue trivial
  | .percentage, .number (.double x) | .ratio, .number (.double x) => inferInstanceAs (Decidable (x ≠ .nan))
  | .currency, .number n | .numeric, .number n => inferInstanceAs (Decidable (n.isNaN = false))
  | .text, .number _ | .sector, .number _ | .sector, .text _ | .percentage, .text _
  | .percentage, .number (.int _) | .ratio, .text _ | .ratio, .number (.int _)
  | .currency, .text _ | .numeric, .text _ => isFalse id

instance (k : Kind) (n : Number) : Decidable (k.Suits n) := inferInstanceAs (Decidable (_ ∧ _))

theorem regular_builtin : Catalog.builtin.Regular where
  sector := by rw [Catalog.builtin_eq, Catalog.fields_ofFields]; decide +kernel
  operators := by rw [Catalog.builtin_eq, Catalog.fields_ofFields]; decide +kernel
  thresholds := by rw [Catalog.builtin_eq, Catalog.fields_ofFields]; decide +kernel
  symbol := by unfold Catalog.field?; rw [Catalog.builtin_eq, Catalog.fields_ofFields]; decide +kernel
  phrases := by
    unfold Vocabulary.PhraseTerm.Fits Catalog.field?
    rw [Catalog.builtin_eq, Catalog.fields_ofFields]
    decide +kernel
  orders := by unfold Catalog.field?; rw [Catalog.builtin_eq, Catalog.fields_ofFields]; decide +kernel
  fallback := by unfold Catalog.field?; rw [Catalog.builtin_eq, Catalog.fields_ofFields]; decide +kernel

end EquityScreen
