/-
Properties that every comparison of a filter has. Joining filters and turning them round brings in
no other comparisons, so such a property goes over to whatever filters are put together.
-/
import EquityScreen.Proofs.Predicate.Negation

namespace EquityScreen
namespace Predicate

/-- Every comparison of the filter has the property. -/
def Every (P : Comparison → Prop) (p : Predicate) : Prop := ∀ cmp ∈ p.comparisons, P cmp

variable {P : Comparison → Prop} {p q : Predicate}

theorem comparisons_conjoin (p q : Predicate) :
    (p.conjoin q).comparisons = p.comparisons ++ q.comparisons := by
  cases p <;> cases q <;> simp [conjoin, comparisons]

theorem fields_conjoin (p q : Predicate) : (p.conjoin q).fields = p.fields ++ q.fields := by
  cases p <;> cases q <;> simp [conjoin, fields]

@[simp] theorem every_all : Every P .all := by
  intro cmp h
  exact absurd h (by simp [comparisons])

@[simp] theorem every_compare {c : Comparison} : Every P (.compare c) ↔ P c := by
  simp [Every, comparisons]

@[simp] theorem every_sectorIn {s : SectorSet} : Every P (.sectorIn s) := by
  intro cmp h
  exact absurd h (by simp [comparisons])

@[simp] theorem every_sectorOut {s : SectorSet} : Every P (.sectorOut s) := by
  intro cmp h
  exact absurd h (by simp [comparisons])

@[simp] theorem every_and : Every P (.and p q) ↔ p.Every P ∧ q.Every P := by
  simp only [Every, comparisons, List.mem_append, or_imp, forall_and]

@[simp] theorem every_or : Every P (.or p q) ↔ p.Every P ∧ q.Every P := by
  simp only [Every, comparisons, List.mem_append, or_imp, forall_and]

@[simp] theorem every_conjoin : (p.conjoin q).Every P ↔ p.Every P ∧ q.Every P := by
  simp only [Every, comparisons_conjoin, List.mem_append, or_imp, forall_and]

theorem Every.conjoin (hp : p.Every P) (hq : q.Every P) : (p.conjoin q).Every P :=
  every_conjoin.2 ⟨hp, hq⟩

/-- The complement has the comparisons turned round. -/
theorem Every.negate (hneg : ∀ cmp op, P cmp → cmp.op.negated? = some op → P { cmp with op })
    (hp : p.Every P) (h : p.negate = .ok q) : q.Every P := by
  have hcomplement := complement_of_negate h
  clear h
  induction hcomplement with
  | compare hop => exact every_compare.2 (hneg _ _ (every_compare.1 hp) hop)
  | sectorIn s => exact every_sectorOut
  | sectorOut s => exact every_sectorIn
  | and _ _ ihl ihr =>
    obtain ⟨hl, hr⟩ := every_and.1 hp
    exact every_or.2 ⟨ihl hl, ihr hr⟩
  | or _ _ ihl ihr =>
    obtain ⟨hl, hr⟩ := every_or.1 hp
    exact every_and.2 ⟨ihl hl, ihr hr⟩

/-- What holds of both sides of an `and` when it holds of the whole holds of every conjunct. -/
theorem forall_conjuncts {Q : Predicate → Prop} (hand : ∀ l r, Q (.and l r) → Q l ∧ Q r) (h : Q p) :
    ∀ q ∈ p.conjuncts, Q q := by
  induction p with
  | all => exact List.forall_mem_nil _
  | and l r ihl ihr => exact List.forall_mem_append.2 ⟨ihl (hand l r h).1, ihr (hand l r h).2⟩
  | _ => exact List.forall_mem_singleton.2 h

/-- The comparisons of a filter are those of its conjuncts. -/
theorem every_conjuncts : (∀ q ∈ p.conjuncts, q.Every P) ↔ p.Every P := by
  induction p with
  | all => simp [conjuncts]
  | compare c => simp [conjuncts]
  | sectorIn s => simp [conjuncts]
  | sectorOut s => simp [conjuncts]
  | and l r ihl ihr =>
    rw [every_and, ← ihl, ← ihr]
    simp only [conjuncts, List.mem_append, or_imp, forall_and]
  | or l r => simp [conjuncts]

end Predicate
end EquityScreen
