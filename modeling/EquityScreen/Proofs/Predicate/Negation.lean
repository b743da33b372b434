/-
Filters with a complement: no part of them holds of everything, and none of their comparisons is
`between`. The complement of such a filter is another one.

What the complement of a filter looks like is said once, as a relation (`Complement`), and what is
proved of complements is proved by induction on it.
-/
import EquityScreen.Predicate
import EquityScreen.Proofs.Outcome

namespace EquityScreen
namespace Predicate

/-- No part holds of everything, and no comparison is `between`. -/
def Reversible : Predicate → Prop
  | .all => False
  | .compare c => c.op ≠ .between
  | .sectorIn _ | .sectorOut _ => True
  | .and p q | .or p q => p.Reversible ∧ q.Reversible

/-! ## Joining filters of which none holds of everything -/

theorem conjoin_eq_and {p q : Predicate} (hp : p ≠ .all) (hq : q ≠ .all) : p.conjoin q = .and p q := by
  cases p <;> cases q <;> first | rfl | exact absurd rfl hp | exact absurd rfl hq

theorem disjoin_eq_or {p q : Predicate} (hp : p ≠ .all) (hq : q ≠ .all) : p.disjoin q = .or p q := by
  cases p <;> cases q <;> first | rfl | exact absurd rfl hp | exact absurd rfl hq

@[simp] theorem all_conjoin (p : Predicate) : conjoin .all p = p := by cases p <;> rfl

@[simp] theorem conjoin_all (p : Predicate) : p.conjoin .all = p := by cases p <;> rfl

theorem Reversible.ne_all {p : Predicate} (h : p.Reversible) : p ≠ .all := by
  rintro rfl; exact h

theorem Reversible.conjoin {p q : Predicate} (hp : p.Reversible) (hq : q.Reversible) :
    (p.conjoin q).Reversible := by
  rw [conjoin_eq_and hp.ne_all hq.ne_all]; exact ⟨hp, hq⟩

theorem Reversible.disjoin {p q : Predicate} (hp : p.Reversible) (hq : q.Reversible) :
    (p.disjoin q).Reversible := by
  rw [disjoin_eq_or hp.ne_all hq.ne_all]; exact ⟨hp, hq⟩

/-! ## The complement -/

/-- A comparison other than `between` has a complement, which is not `between` either. -/
theorem negated?_of_ne {op : Operator} (h : op ≠ .between) :
    ∃ op', op.negated? = some op' ∧ op' ≠ .between := by
  cases op
  case between => exact absurd rfl h
  all_goals exact ⟨_, rfl, by simp⟩

/-- A filter and what it is turned into: comparisons and sectors are turned round, `and` and `or` change places. -/
inductive Complement : Predicate → Predicate → Prop
  | compare {cmp : Comparison} {op : Operator} : cmp.op.negated? = some op →
    Complement (.compare cmp) (.compare { cmp with op })
  | sectorIn (s : SectorSet) : Complement (.sectorIn s) (.sectorOut s)
  | sectorOut (s : SectorSet) : Complement (.sectorOut s) (.sectorIn s)
  | and {l l' r r' : Predicate} : Complement l l' → Complement r r' → Complement (.and l r) (.or l' r')
  | or {l l' r r' : Predicate} : Complement l l' → Complement r r' → Complement (.or l r) (.and l' r')

theorem Complement.ne_all {p q : Predicate} (h : Complement p q) : q ≠ .all := by
  cases h <;> exact nofun

/-- Joining complements leaves none out, for none of them holds of everything. -/
theorem complement_of_negate {p q : Predicate} (h : p.negate = .ok q) : Complement p q := by
  induction p generalizing q with
  | all => exact absurd h (by simp [negate])
  | compare c =>
    rw [negate] at h
    split at h
    · next op hop =>
      rw [← Except.ok.inj h]
      exact .compare hop
    · exact absurd h (by simp)
  | sectorIn s =>
    rw [← Except.ok.inj h]
    exact .sectorIn s
  | sectorOut s =>
    rw [← Except.ok.inj h]
    exact .sectorOut s
  | and l r ihl ihr =>
    obtain ⟨l', hl, h⟩ := Except.bind_ok_iff.1 h
    obtain ⟨r', hr, h⟩ := Except.bind_ok_iff.1 h
    rw [← Except.ok.inj h, disjoin_eq_or (ihl hl).ne_all (ihr hr).ne_all]
    exact .and (ihl hl) (ihr hr)
  | or l r ihl ihr =>
    obtain ⟨l', hl, h⟩ := Except.bind_ok_iff.1 h
    obtain ⟨r', hr, h⟩ := Except.bind_ok_iff.1 h
    rw [← Except.ok.inj h, conjoin_eq_and (ihl hl).ne_all (ihr hr).ne_all]
    exact .or (ihl hl) (ihr hr)

/-- No complement holds of everything. -/
theorem ne_all_of_negate {p q : Predicate} (h : p.negate = .ok q) : q ≠ .all := (complement_of_negate h).ne_all

theorem negate_of_reversible {p : Predicate} (h : p.Reversible) :
    ∃ q, p.negate = .ok q ∧ q.Reversible := by
  induction p with
  | all => exact absurd h id
  | compare c =>
    obtain ⟨op, hop, hne⟩ := negated?_of_ne h
    exact ⟨.compare { c with op }, by simp [negate, hop], hne⟩
  | sectorIn s => exact ⟨.sectorOut s, rfl, trivial⟩
  | sectorOut s => exact ⟨.sectorIn s, rfl, trivial⟩
  | and p q ihp ihq =>
    obtain ⟨p', hp, hp'⟩ := ihp h.1
    obtain ⟨q', hq, hq'⟩ := ihq h.2
    exact ⟨p'.disjoin q', by rw [negate, hp, hq]; rfl, hp'.disjoin hq'⟩
  | or p q ihp ihq =>
    obtain ⟨p', hp, hp'⟩ := ihp h.1
    obtain ⟨q', hq, hq'⟩ := ihq h.2
    exact ⟨p'.conjoin q', by rw [negate, hp, hq]; rfl, hp'.conjoin hq'⟩

end Predicate
end EquityScreen
