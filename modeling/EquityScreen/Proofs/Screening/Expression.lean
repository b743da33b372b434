/-
Which securities an expression selects.

Conjunctions and alternatives of filters are looked at from left to right, so they can be regrouped
(`holds_congruence`). Where a clause on a sector at the front of an expression holds, the expression
means what is left without the clause (`holds_of_lifted`).
-/
import EquityScreen.Proofs.Grouping.Formula
import EquityScreen.Proofs.Screening.Total

namespace EquityScreen

variable {c : Catalog} {s : Security}

namespace Predicate

/-- What a conjunction says of a security. -/
theorem holds_and (p q : Predicate) (s : Security) :
    (Predicate.and p q).holds c s = match p.holds c s with
      | .ok true => q.holds c s
      | r => r := rfl

/-- What an alternative says of a security. -/
theorem holds_or (p q : Predicate) (s : Security) :
    (Predicate.or p q).holds c s = match p.holds c s with
      | .ok false => q.holds c s
      | r => r := rfl

/-- **Filters can be regrouped.** -/
theorem holds_congruence (c : Catalog) (s : Security) : Congruence fun p q => p.holds c s = q.holds c s where
  equiv := ⟨fun _ => rfl, Eq.symm, Eq.trans⟩
  and hp hq := by simp only [holds_and, hp, hq]
  or hp hq := by simp only [holds_or, hp, hq]
  and_assoc p q r := by
    simp only [holds_and]
    rcases p.holds c s with _ | _ | _ <;> rfl
  or_assoc p q r := by
    simp only [holds_or]
    rcases p.holds c s with _ | _ | _ <;> rfl

theorem holds_conjoin (p q : Predicate) (s : Security) :
    (p.conjoin q).holds c s = (Predicate.and p q).holds c s := by
  unfold conjoin
  split
  · rfl
  · rw [holds_and]
    rcases p.holds c s with _ | _ | _ <;> rfl
  · rfl

end Predicate

namespace Formula

variable {f g : Formula} {b : Bool} {name : String}

/-- An expression of which nothing is left is the clause. -/
theorem tree_of_lifted (h : f.lifted b = some name) (hu : f.unled = none) :
    f.tree = .sectorIn (.ofList [name]) := by
  cases f with
  | filter | group => simp [lifted] at h
  | sector n =>
    cases b with
    | true => simp [lifted] at h
    | false => rw [← Option.some.inj (show some n = some name from h)]; rfl
  | and l r | or l r => simp [unled] at hu

/-- Where the clause at the front holds, what is left decides. -/
theorem holds_of_lifted (h : f.lifted b = some name) (hg : f.unled = some g)
    (hs : (Predicate.sectorIn (.ofList [name])).holds c s = .ok true) :
    g.tree.holds c s = f.tree.holds c s := by
  induction f generalizing b g with
  | filter | sector | group => simp [unled] at hg
  | and l r ihl =>
    rw [tree, Predicate.holds_and, ← Option.some.inj hg]
    cases hl : l.unled with
    | none => rw [tree_of_lifted (f := l) h hl, hs]
    | some l' => rw [← ihl h hl]; rfl
  | or l r ihl =>
    obtain ⟨l', hl⟩ := unled_of_lifted_true h
    rw [tree, Predicate.holds_or, ← Option.some.inj hg, hl, ← ihl h hl]
    rfl

theorem every_of_lifted {P : Comparison → Prop} (h : f.lifted b = some name) (hg : f.unled = some g)
    (hf : f.tree.Every P) : g.tree.Every P := by
  induction f generalizing b g with
  | filter | sector | group => simp [unled] at hg
  | and l r ihl =>
    obtain ⟨hl, hr⟩ := Predicate.every_and.1 hf
    rw [← Option.some.inj hg]
    cases hu : l.unled with
    | none => exact hr
    | some l' => exact Predicate.every_and.2 ⟨ihl h hu hl, hr⟩
  | or l r ihl =>
    obtain ⟨hl, hr⟩ := Predicate.every_or.1 hf
    obtain ⟨l', hu⟩ := unled_of_lifted_true h
    rw [← Option.some.inj hg, hu]
    exact Predicate.every_or.2 ⟨ihl h hu hl, hr⟩

end Formula
end EquityScreen
