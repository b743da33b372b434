/-
Expressions of clauses, and the filter that grouping their items gives.

An expression is proper when every alternative under a conjunction stands in parentheses. The items
of a proper expression are grouped the way its tree is: their filter is related to the filter of the
tree by every congruence for which the connectives are associative (`ofItems_items`).

A clause on sectors at the very front of an expression is not always grouped with the rest
(`lifted`); what is left without it is an expression again (`items_of_lifted`).
-/
import EquityScreen.Grouping
import EquityScreen.Proofs.Predicate.Negation

namespace EquityScreen

/-- An expression of clauses: filters, sectors that stand for themselves, groups in parentheses, and
the connectives between them. -/
inductive Formula where
  | filter (p : Predicate)
  | sector (name : String)
  | group (f : Formula)
  | and (l r : Formula)
  | or (l r : Formula)

namespace Formula

/-- The filter that an expression means. -/
def tree : Formula → Predicate
  | filter p => p
  | sector name => .sectorIn (.ofList [name])
  | group f => f.tree
  | and l r => .and l.tree r.tree
  | or l r => .or l.tree r.tree

/-- The items that an expression is written with. -/
def items : Formula → List Item
  | filter p => [.filter p]
  | sector name => [.filter (.sectorIn (.ofList [name]))]
  | group f => .opening :: (f.items ++ [.closing])
  | and l r => l.items ++ .and :: r.items
  | or l r => l.items ++ .or :: r.items

/-- How many clauses there are. -/
def clauses : Formula → Nat
  | filter _ | sector _ => 1
  | group f => f.clauses
  | and l r | or l r => l.clauses + r.clauses

/-- The outermost connective is an alternative, without parentheses. -/
def isAlternative : Formula → Bool
  | or _ _ => true
  | _ => false

/-- Alternatives under a conjunction stand in parentheses. -/
def Bracketed : Formula → Prop
  | filter _ | sector _ => True
  | group f => f.Bracketed
  | and l r => l.Bracketed ∧ r.Bracketed ∧ l.isAlternative = false ∧ r.isAlternative = false
  | or l r => l.Bracketed ∧ r.Bracketed

/-- Alternatives under a conjunction stand in parentheses, and every filter asks for something. -/
def Proper : Formula → Prop
  | filter p => p ≠ .all
  | sector _ => True
  | group f => f.Proper
  | and l r => l.Proper ∧ r.Proper ∧ l.isAlternative = false ∧ r.isAlternative = false
  | or l r => l.Proper ∧ r.Proper

/-! ## Grouping -/

/-- The group after an expression. -/
def pushed (g : Group) : Formula → Group
  | filter p => g.meet (some p)
  | sector name => g.meet (some (.sectorIn (.ofList [name])))
  | group f => g.meet (f.pushed {}).value
  | and l r => r.pushed (l.pushed g)
  | or l r => r.pushed (l.pushed g).alternative

/-- Reading the items of an expression only changes the group at hand. -/
theorem foldl_push (f : Formula) (ended : Option Predicate) (g : Group) (outer : List Group) :
    f.items.foldl Grouping.push ⟨ended, g, outer⟩ = ⟨ended, f.pushed g, outer⟩ := by
  induction f generalizing g outer with
  | filter p => rfl
  | sector name => rfl
  | group f ih =>
    rw [items, List.foldl_cons, List.foldl_append]
    show [Item.closing].foldl Grouping.push (f.items.foldl Grouping.push ⟨ended, {}, g :: outer⟩) = _
    rw [ih]
    rfl
  | and l r ihl ihr =>
    rw [items, List.foldl_append, ihl, List.foldl_cons]
    exact ihr _ _
  | or l r ihl ihr =>
    rw [items, List.foldl_append, ihl, List.foldl_cons]
    exact ihr _ _

theorem ofItems_eq (f : Formula) : Predicate.ofItems f.items = (f.pushed {}).value.getD .all := by
  unfold Predicate.ofItems
  rw [show ({} : Grouping) = ⟨none, {}, []⟩ from rfl, foldl_push]
  show (joinWith Predicate.conjoin none (f.pushed {}).value).getD .all = _
  rfl

end Formula

/-- A congruence of filters for which the connectives are associative. -/
structure Predicate.Congruence (R : Predicate → Predicate → Prop) : Prop where
  equiv : Equivalence R
  and : ∀ {p p' q q'}, R p p' → R q q' → R (.and p q) (.and p' q')
  or : ∀ {p p' q q'}, R p p' → R q q' → R (.or p q) (.or p' q')
  and_assoc : ∀ p q r, R (.and (.and p q) r) (.and p (.and q r))
  or_assoc : ∀ p q r, R (.or (.or p q) r) (.or p (.or q r))

namespace Predicate

variable {p q : Predicate}

/-- A filter after those that it is conjoined with, if any. -/
def after : Option Predicate → Predicate → Predicate
  | none, p => p
  | some q, p => .and q p

/-- A filter beside its alternatives, if any. -/
def beside : Option Predicate → Predicate → Predicate
  | none, p => p
  | some q, p => .or q p

theorem joinWith_conjoin {o : Option Predicate} (ho : o ≠ some .all) (hp : p ≠ .all) :
    joinWith conjoin o (some p) = some (after o p) := by
  cases o with
  | none => rfl
  | some q => exact congrArg some (conjoin_eq_and (fun h => ho (h ▸ rfl)) hp)

theorem joinWith_disjoin {o : Option Predicate} (ho : o ≠ some .all) (hp : p ≠ .all) :
    joinWith disjoin o (some p) = some (beside o p) := by
  cases o with
  | none => rfl
  | some q => exact congrArg some (disjoin_eq_or (fun h => ho (h ▸ rfl)) hp)

theorem after_ne_all (o : Option Predicate) (hp : p ≠ .all) : after o p ≠ .all := by
  cases o with
  | none => exact hp
  | some q => exact nofun

theorem beside_ne_all (o : Option Predicate) (hp : p ≠ .all) : beside o p ≠ .all := by
  cases o with
  | none => exact hp
  | some q => exact nofun

namespace Congruence

variable {R : Predicate → Predicate → Prop} (hR : Congruence R)
include hR

theorem after (o : Option Predicate) (h : R p q) : R (p.after o) (q.after o) := by
  cases o with
  | none => exact h
  | some r => exact hR.and (hR.equiv.refl r) h

theorem beside (o : Option Predicate) (h : R p q) : R (p.beside o) (q.beside o) := by
  cases o with
  | none => exact h
  | some r => exact hR.or (hR.equiv.refl r) h

theorem and_after (o : Option Predicate) (p q : Predicate) : R (.and (p.after o) q) ((Predicate.and p q).after o) := by
  cases o with
  | none => exact hR.equiv.refl _
  | some r => exact hR.and_assoc r p q

theorem or_beside (o : Option Predicate) (p q : Predicate) : R (.or (p.beside o) q) ((Predicate.or p q).beside o) := by
  cases o with
  | none => exact hR.equiv.refl _
  | some r => exact hR.or_assoc r p q

end Congruence
end Predicate

namespace Formula

variable {R : Predicate → Predicate → Prop} (hR : Predicate.Congruence R)
include hR

/-- What a filter that stands for an expression does to a group. -/
theorem meet_related {g : Group} (hg : g.current ≠ some .all) {p t : Predicate} (hp : p ≠ .all) (h : R p t) :
    ∃ q, g.meet (some p) = { g with current := some q } ∧ q ≠ .all ∧ R q (t.after g.current) :=
  ⟨p.after g.current, by rw [Group.meet, Predicate.joinWith_conjoin hg hp], Predicate.after_ne_all _ hp,
    hR.after _ h⟩

/-- **The group after an expression.** Without an alternative of its own the expression joins the
conjunction at hand; at the start of a conjunction it joins the alternatives. -/
theorem pushed_related {f : Formula} (hf : f.Proper) :
    (f.isAlternative = false → ∀ g : Group, g.current ≠ some .all →
      ∃ q, f.pushed g = { g with current := some q } ∧ q ≠ .all ∧ R q (f.tree.after g.current)) ∧
    ∀ g : Group, g.current = none → g.alternatives ≠ some .all →
      ∃ q, (f.pushed g).value = some q ∧ q ≠ .all ∧ R q (f.tree.beside g.alternatives) := by
  -- An expression that joins the conjunction at hand joins the alternatives at the start of one.
  have hstart : ∀ f : Formula, (∀ g : Group, g.current ≠ some .all →
      ∃ q, f.pushed g = { g with current := some q } ∧ q ≠ .all ∧ R q (f.tree.after g.current)) →
      ∀ g : Group, g.current = none → g.alternatives ≠ some .all →
        ∃ q, (f.pushed g).value = some q ∧ q ≠ .all ∧ R q (f.tree.beside g.alternatives) := by
    intro f h g hcurrent halternatives
    obtain ⟨q, hq, hne, hrel⟩ := h g (by rw [hcurrent]; exact nofun)
    rw [hcurrent] at hrel
    refine ⟨q.beside g.alternatives, ?_, Predicate.beside_ne_all _ hne, hR.beside _ hrel⟩
    rw [hq, Group.value]
    exact Predicate.joinWith_disjoin halternatives hne
  induction f with
  | filter p =>
    have h := fun (g : Group) (hg : g.current ≠ some .all) => meet_related hR hg hf (hR.equiv.refl p)
    exact ⟨fun _ => h, hstart _ h⟩
  | sector name =>
    have h := fun (g : Group) (hg : g.current ≠ some .all) =>
      meet_related hR hg (p := .sectorIn (.ofList [name])) nofun (hR.equiv.refl _)
    exact ⟨fun _ => h, hstart _ h⟩
  | group f ih =>
    have h : ∀ g : Group, g.current ≠ some .all → ∃ q, (group f).pushed g = { g with current := some q } ∧
        q ≠ .all ∧ R q (f.tree.after g.current) := by
      intro g hg
      obtain ⟨p, hp, hne, hrel⟩ := (ih hf).2 {} rfl nofun
      rw [pushed, hp]
      exact meet_related hR hg hne hrel
    exact ⟨fun _ => h, hstart _ h⟩
  | and l r ihl ihr =>
    obtain ⟨hl, hr, hln, hrn⟩ := hf
    have h : ∀ g : Group, g.current ≠ some .all → ∃ q, (and l r).pushed g = { g with current := some q } ∧
        q ≠ .all ∧ R q ((Predicate.and l.tree r.tree).after g.current) := by
      intro g hg
      obtain ⟨p, hp, hpne, hprel⟩ := (ihl hl).1 hln g hg
      obtain ⟨q, hq, hqne, hqrel⟩ := (ihr hr).1 hrn { g with current := some p } (by simpa using hpne)
      refine ⟨q, by rw [pushed, hp, hq], hqne, hR.equiv.trans hqrel ?_⟩
      exact hR.equiv.trans (hR.and hprel (hR.equiv.refl _)) (hR.and_after _ _ _)
    exact ⟨fun _ => h, hstart _ h⟩
  | or l r ihl ihr =>
    refine ⟨nofun, fun g hcurrent halternatives => ?_⟩
    obtain ⟨p, hp, hpne, hprel⟩ := (ihl hf.1).2 g hcurrent halternatives
    obtain ⟨q, hq, hqne, hqrel⟩ := (ihr hf.2).2 (l.pushed g).alternative rfl (by
      rw [Group.alternative, hp]
      exact fun h => hpne (Option.some.inj h))
    refine ⟨q, hq, hqne, hR.equiv.trans hqrel ?_⟩
    rw [Group.alternative, hp]
    exact hR.equiv.trans (hR.or hprel (hR.equiv.refl _)) (hR.or_beside _ _ _)

/-- **The items of an expression are grouped as its tree is.** -/
theorem ofItems_items {f : Formula} (hf : f.Proper) :
    Predicate.ofItems f.items ≠ .all ∧ R (Predicate.ofItems f.items) f.tree := by
  obtain ⟨q, hq, hne, hrel⟩ := (pushed_related hR hf).2 {} rfl nofun
  rw [ofItems_eq, hq]
  exact ⟨hne, hrel⟩

end Formula

/-! ## Sectors at the front -/

namespace Formula

/-- The sector of a clause at the very front that is not grouped with the rest: one with no "or" after
it. -/
def lifted (beforeOr : Bool) : Formula → Option String
  | sector name => if beforeOr then none else some name
  | filter _ | group _ => none
  | and l _ => l.lifted false
  | or l _ => l.lifted true

/-- What is left without the clause at the very front. -/
def unled : Formula → Option Formula
  | filter _ | sector _ | group _ => none
  | and l r => some (match l.unled with | none => r | some l => .and l r)
  | or l r => some (match l.unled with | none => r | some l => .or l r)

theorem unled_of_lifted_true {f : Formula} {name : String} (h : f.lifted true = some name) :
    ∃ g, f.unled = some g := by
  cases f with
  | filter | sector | group => simp [lifted] at h
  | and l r => exact ⟨_, rfl⟩
  | or l r => exact ⟨_, rfl⟩

theorem items_of_lifted {f : Formula} {b : Bool} {name : String} (h : f.lifted b = some name) :
    f.items = .filter (.sectorIn (.ofList [name])) ::
      match f.unled with
      | none => []
      | some g => .and :: g.items := by
  induction f generalizing b with
  | filter | group => simp [lifted] at h
  | sector n =>
    cases b with
    | true => simp [lifted] at h
    | false =>
      rw [← Option.some.inj (show some n = some name from h)]
      rfl
  | and l r ihl =>
    rw [items, ihl h, unled]
    cases l.unled with
    | none => rfl
    | some g => simp [items]
  | or l r ihl =>
    obtain ⟨g, hg⟩ := unled_of_lifted_true h
    rw [items, ihl h, unled, hg]
    simp [items]

theorem proper_of_lifted {f : Formula} (hf : f.Proper) {b : Bool} {name : String}
    (h : f.lifted b = some name) {g : Formula} (hg : f.unled = some g) :
    g.Proper ∧ (f.isAlternative = false → g.isAlternative = false) := by
  induction f generalizing b g with
  | filter | sector | group => simp [unled] at hg
  | and l r ihl =>
    obtain ⟨hl, hr, hln, hrn⟩ := hf
    rw [← Option.some.inj hg]
    cases hu : l.unled with
    | none => exact ⟨hr, fun _ => hrn⟩
    | some l' =>
      obtain ⟨hproper, hn⟩ := ihl hl h hu
      exact ⟨⟨hproper, hr, hn hln, hrn⟩, fun _ => rfl⟩
  | or l r ihl =>
    obtain ⟨l', hu⟩ := unled_of_lifted_true h
    rw [← Option.some.inj hg, hu]
    exact ⟨⟨(ihl hf.1 h hu).1, hf.2⟩, nofun⟩

end Formula
end EquityScreen
