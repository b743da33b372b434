/-
Filters by descent.

The items of a filter can also be read by loops that call one another: one for filters and groups, one for
conjunctions, and one for alternatives. The loops stand here turn by turn, without a bound on their turns: a loop comes
to an answer if finitely many turns lead to it (`Reads`, `ReadsAll`). On every row of items, however its connectives and
parentheses stand, they come to one answer, with all of the row read, and it is the filter that reading item after item
gives (`builds_iff`).
-/
import EquityScreen.Grouping

namespace EquityScreen
namespace Descent

/-! ## The loops -/

/-- A loop, with what it has found so far. -/
inductive Loop where
  /-- A filter, or a group. -/
  | primary
  /-- The rest of a conjunction. -/
  | conjunction (left : Option Predicate)
  /-- The rest of a row of alternatives. -/
  | disjunction (left : Option Predicate)
  /-- A row of alternatives. -/
  | alternatives

/-- No filter and no group comes next. -/
def Bare (items : List Item) : Prop := ∀ i ∈ items.head?, i ≠ .opening ∧ ∀ p, i ≠ .filter p

/-- The items behind a parenthesis that closes a group, where one comes next. -/
def pastClosing : List Item → List Item
  | .closing :: rest => rest
  | rest => rest

/-- Where the next operand of a conjunction is read, if one is. -/
def operand? : List Item → Option (List Item)
  | .and :: rest => some rest
  | .filter p :: rest => some (.filter p :: rest)
  | .opening :: rest => some (.opening :: rest)
  | _ => none

/-- From these items the loop comes to an answer, and to the items behind what it has read. -/
inductive Reads : Loop → List Item → Option Predicate → List Item → Prop
  | filter {p : Predicate} {rest : List Item} : Reads .primary (.filter p :: rest) (some p) rest
  | group {items rest : List Item} {p : Option Predicate} :
    Reads .alternatives items p rest → Reads .primary (.opening :: items) p (pastClosing rest)
  | nothing {items : List Item} : Bare items → Reads .primary items none items
  | operand {items found mid rest : List Item} {left right p : Option Predicate} :
    operand? items = some found → Reads .primary found right mid →
    Reads (.conjunction (joinWith .conjoin left right)) mid p rest → Reads (.conjunction left) items p rest
  | conjoined {items : List Item} {left : Option Predicate} :
    operand? items = none → Reads (.conjunction left) items left items
  | or {items mid mid' rest : List Item} {left first right p : Option Predicate} :
    Reads .primary items first mid → Reads (.conjunction first) mid right mid' →
    Reads (.disjunction (joinWith .disjoin left right)) mid' p rest → Reads (.disjunction left) (.or :: items) p rest
  | disjoined {items : List Item} {left : Option Predicate} :
    items.head? ≠ some .or → Reads (.disjunction left) items left items
  | alternatives {items mid mid' rest : List Item} {first left p : Option Predicate} :
    Reads .primary items first mid → Reads (.conjunction first) mid left mid' → Reads (.disjunction left) mid' p rest →
    Reads .alternatives items p rest

/-- The items that are left; where no filter was found, a closing parenthesis too many is passed over. -/
def leftOver : Option Predicate → List Item → List Item
  | none, .closing :: rest => rest
  | _, rest => rest

/-- Reading until nothing is left comes to an answer. -/
inductive ReadsAll : Option Predicate → List Item → Option Predicate → Prop
  | done {ended : Option Predicate} : ReadsAll ended [] ended
  | turn {items rest : List Item} {ended found p : Option Predicate} : items ≠ [] → Reads .alternatives items found rest →
    ReadsAll (joinWith .conjoin ended found) (leftOver found rest) p → ReadsAll ended items p

/-- The loops come to this filter when all items are read. -/
def Builds (items : List Item) (p : Predicate) : Prop := ∃ found, ReadsAll none items found ∧ found.getD .all = p

/-! ## One answer -/

/-- **A loop comes to one answer** at most. -/
theorem Reads.unique {l : Loop} {items rest rest' : List Item} {p p' : Option Predicate} (h : Reads l items p rest)
    (h' : Reads l items p' rest') : p = p' ∧ rest = rest' := by
  induction h generalizing p' rest' with
  | filter =>
    cases h' with
    | filter => exact ⟨rfl, rfl⟩
    | nothing hbare => exact absurd rfl ((hbare _ rfl).2 _)
  | group _ ih =>
    cases h' with
    | group h' =>
      obtain ⟨rfl, rfl⟩ := ih h'
      exact ⟨rfl, rfl⟩
    | nothing hbare => exact absurd rfl (hbare _ rfl).1
  | nothing hbare =>
    cases h' with
    | filter => exact absurd rfl ((hbare _ rfl).2 _)
    | group => exact absurd rfl (hbare _ rfl).1
    | nothing => exact ⟨rfl, rfl⟩
  | operand hfound _ _ ihright ihrest =>
    cases h' with
    | operand hfound' hright' hrest' =>
      obtain rfl := Option.some.inj (hfound.symm.trans hfound')
      obtain ⟨rfl, rfl⟩ := ihright hright'
      exact ihrest hrest'
    | conjoined hnone => exact absurd (hfound.symm.trans hnone) (by simp)
  | conjoined hnone =>
    cases h' with
    | operand hfound => exact absurd (hfound.symm.trans hnone) (by simp)
    | conjoined => exact ⟨rfl, rfl⟩
  | or _ _ _ ihfirst ihright ihrest =>
    cases h' with
    | or hfirst' hright' hrest' =>
      obtain ⟨rfl, rfl⟩ := ihfirst hfirst'
      obtain ⟨rfl, rfl⟩ := ihright hright'
      exact ihrest hrest'
    | disjoined hor => exact absurd rfl hor
  | disjoined hor =>
    cases h' with
    | or => exact absurd rfl hor
    | disjoined => exact ⟨rfl, rfl⟩
  | alternatives _ _ _ ihfirst ihleft ihrest =>
    cases h' with
    | alternatives hfirst' hleft' hrest' =>
      obtain ⟨rfl, rfl⟩ := ihfirst hfirst'
      obtain ⟨rfl, rfl⟩ := ihleft hleft'
      exact ihrest hrest'

theorem ReadsAll.unique {items : List Item} {ended p p' : Option Predicate} (h : ReadsAll ended items p)
    (h' : ReadsAll ended items p') : p = p' := by
  induction h generalizing p' with
  | done =>
    cases h' with
    | done => rfl
    | turn hne => exact absurd rfl hne
  | turn hne hfound _ ih =>
    cases h' with
    | done => exact absurd rfl hne
    | turn _ hfound' hrest' =>
      obtain ⟨rfl, rfl⟩ := hfound.unique hfound'
      exact ih hrest'

/-! ## What the loops take up -/

/-- Item after item, what stands before `rest` takes the innermost group from `g` to `g'`. Groups that it leaves open
close where nothing is left. -/
def Turns (items rest : List Item) (g g' : Group) : Prop :=
  ∃ used, items = used ++ rest ∧ ∀ ended outer, ∃ inmost inner,
    used.foldl Grouping.push ⟨ended, g, outer⟩ = ⟨ended, inmost, inner ++ outer⟩ ∧
      inner.foldl (fun i o => o.meet i.value) inmost = g' ∧ (rest ≠ [] → inner = [])

variable {items mid rest : List Item} {g g' g'' : Group} {p : Option Predicate}

namespace Turns

theorem refl (items : List Item) (g : Group) : Turns items items g g :=
  ⟨[], rfl, fun _ _ => ⟨g, [], rfl, rfl, fun _ => rfl⟩⟩

theorem length_le (h : Turns items rest g g') : rest.length ≤ items.length := by
  obtain ⟨used, rfl, -⟩ := h
  rw [List.length_append]
  exact Nat.le_add_left _ _

/-- One item that opens and closes no group. -/
theorem item {i : Item} (h : ∀ ended outer, Grouping.push ⟨ended, g, outer⟩ i = ⟨ended, g', outer⟩) (rest : List Item) :
    Turns (i :: rest) rest g g' :=
  ⟨[i], rfl, fun ended outer => ⟨g', [], h ended outer, rfl, fun _ => rfl⟩⟩

theorem trans (h : Turns items mid g g') (h' : Turns mid rest g' g'') : Turns items rest g g'' := by
  obtain ⟨used, rfl, hused⟩ := h
  obtain ⟨used', rfl, hused'⟩ := h'
  by_cases hmid : used' ++ rest = []
  · obtain ⟨rfl, rfl⟩ := List.append_eq_nil_iff.1 hmid
    refine ⟨used, by simp, fun ended outer => ?_⟩
    obtain ⟨inmost', inner', hnone, hg, -⟩ := hused' ended outer
    obtain ⟨-, rfl, houter⟩ := Grouping.mk.inj hnone
    rw [List.self_eq_append_left.1 houter] at hg
    exact hg ▸ hused ended outer
  · refine ⟨used ++ used', (List.append_assoc _ _ _).symm, fun ended outer => ?_⟩
    obtain ⟨inmost, inner, hfirst, hg, hclosed⟩ := hused ended outer
    rw [hclosed hmid] at hfirst hg
    rw [List.foldl_append, hfirst, show inmost = g' from hg]
    exact hused' ended outer

/-- A group that closes. -/
theorem group (h : Turns items (.closing :: rest) {} g') (g : Group) :
    Turns (.opening :: items) rest g (g.meet g'.value) := by
  obtain ⟨used, rfl, hused⟩ := h
  refine ⟨.opening :: (used ++ [.closing]), by simp, fun ended outer => ?_⟩
  obtain ⟨inmost, inner, hfold, hg, hclosed⟩ := hused ended (g :: outer)
  rw [hclosed (List.cons_ne_nil _ _)] at hfold hg
  refine ⟨g.meet g'.value, [], ?_, rfl, fun _ => rfl⟩
  rw [List.foldl_cons, List.foldl_append, show Grouping.push ⟨ended, g, outer⟩ .opening = ⟨ended, {}, g :: outer⟩ from rfl,
    hfold, show inmost = g' from hg]
  rfl

/-- A group that nothing closes. -/
theorem unclosed (h : Turns items [] {} g') (g : Group) : Turns (.opening :: items) [] g (g.meet g'.value) := by
  obtain ⟨used, rfl, hused⟩ := h
  refine ⟨.opening :: used, by simp, fun ended outer => ?_⟩
  obtain ⟨inmost, inner, hfold, hg, -⟩ := hused ended (g :: outer)
  refine ⟨inmost, inner ++ [g], ?_, ?_, fun h => absurd rfl h⟩
  · rw [List.foldl_cons, show Grouping.push ⟨ended, g, outer⟩ .opening = ⟨ended, {}, g :: outer⟩ from rfl, hfold,
      List.append_assoc, List.singleton_append]
  · rw [List.foldl_append, hg]
    rfl

end Turns

theorem meet_none (g : Group) : g.meet none = g := by
  obtain ⟨alternatives, current⟩ := g
  cases current <;> rfl

/-- Alternatives end where nothing is left, or in front of a closing parenthesis. -/
def Stops (items : List Item) : Prop := ∀ i ∈ items.head?, i = .closing

/-- The loop over alternatives ends. -/
def Ends (items : List Item) : Prop :=
  ∃ p rest g, Reads .alternatives items p rest ∧ Stops rest ∧ Turns items rest {} g ∧ g.value = p

/-- A connective in front of an operand has no effect of its own, and an operand without one is a filter or a group. -/
theorem operand?_some {found : List Item} (h : operand? items = some found) :
    (∀ g, Turns items found g g) ∧ found.length ≤ items.length ∧ (found.length = items.length → ¬ Bare found) := by
  cases items with
  | nil => exact absurd h (by simp [operand?])
  | cons i items =>
    cases i with
    | and =>
      obtain rfl : items = found := Option.some.inj h
      exact ⟨fun g => .item (fun _ _ => rfl) items, Nat.le_succ _, fun heq => absurd heq (Nat.ne_of_lt (Nat.lt_succ_self _))⟩
    | filter p =>
      obtain rfl : .filter p :: items = found := Option.some.inj h
      exact ⟨fun g => .refl _ g, Nat.le_refl _, fun _ hbare => (hbare _ rfl).2 p rfl⟩
    | opening =>
      obtain rfl : .opening :: items = found := Option.some.inj h
      exact ⟨fun g => .refl _ g, Nat.le_refl _, fun _ hbare => (hbare _ rfl).1 rfl⟩
    | or | closing => exact absurd h (by simp [operand?])

theorem operand?_none (h : operand? items = none) : ∀ i ∈ items.head?, i = .or ∨ i = .closing := by
  intro i hi
  cases items with
  | nil => exact absurd hi (by simp)
  | cons j items =>
    obtain rfl := Option.some.inj hi
    cases j <;> simp [operand?] at h ⊢

section Loops

variable {n : Nat} (ih : ∀ items, items.length < n → Ends items)
include ih

/-- **A filter or a group** is read, if the loops end within the group. -/
theorem primary_ends (hn : items.length ≤ n) :
    ∃ p rest, Reads .primary items p rest ∧ (∀ g, Turns items rest g (g.meet p)) ∧
      (¬ Bare items → rest.length < items.length) := by
  have hnone : Bare items → ∃ p rest, Reads .primary items p rest ∧ (∀ g, Turns items rest g (g.meet p)) ∧
      (¬ Bare items → rest.length < items.length) := fun hbare =>
    ⟨none, items, .nothing hbare, fun g => (meet_none g).symm ▸ .refl _ g, fun hnot => absurd hbare hnot⟩
  cases items with
  | nil => exact hnone (by simp [Bare])
  | cons i items =>
    cases i with
    | filter p => exact ⟨some p, items, .filter, fun g => .item (fun _ _ => rfl) items, fun _ => Nat.lt_succ_self _⟩
    | opening =>
      obtain ⟨p, rest, g', halternatives, hstops, hturns, rfl⟩ := ih items hn
      refine ⟨g'.value, pastClosing rest, .group halternatives, ?_⟩
      cases rest with
      | nil => exact ⟨hturns.unclosed, fun _ => Nat.succ_pos _⟩
      | cons i rest =>
        obtain rfl : i = .closing := hstops i rfl
        have hlength := hturns.length_le
        exact ⟨hturns.group, fun _ => Nat.lt_succ_of_lt hlength⟩
    | and | or | closing => exact hnone (by simp [Bare])

/-- **The loop over a conjunction ends**: each turn takes up an item at least. -/
theorem conjunction_ends (hn : items.length ≤ n) (left : Option Predicate) :
    ∃ p rest, Reads (.conjunction left) items p rest ∧ (∀ i ∈ rest.head?, i = .or ∨ i = .closing) ∧
      ∀ a, Turns items rest ⟨a, left⟩ ⟨a, p⟩ := by
  induction hlength : items.length using Nat.strongRecOn generalizing items left with
  | ind m ihm =>
    subst hlength
    cases hoperand : operand? items with
    | none => exact ⟨left, items, .conjoined hoperand, operand?_none hoperand, fun a => .refl _ _⟩
    | some found =>
      obtain ⟨hto, hfound, hprogress⟩ := operand?_some hoperand
      obtain ⟨right, mid, hprimary, hturns, hless⟩ := primary_ends ih (Nat.le_trans hfound hn)
      have hmid := (hturns {}).length_le
      have hshorter : mid.length < items.length := by
        by_cases hsame : found.length = items.length
        · exact hsame ▸ hless (hprogress hsame)
        · omega
      obtain ⟨p, rest, hrest, hends, hmore⟩ := ihm _ hshorter (Nat.le_trans (Nat.le_of_lt hshorter) hn)
        (joinWith .conjoin left right) rfl
      exact ⟨p, rest, .operand hoperand hprimary hrest, hends,
        fun a => ((hto _).trans (hturns ⟨a, left⟩)).trans (hmore a)⟩

/-- **The loop over alternatives ends**, too. -/
theorem disjunction_ends (hn : items.length ≤ n) (hitems : ∀ i ∈ items.head?, i = .or ∨ i = .closing) (g : Group) :
    ∃ p rest g', Reads (.disjunction g.value) items p rest ∧ Stops rest ∧ Turns items rest g g' ∧ g'.value = p := by
  induction hlength : items.length using Nat.strongRecOn generalizing items g with
  | ind m ihm =>
    subst hlength
    cases items with
    | nil => exact ⟨g.value, [], g, .disjoined (by simp), by simp [Stops], .refl _ _, rfl⟩
    | cons i items =>
      rcases hitems i rfl with rfl | rfl
      · rw [List.length_cons] at hn
        obtain ⟨first, mid, hprimary, hfirst, -⟩ := primary_ends ih (Nat.le_of_succ_le hn)
        have hmid := (hfirst {}).length_le
        have hshort : mid.length ≤ n := by omega
        obtain ⟨right, mid', hconjunction, hends, hright⟩ := conjunction_ends ih hshort first
        have hshorter := Nat.lt_succ_of_le (Nat.le_trans (hright none).length_le hmid)
        obtain ⟨p, rest, g', hrest, hstops, hmore, hvalue⟩ := ihm mid'.length hshorter
          (Nat.le_trans (Nat.le_of_lt hshorter) hn) hends ⟨g.value, right⟩ rfl
        have hor : Turns (.or :: items) items g g.alternative := .item (fun _ _ => rfl) items
        exact ⟨p, rest, g', .or hprimary hconjunction hrest, hstops,
          ((hor.trans (hfirst _)).trans (hright _)).trans hmore, hvalue⟩
      · exact ⟨g.value, .closing :: items, g, .disjoined (by simp), by simp [Stops], .refl _ _, rfl⟩

theorem alternatives_ends (hn : items.length ≤ n) : Ends items := by
  obtain ⟨first, mid, hprimary, hfirst, -⟩ := primary_ends ih hn
  have hmid := (hfirst {}).length_le
  obtain ⟨left, mid', hconjunction, hends, hleft⟩ := conjunction_ends ih (Nat.le_trans hmid hn) first
  have hmid' := (hleft none).length_le
  obtain ⟨p, rest, g, hrest, hstops, hmore, hvalue⟩ := disjunction_ends ih (by omega) hends ⟨none, left⟩
  exact ⟨p, rest, g, .alternatives hprimary hconjunction hrest, hstops, ((hfirst {}).trans (hleft none)).trans hmore, hvalue⟩

end Loops

/-- **The loops end** on every row of items. -/
theorem ends (items : List Item) : Ends items := by
  induction hlength : items.length using Nat.strongRecOn generalizing items with
  | ind n ih => exact alternatives_ends (fun items hitems => ih _ hitems items rfl) (Nat.le_of_eq hlength)

/-! ## What is read -/

theorem joinWith_none (f : Predicate → Predicate → Predicate) (a : Option Predicate) : joinWith f a none = a := by
  cases a <;> rfl

/-- In front of a closing parenthesis nothing is found. -/
theorem reads_closing (rest : List Item) : Reads .alternatives (.closing :: rest) none (.closing :: rest) :=
  .alternatives (.nothing (by simp [Bare])) (.conjoined rfl) (.disjoined (by simp))

/-- A closing parenthesis too many is passed over. -/
theorem readsAll_closing {ended : Option Predicate} (h : ReadsAll ended rest p) : ReadsAll ended (.closing :: rest) p := by
  refine .turn (List.cons_ne_nil _ _) (reads_closing rest) ?_
  rw [joinWith_none]
  exact h

/-- What is found is joined to what was ended, and reading goes on behind it. -/
theorem readsAll_cons {i : Item} {ended found : Option Predicate} (hfound : Reads .alternatives (i :: items) found rest)
    (hstops : Stops rest) (h : ReadsAll (joinWith .conjoin ended found) rest.tail p) : ReadsAll ended (i :: items) p := by
  refine .turn (List.cons_ne_nil _ _) hfound ?_
  cases rest with
  | nil => cases found <;> exact h
  | cons j rest =>
    obtain rfl : j = .closing := hstops j rfl
    cases found with
    | none => exact h
    | some found => exact readsAll_closing h

/-- **Reading to the end** gives what reading item after item gives. -/
theorem readsAll (ended : Option Predicate) (items : List Item) :
    ReadsAll ended items (joinWith .conjoin (items.foldl Grouping.push ⟨ended, {}, []⟩).ended
      (items.foldl Grouping.push ⟨ended, {}, []⟩).closed.value) := by
  induction hlength : items.length using Nat.strongRecOn generalizing ended items with
  | ind n ih =>
    subst hlength
    cases items with
    | nil =>
      have hnothing : joinWith .conjoin ended none = ended := joinWith_none _ ended
      exact hnothing.symm ▸ .done
    | cons i items =>
      obtain ⟨p, rest, g, halternatives, hstops, ⟨used, hused, hturns⟩, rfl⟩ := ends (i :: items)
      obtain ⟨inmost, inner, hfold, hg, hclosed⟩ := hturns ended []
      refine readsAll_cons halternatives hstops ?_
      rw [hused, List.foldl_append, hfold]
      cases rest with
      | nil =>
        rw [← hg, List.append_nil]
        exact .done
      | cons j rest =>
        obtain rfl : j = .closing := hstops j rfl
        obtain rfl := hclosed (List.cons_ne_nil _ _)
        obtain rfl : inmost = g := hg
        exact ih rest.length (by rw [hused]; simp; omega) _ rest rfl

/-- **Descent ends, and with the same filter**: on every row of items the loops come to one answer, when nothing is left,
and it is the filter that the items write. -/
theorem builds_iff {items : List Item} {p : Predicate} : Builds items p ↔ p = Predicate.ofItems items := by
  have hall := readsAll none items
  constructor
  · rintro ⟨found, hfound, rfl⟩
    rw [hfound.unique hall]
    rfl
  · rintro rfl
    exact ⟨_, hall, rfl⟩

end Descent
end EquityScreen
