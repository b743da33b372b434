/-
What holds of the filter of a row of items: whatever holds of each filter in the row and of two
filters joined if it holds of both, when there is a filter in the row (`ofItems_of_filter`); of a row
without one, what holds of the filter that holds of everything (`ofItems_closed`).
-/
import EquityScreen.Grouping

namespace EquityScreen

/-- A property of filters that joining them keeps. -/
structure Predicate.Closed (S : Predicate → Prop) : Prop where
  conjoin : ∀ p q, S p → S q → S (p.conjoin q)
  disjoin : ∀ p q, S p → S q → S (p.disjoin q)

variable {S : Predicate → Prop}

/-- What there is has the property. -/
def IfAny (S : Predicate → Prop) (o : Option Predicate) : Prop := ∀ p, o = some p → S p

theorem IfAny.joinWith {f : Predicate → Predicate → Predicate} (hf : ∀ p q, S p → S q → S (f p q))
    {a b : Option Predicate} (ha : IfAny S a) (hb : IfAny S b) : IfAny S (joinWith f a b) := by
  cases a with
  | none => exact hb
  | some p =>
    cases b with
    | none => exact ha
    | some q =>
      intro r hr
      rw [← Option.some.inj hr]
      exact hf p q (ha p rfl) (hb q rfl)

/-- Both parts of a group have the property. -/
def Group.Keeps (S : Predicate → Prop) (g : Group) : Prop := IfAny S g.alternatives ∧ IfAny S g.current

namespace Grouping

/-- Every part of what was read so far has the property. -/
def Keeps (S : Predicate → Prop) (g : Grouping) : Prop :=
  IfAny S g.ended ∧ g.group.Keeps S ∧ ∀ o ∈ g.outer, o.Keeps S

variable (hS : Predicate.Closed S)
include hS

theorem value_keeps {g : Group} (h : g.Keeps S) : IfAny S g.value :=
  h.1.joinWith hS.disjoin h.2

theorem meet_keeps {g : Group} (h : g.Keeps S) {p : Option Predicate} (hp : IfAny S p) :
    (g.meet p).Keeps S :=
  ⟨h.1, h.2.joinWith hS.conjoin hp⟩

theorem push_keeps {g : Grouping} (h : g.Keeps S) {i : Item} (hi : ∀ p, i = .filter p → S p) :
    (g.push i).Keeps S := by
  obtain ⟨hended, hgroup, houter⟩ := h
  cases i with
  | filter p =>
    refine ⟨hended, meet_keeps hS hgroup fun q hq => ?_, houter⟩
    rw [← Option.some.inj hq]
    exact hi p rfl
  | and => exact ⟨hended, hgroup, houter⟩
  | or => exact ⟨hended, ⟨value_keeps hS hgroup, nofun⟩, houter⟩
  | opening => exact ⟨hended, ⟨nofun, nofun⟩, List.forall_mem_cons.2 ⟨hgroup, houter⟩⟩
  | closing =>
    unfold push
    dsimp only
    split
    · exact ⟨hended.joinWith hS.conjoin (value_keeps hS hgroup), ⟨nofun, nofun⟩, houter⟩
    · next o os heq =>
      rw [heq, List.forall_mem_cons] at houter
      exact ⟨hended, meet_keeps hS houter.1 (value_keeps hS hgroup), houter.2⟩

theorem closed_keeps {g : Grouping} (h : g.Keeps S) : g.closed.Keeps S := by
  obtain ⟨-, hgroup, houter⟩ := h
  unfold closed
  generalize g.group = inner at hgroup
  generalize g.outer = outer at houter
  induction outer generalizing inner with
  | nil => exact hgroup
  | cons o os ih =>
    rw [List.forall_mem_cons] at houter
    exact ih _ (meet_keeps hS houter.1 (value_keeps hS hgroup)) houter.2

end Grouping

/-! ## Something was read -/

@[simp] theorem isSome_joinWith {f : Predicate → Predicate → Predicate} {a b : Option Predicate} :
    (joinWith f a b).isSome = (a.isSome || b.isSome) := by
  cases a <;> cases b <;> rfl

namespace Grouping

/-- Some part of what was read so far is a filter. -/
def Holds (g : Grouping) : Prop :=
  g.ended.isSome = true ∨ g.group.value.isSome = true ∨ ∃ o ∈ g.outer, o.value.isSome = true

theorem push_filter_holds (g : Grouping) (p : Predicate) : (g.push (.filter p)).Holds :=
  .inr (.inl (by simp [push, Group.meet, Group.value]))

theorem push_holds {g : Grouping} (h : g.Holds) (i : Item) : (g.push i).Holds := by
  cases i with
  | filter p => exact push_filter_holds g p
  | and => exact h
  | or =>
    refine h.imp_right (Or.imp_left fun h => ?_)
    simpa [push, Group.alternative, Group.value] using h
  | opening =>
    rcases h with h | h | ⟨o, ho, h⟩
    · exact .inl h
    · exact .inr (.inr ⟨g.group, List.mem_cons_self, h⟩)
    · exact .inr (.inr ⟨o, List.mem_cons_of_mem _ ho, h⟩)
  | closing =>
    unfold Holds push
    dsimp only
    split
    · next houter =>
      rw [Holds, houter] at h
      exact .inl (by simpa using h)
    · next o os houter =>
      rw [Holds, houter] at h
      rcases h with h | h | ⟨o', ho', h⟩
      · exact .inl h
      · exact .inr (.inl (by simp [Group.meet, Group.value] at h ⊢; simp [h]))
      · rcases List.mem_cons.1 ho' with rfl | ho'
        · exact .inr (.inl (by simp [Group.meet, Group.value] at h ⊢; grind))
        · exact .inr (.inr ⟨o', ho', h⟩)

theorem closed_holds {g : Grouping} (h : g.Holds) : (joinWith .conjoin g.ended g.closed.value).isSome = true := by
  rw [isSome_joinWith, Bool.or_eq_true]
  refine h.imp_right fun h => ?_
  unfold closed
  generalize g.group = inner at h
  generalize g.outer = outer at h
  induction outer generalizing inner with
  | nil => simpa using h
  | cons o os ih =>
    refine ih _ ?_
    rcases h with h | ⟨o', ho', h⟩
    · exact .inl (by simp [Group.meet, Group.value] at h ⊢; simp [h])
    · rcases List.mem_cons.1 ho' with rfl | ho'
      · exact .inl (by simp [Group.meet, Group.value] at h ⊢; grind)
      · exact .inr ⟨o', ho', h⟩

end Grouping

/-! ## Rows of items -/

/-- What was read of a row of items has what its filters have. -/
theorem foldl_push_keeps (hS : Predicate.Closed S) {items : List Item} (h : ∀ p, .filter p ∈ items → S p) :
    ∀ {g : Grouping}, g.Keeps S → (items.foldl Grouping.push g).Keeps S := by
  induction items with
  | nil => exact fun hg => hg
  | cons i items ih =>
    intro g hg
    exact ih (fun p hp => h p (List.mem_cons_of_mem _ hp))
      (Grouping.push_keeps hS hg fun p hp => h p (hp ▸ List.mem_cons_self))

theorem foldl_push_holds {items : List Item} :
    ∀ {g : Grouping}, g.Holds ∨ (∃ p, .filter p ∈ items) → (items.foldl Grouping.push g).Holds := by
  induction items with
  | nil => exact fun h => h.elim id fun ⟨_, hp⟩ => absurd hp List.not_mem_nil
  | cons i items ih =>
    rintro g (h | ⟨p, hp⟩)
    · exact ih (.inl (Grouping.push_holds h i))
    · rcases List.mem_cons.1 hp with rfl | hp
      · exact ih (.inl (Grouping.push_filter_holds g p))
      · exact ih (.inr ⟨p, hp⟩)

/-- What a row of items amounts to has what its filters have. -/
theorem ofItems_ifAny (hS : Predicate.Closed S) {items : List Item} (h : ∀ p, .filter p ∈ items → S p) :
    IfAny S (joinWith .conjoin (items.foldl Grouping.push {}).ended (items.foldl Grouping.push {}).closed.value) := by
  have hkeeps := foldl_push_keeps hS h (g := {}) ⟨nofun, ⟨nofun, nofun⟩, nofun⟩
  exact IfAny.joinWith hS.conjoin hkeeps.1 (Grouping.value_keeps hS (Grouping.closed_keeps hS hkeeps))

/-- **The filter of a row of items** has what its filters have. -/
theorem Predicate.ofItems_closed (hS : Predicate.Closed S) (hall : S .all) {items : List Item}
    (h : ∀ p, .filter p ∈ items → S p) : S (Predicate.ofItems items) := by
  have hany := ofItems_ifAny hS h
  unfold ofItems Grouping.predicate
  cases hv : joinWith conjoin (items.foldl Grouping.push {}).ended
      (items.foldl Grouping.push {}).closed.value with
  | none => exact hall
  | some p => exact hany p hv

/-- With a filter in the row nothing need be said of the filter that holds of everything. -/
theorem Predicate.ofItems_of_filter (hS : Predicate.Closed S) {items : List Item}
    (h : ∀ p, .filter p ∈ items → S p) (hfilter : ∃ p, .filter p ∈ items) : S (Predicate.ofItems items) := by
  have hholds := foldl_push_holds (g := {}) (.inr hfilter)
  obtain ⟨p, hp⟩ := Option.isSome_iff_exists.1 (Grouping.closed_holds hholds)
  unfold ofItems Grouping.predicate
  rw [hp]
  exact ofItems_ifAny hS h p hp

end EquityScreen
