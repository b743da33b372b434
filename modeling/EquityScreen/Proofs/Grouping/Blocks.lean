/-
What a row of items is put together from, and what it means.

Whatever the row, the filters in it are the building blocks of its filter, each once and in their order
(`Predicate.BuiltFrom`): every item that is read adds its filter at the end (`Grouping.Made.push`). And an
expression may be written carelessly (`Formula.Writes`), with conjunctions left out and connectives said
again: its filter holds where the expression does.
-/
import EquityScreen.Proofs.Grouping.Formula
import EquityScreen.Proofs.Screening.Expression

namespace EquityScreen

/-- The filter is put together from building blocks, which stand in it in this order. -/
inductive Predicate.BuiltFrom : Predicate → List Predicate → Prop
  | block (p : Predicate) : BuiltFrom p [p]
  | and {l r : Predicate} {ps qs : List Predicate} : BuiltFrom l ps → BuiltFrom r qs → BuiltFrom (.and l r) (ps ++ qs)
  | or {l r : Predicate} {ps qs : List Predicate} : BuiltFrom l ps → BuiltFrom r qs → BuiltFrom (.or l r) (ps ++ qs)

namespace Item

/-- The filter that an item is. -/
def filter? : Item → Option Predicate
  | .filter p => some p
  | _ => none

/-- The filters of a row of items, in their order. -/
def filters (items : List Item) : List Predicate := items.filterMap filter?

theorem mem_filters {items : List Item} {p : Predicate} : p ∈ filters items ↔ .filter p ∈ items := by
  rw [filters, List.mem_filterMap]
  constructor
  · rintro ⟨i, hi, hp⟩
    cases i with
    | filter q => rwa [← Option.some.inj (show some q = some p from hp)]
    | _ => exact absurd hp nofun
  · exact fun h => ⟨_, h, rfl⟩

end Item

/-! ## Building blocks -/

variable {ps qs : List Predicate}

/-- What there is asks for something and is put together from the blocks; without blocks there is
nothing. -/
def Made (o : Option Predicate) (ps : List Predicate) : Prop :=
  match o with
  | none => ps = []
  | some p => p ≠ .all ∧ p.BuiltFrom ps

/-- Joining what there is joins the blocks. -/
theorem Made.joinWith_of {f : Predicate → Predicate → Predicate}
    (hf : ∀ {p q ps qs}, p ≠ .all → q ≠ .all → p.BuiltFrom ps → q.BuiltFrom qs →
      f p q ≠ .all ∧ (f p q).BuiltFrom (ps ++ qs))
    {a b : Option Predicate} (ha : Made a ps) (hb : Made b qs) : Made (joinWith f a b) (ps ++ qs) := by
  cases a with
  | none =>
    rw [show ps = [] from ha]
    exact hb
  | some p =>
    cases b with
    | none =>
      rw [show qs = [] from hb, List.append_nil]
      exact ha
    | some q => exact hf ha.1 hb.1 ha.2 hb.2

theorem Made.joinWith_conjoin {a b : Option Predicate} (ha : Made a ps) (hb : Made b qs) :
    Made (joinWith .conjoin a b) (ps ++ qs) :=
  ha.joinWith_of (fun hp hq hps hqs => by rw [Predicate.conjoin_eq_and hp hq]; exact ⟨nofun, hps.and hqs⟩) hb

theorem Made.joinWith_disjoin {a b : Option Predicate} (ha : Made a ps) (hb : Made b qs) :
    Made (joinWith .disjoin a b) (ps ++ qs) :=
  ha.joinWith_of (fun hp hq hps hqs => by rw [Predicate.disjoin_eq_or hp hq]; exact ⟨nofun, hps.or hqs⟩) hb

/-- The alternatives of a group come before its conjunction. -/
def Group.Made (g : Group) (ps : List Predicate) : Prop :=
  ∃ as cs, EquityScreen.Made g.alternatives as ∧ EquityScreen.Made g.current cs ∧ ps = as ++ cs

namespace Group

variable {g : Group}

theorem made_empty : Group.Made {} [] := ⟨[], [], rfl, rfl, rfl⟩

theorem Made.value (h : g.Made ps) : EquityScreen.Made g.value ps := by
  obtain ⟨as, cs, has, hcs, rfl⟩ := h
  exact has.joinWith_disjoin hcs

theorem Made.meet (h : g.Made ps) {o : Option Predicate} (ho : EquityScreen.Made o qs) :
    (g.meet o).Made (ps ++ qs) := by
  obtain ⟨as, cs, has, hcs, rfl⟩ := h
  exact ⟨as, cs ++ qs, has, hcs.joinWith_conjoin ho, List.append_assoc as cs qs⟩

theorem Made.alternative (h : g.Made ps) : g.alternative.Made ps :=
  ⟨ps, [], h.value, rfl, (List.append_nil ps).symm⟩

end Group

/-- Groups one around the other, innermost first: the blocks of the outer ones come first. -/
def MadeAround : List Group → List Predicate → Prop
  | [], ps => ps = []
  | o :: os, ps => ∃ qs gs, MadeAround os qs ∧ o.Made gs ∧ ps = qs ++ gs

namespace Grouping

variable {g : Grouping}

/-- What was read so far is put together from the blocks: what was ended, the groups around, and the group
at hand. -/
def Made (g : Grouping) (ps : List Predicate) : Prop :=
  ∃ es os gs, EquityScreen.Made g.ended es ∧ MadeAround g.outer os ∧ g.group.Made gs ∧ ps = es ++ os ++ gs

/-- **An item more** adds its filter to the blocks, if it is one. -/
theorem Made.push (h : g.Made ps) {i : Item} (hi : i ≠ .filter .all) : (g.push i).Made (ps ++ i.filter?.toList) := by
  obtain ⟨es, os, gs, hended, houter, hgroup, rfl⟩ := h
  cases i with
  | filter p =>
    have hp : EquityScreen.Made (some p) [p] := ⟨fun hall => hi (by rw [hall]), .block p⟩
    exact ⟨es, os, gs ++ [p], hended, houter, hgroup.meet hp, List.append_assoc _ _ _⟩
  | and => exact ⟨es, os, gs, hended, houter, hgroup, List.append_nil _⟩
  | or => exact ⟨es, os, gs, hended, houter, hgroup.alternative, List.append_nil _⟩
  | opening =>
    refine ⟨es, os ++ gs, [], hended, ⟨os, gs, houter, hgroup, rfl⟩, Group.made_empty, ?_⟩
    rw [List.append_assoc es os gs]
    rfl
  | closing =>
    obtain ⟨ended, group, outer⟩ := g
    cases outer with
    | nil =>
      refine ⟨es ++ gs, [], [], hended.joinWith_conjoin hgroup.value, rfl, Group.made_empty, ?_⟩
      rw [show os = [] from houter]
      simp [Item.filter?]
    | cons o outer =>
      obtain ⟨os', os'', houter, ho, rfl⟩ := houter
      exact ⟨es, os', os'' ++ gs, hended, houter, ho.meet hgroup.value, by simp [Item.filter?]⟩

theorem Made.foldl_push (h : g.Made ps) {items : List Item} (hitems : ∀ i ∈ items, i ≠ .filter .all) :
    (items.foldl Grouping.push g).Made (ps ++ Item.filters items) := by
  induction items generalizing g ps with
  | nil => simpa [Item.filters] using h
  | cons i items ih =>
    rw [List.forall_mem_cons] at hitems
    have hpush := ih (h.push hitems.1) hitems.2
    rw [List.append_assoc] at hpush
    cases hi : i.filter? with
    | none => simpa [Item.filters, hi] using hpush
    | some p => simpa [Item.filters, hi] using hpush

/-- All groups close in the end. -/
theorem Made.closed (h : g.Made ps) : EquityScreen.Made (joinWith .conjoin g.ended g.closed.value) ps := by
  obtain ⟨es, os, gs, hended, houter, hgroup, rfl⟩ := h
  have hclosed : g.closed.Made (os ++ gs) := by
    unfold Grouping.closed
    generalize g.group = inner at hgroup
    generalize g.outer = outer at houter
    induction outer generalizing inner os gs with
    | nil =>
      rw [show os = [] from houter]
      exact hgroup
    | cons o outer ih =>
      obtain ⟨os', os'', houter, ho, rfl⟩ := houter
      rw [List.append_assoc]
      exact ih _ _ _ (ho.meet hgroup.value) houter
  rw [List.append_assoc]
  exact hended.joinWith_conjoin hclosed.value

end Grouping

/-- **The filter of a row of items** is put together from the filters in it, in their order; without one it
is the filter that holds of everything. -/
theorem Predicate.builtFrom_ofItems {items : List Item} (h : ∀ i ∈ items, i ≠ .filter .all) :
    (Predicate.ofItems items).BuiltFrom (Item.filters items) ∨
      Item.filters items = [] ∧ Predicate.ofItems items = .all := by
  have hempty : Grouping.Made {} [] := ⟨[], [], [], rfl, rfl, Group.made_empty, rfl⟩
  have hmade := (hempty.foldl_push h).closed
  unfold Predicate.ofItems Grouping.predicate
  revert hmade
  cases joinWith Predicate.conjoin (items.foldl Grouping.push {}).ended (items.foldl Grouping.push {}).closed.value with
  | none => exact fun hmade => .inr ⟨hmade, rfl⟩
  | some p => exact fun hmade => .inl hmade.2

/-! ## Parts of a filter -/

namespace Predicate

/-- The filter is another one as it stands, or a part of it. -/
inductive Occurs (p : Predicate) : Predicate → Prop
  | here : Occurs p p
  | andLeft {l r : Predicate} : Occurs p l → Occurs p (.and l r)
  | andRight {l r : Predicate} : Occurs p r → Occurs p (.and l r)
  | orLeft {l r : Predicate} : Occurs p l → Occurs p (.or l r)
  | orRight {l r : Predicate} : Occurs p r → Occurs p (.or l r)

variable {p q : Predicate}

/-- A building block is a part. -/
theorem BuiltFrom.occurs (h : q.BuiltFrom ps) (hp : p ∈ ps) : p.Occurs q := by
  induction h with
  | block q => exact List.mem_singleton.1 hp ▸ .here
  | and _ _ ihl ihr => exact (List.mem_append.1 hp).elim (.andLeft <| ihl ·) (.andRight <| ihr ·)
  | or _ _ ihl ihr => exact (List.mem_append.1 hp).elim (.orLeft <| ihl ·) (.orRight <| ihr ·)

/-- What asks for something stays a part when another filter is conjoined. -/
theorem Occurs.conjoin (h : p.Occurs q) (hp : p ≠ .all) (r : Predicate) : p.Occurs (q.conjoin r) := by
  have hq : q ≠ .all := by
    rintro rfl
    cases h
    exact hp rfl
  by_cases hr : r = .all
  · rw [hr, conjoin_all]
    exact h
  · rw [conjoin_eq_and hq hr]
    exact h.andLeft

/-- **Every filter in a row of items** is a part of the filter of the row. -/
theorem occurs_ofItems {items : List Item} (h : ∀ i ∈ items, i ≠ .filter .all) (hp : .filter p ∈ items) :
    p.Occurs (ofItems items) := by
  have hmem : p ∈ Item.filters items := Item.mem_filters.2 hp
  rcases builtFrom_ofItems h with hbuilt | ⟨hnone, -⟩
  · exact hbuilt.occurs hmem
  · exact absurd hnone (List.ne_nil_of_mem hmem)

end Predicate

/-! ## Careless writing -/

namespace Formula

/-- Parentheses around an alternative. -/
def enclosed (f : Formula) : Formula := if f.isAlternative then .group f else f

/-- The expression with parentheses around every alternative under a conjunction. -/
def parenthesized : Formula → Formula
  | filter p => filter p
  | sector name => sector name
  | group f => group f.parenthesized
  | and l r => and l.parenthesized.enclosed r.parenthesized.enclosed
  | or l r => or l.parenthesized r.parenthesized

/-- The items write the expression: between the parts of a conjunction there are any number of "and"s, and
between alternatives there is an "or" with any connectives after it. -/
inductive Writes : Formula → List Item → Prop
  | filter (p : Predicate) : Writes (.filter p) [.filter p]
  | sector (name : String) : Writes (.sector name) [.filter (.sectorIn (.ofList [name]))]
  | group {f : Formula} {is : List Item} : Writes f is → Writes (.group f) (.opening :: (is ++ [.closing]))
  | and {l r : Formula} {is js : List Item} (n : Nat) :
    Writes l is → Writes r js → Writes (.and l r) (is ++ (List.replicate n .and ++ js))
  | or {l r : Formula} {is js : List Item} (more : List Item) (hmore : ∀ i ∈ more, i = .and ∨ i = .or) :
    Writes l is → Writes r js → Writes (.or l r) (is ++ .or :: (more ++ js))

variable {f : Formula} {items : List Item}

theorem isAlternative_enclosed (f : Formula) : f.enclosed.isAlternative = false := by
  unfold enclosed
  split
  · rfl
  · next h => simpa using h

theorem tree_enclosed (f : Formula) : f.enclosed.tree = f.tree := by
  unfold enclosed
  split <;> rfl

theorem Bracketed.enclosed (h : f.Bracketed) : f.enclosed.Bracketed := by
  unfold Formula.enclosed
  split <;> exact h

theorem tree_parenthesized (f : Formula) : f.parenthesized.tree = f.tree := by
  induction f with
  | filter | sector => rfl
  | group f ih => exact ih
  | and l r ihl ihr => simp only [parenthesized, tree, tree_enclosed, ihl, ihr]
  | or l r ihl ihr => simp only [parenthesized, tree, ihl, ihr]

theorem bracketed_parenthesized (f : Formula) : f.parenthesized.Bracketed := by
  induction f with
  | filter | sector => trivial
  | group f ih => exact ih
  | and l r ihl ihr => exact ⟨ihl.enclosed, ihr.enclosed, isAlternative_enclosed _, isAlternative_enclosed _⟩
  | or l r ihl ihr => exact ⟨ihl, ihr⟩

/-- What is written without the filter that holds of everything is proper. -/
theorem Writes.proper (h : f.Writes items) (hf : f.Bracketed) (hitems : ∀ i ∈ items, i ≠ .filter .all) : f.Proper := by
  induction h with
  | filter p => exact fun hp => hitems (.filter p) (List.mem_singleton_self _) (by rw [hp])
  | sector name => trivial
  | group _ ih => exact ih hf fun i hi => hitems i (List.mem_cons_of_mem _ (List.mem_append_left _ hi))
  | and n _ _ ihl ihr =>
    exact ⟨ihl hf.1 fun i hi => hitems i (List.mem_append_left _ hi),
      ihr hf.2.1 fun i hi => hitems i (List.mem_append_right _ (List.mem_append_right _ hi)), hf.2.2⟩
  | or _ _ _ _ ihl ihr =>
    exact ⟨ihl hf.1 fun i hi => hitems i (List.mem_append_left _ hi), ihr hf.2 fun i hi =>
      hitems i (List.mem_append_right _ (List.mem_cons_of_mem _ (List.mem_append_right _ hi)))⟩

end Formula

/-- An "and" changes nothing. -/
theorem Grouping.foldl_push_and (n : Nat) (g : Grouping) : (List.replicate n Item.and).foldl Grouping.push g = g := by
  induction n with
  | zero => rfl
  | succ n ih => exact ih

/-- After an "or" another connective changes nothing. -/
theorem Grouping.foldl_push_or {more : List Item} (hmore : ∀ i ∈ more, i = .and ∨ i = .or) (g : Grouping) :
    more.foldl Grouping.push (g.push .or) = g.push .or := by
  have hagain : (g.push .or).push .or = g.push .or := by
    have hvalue : ∀ o : Option Predicate, joinWith .disjoin o none = o := fun o => by cases o <;> rfl
    simp only [push, Group.alternative, Group.value, hvalue]
  induction more with
  | nil => rfl
  | cons i more ih =>
    rw [List.forall_mem_cons] at hmore
    rw [List.foldl_cons]
    rcases hmore.1 with rfl | rfl
    · exact ih hmore.2
    · rw [hagain]
      exact ih hmore.2

/-- Careless writing is read as careful writing is. -/
theorem Formula.Writes.foldl_push {f : Formula} {row : List Item} (h : f.Writes row) (g : Grouping) :
    row.foldl Grouping.push g = f.items.foldl Grouping.push g := by
  induction h generalizing g with
  | filter | sector => rfl
  | group _ ih => simp only [items, List.foldl_cons, List.foldl_append, ih]
  | and n _ _ ihl ihr =>
    rw [items, List.foldl_append, List.foldl_append, List.foldl_append, ihl, Grouping.foldl_push_and, ihr]
    rfl
  | or _ hmore _ _ ihl ihr =>
    rw [items, List.foldl_append, List.foldl_append, ihl, List.foldl_cons, List.foldl_cons, List.foldl_append,
      Grouping.foldl_push_or hmore, ihr]

/-- **Every clause is kept, and the usual precedence.** The filter of a row of items, balanced or not, is put
together from the filters in it, each once and in their order. And if the row writes an expression with
parentheses around every alternative under a conjunction, with "and"s left out or said again and connectives
said again after an "or", it holds where the expression does. -/
theorem Predicate.ofItems_keeps {items : List Item} (h : ∀ i ∈ items, i ≠ .filter .all) :
    ((Predicate.ofItems items).BuiltFrom (Item.filters items) ∨
      Item.filters items = [] ∧ Predicate.ofItems items = .all) ∧
    ∀ f : Formula, f.parenthesized.Writes items →
      ∀ c s, (Predicate.ofItems items).holds c s = f.tree.holds c s := by
  refine ⟨builtFrom_ofItems h, fun f hf c s => ?_⟩
  have hproper := hf.proper f.bracketed_parenthesized h
  have hsame : Predicate.ofItems items = Predicate.ofItems f.parenthesized.items := by
    rw [ofItems, ofItems, hf.foldl_push]
  rw [hsame, (Formula.ofItems_items (holds_congruence c s) hproper).2, f.tree_parenthesized]

/-- An "or" said twice with an "and" between, and a conjunction without its "and". -/
theorem Predicate.ofItems_keeps_careless :
    let a : Predicate := .compare ⟨"pe", .lt, .number (.int 15)⟩
    let b : Predicate := .compare ⟨"pb", .lt, .number (.int 2)⟩
    let d : Predicate := .sectorIn (.ofList ["IT"])
    let e : Predicate := .sectorOut (.ofList ["Pharma"])
    let row : List Item := [.filter a, .or, .and, .or, .filter b, .opening, .filter d, .or, .filter e, .closing]
    let f : Formula := .or (.filter a) (.and (.filter b) (.or (.filter d) (.filter e)))
    (∀ i ∈ row, i ≠ .filter .all) ∧ f.parenthesized.Writes row ∧
      (Predicate.ofItems row).BuiltFrom [a, b, d, e] ∧
      ∀ c s, (Predicate.ofItems row).holds c s = f.tree.holds c s := by
  intro a b d e row f
  have hrow : ∀ i ∈ row, i ≠ .filter .all := by decide
  have hgroup := (Formula.Writes.or [] nofun (.filter d) (.filter e)).group
  have hright := (Formula.Writes.filter b).and 0 hgroup
  have hwrites : f.parenthesized.Writes row := (Formula.Writes.filter a).or [.and, .or] (by simp) hright
  obtain ⟨hbuilt, hholds⟩ := Predicate.ofItems_keeps hrow
  exact ⟨hrow, hwrites, hbuilt.resolve_right fun h => absurd h.1 (by simp [row, Item.filters, Item.filter?]),
    hholds f hwrites⟩

end EquityScreen
