/-
What the parts of a sentence add up to.

The draft of the filters and sectors of an outline has the filter of the outline (`Outlined.sameForm`), and
the parts of a plan in words add up to a draft that amounts to the plan (`Plan.Writable.adds`).
-/
import EquityScreen.Proofs.Draft.Exclusion
import EquityScreen.Proofs.Draft.Parts

namespace EquityScreen

open Form (SameSet)
open Text (joined)

namespace Predicate

/-- Sets with the same sectors have the same parts. -/
theorem bothParts_sectorIn {s s' : SectorSet} (h : ∀ x, x ∈ s.names ↔ x ∈ s'.names) :
    SameSet (Predicate.sectorIn s).form.bothParts (Predicate.sectorIn s').form.bothParts := by
  refine Form.sameSet_bothParts (sameForm_of_eitherParts trivial trivial ?_)
  refine (Form.eitherParts_bundle (eitherParts_sector _)).trans (SameSet.trans ?_
    (Form.eitherParts_bundle (eitherParts_sector _)).symm)
  exact .of_mem_iff (fun a ha => (eitherParts_sector _ a ha).1) fun a => by simp [h]

theorem conjoin_eq_all {p q : Predicate} : p.conjoin q = .all ↔ p = .all ∧ q = .all := by
  cases p <;> cases q <;> simp [conjoin]

end Predicate

namespace Draft

variable {d : Draft} {o : Outline} {p : Predicate} {texts : List String} {g : Draft → Draft}

/-- The draft notes what the outline holds. -/
structure Outlined (d : Draft) (o : Outline) : Prop where
  formed : (Predicate.ofItems d.items).FormedOrAll
  parts : SameSet (Predicate.ofItems d.items).form.bothParts (Predicate.parts o.rest)
  rest : Predicate.ofItems d.items = .all ↔ o.rest = []
  included : ∀ x, x ∈ d.included ↔ ∃ s ∈ o.included, x ∈ s.names
  excluded : ∀ x, x ∈ d.excluded ↔ x ∈ o.excluded

/-- The filter of sectors, where there are any. -/
def ofSectors (f : SectorSet → Predicate) (names : List String) : Predicate :=
  if names.isEmpty then .all else f (.ofList names)

theorem predicate_eq (d : Draft) : d.predicate =
    ((Predicate.ofItems d.items).conjoin (ofSectors .sectorIn d.included)).conjoin (ofSectors .sectorOut d.excluded) := by
  unfold predicate ofSectors
  cases d.included.isEmpty <;> cases d.excluded.isEmpty <;> simp

theorem ofSectors_formedOrAll {f : SectorSet → Predicate} (h : ∀ s, (f s).Formed) (names : List String) :
    (ofSectors f names).FormedOrAll := by
  unfold ofSectors
  split
  · exact .inl rfl
  · exact .inr (h _)

theorem ofSectors_eq_all {f : SectorSet → Predicate} (h : ∀ s, f s ≠ .all) {names : List String} :
    ofSectors f names = .all ↔ names = [] := by
  cases names <;> simp [ofSectors, h]

/-- **The filter of a draft** has the parts of what was noted. -/
theorem Outlined.predicate (h : d.Outlined o) (ho : o.Sayable) :
    d.predicate.FormedOrAll ∧ SameSet d.predicate.form.bothParts o.parts := by
  have hin := ofSectors_formedOrAll (f := .sectorIn) (fun _ => trivial) d.included
  have hout := ofSectors_formedOrAll (f := .sectorOut) (fun _ => trivial) d.excluded
  rw [predicate_eq]
  refine ⟨(h.formed.conjoin hin).conjoin hout, (Predicate.bothParts_conjoin (h.formed.conjoin hin) hout).trans
    (((Predicate.bothParts_conjoin h.formed hin).trans (h.parts.append ?_)).append ?_)⟩
  · cases hs : o.included with
    | none =>
      have hnil : d.included = [] := List.eq_nil_iff_forall_not_mem.2 fun x hx => by simpa [hs] using (h.included x).1 hx
      rw [hnil]
      exact ⟨nofun, nofun⟩
    | some s =>
      have hmem : ∀ x, x ∈ d.included ↔ x ∈ s.names := fun x => by simpa [hs] using h.included x
      obtain ⟨x, hx⟩ := List.exists_mem_of_ne_nil _ (ho.included s hs).1
      have hne : d.included ≠ [] := List.ne_nil_of_mem ((hmem x).2 hx)
      simp only [ofSectors, List.isEmpty_iff, if_neg hne, Option.map_some, Option.toList_some, Predicate.parts_singleton]
      exact Predicate.bothParts_sectorIn fun x => by simp [hmem]
  · have hnames : SameSet (d.excluded.map Form.notSector) (o.excluded.map Form.notSector) :=
      .of_mem_iff (fun a ha => (Predicate.bothParts_notSector _ a ha).1) fun a => by simp [h.excluded]
    refine SameSet.trans ?_ hnames
    unfold ofSectors
    split
    · next hempty =>
      rw [List.isEmpty_iff.1 hempty]
      exact ⟨nofun, nofun⟩
    · refine (Predicate.bothParts_sectorOut _).trans ?_
      exact .of_mem_iff (fun a ha => (Predicate.bothParts_notSector _ a ha).1) fun a => by simp

/-- **The filter of a draft** holds of everything only when nothing was noted. -/
theorem Outlined.predicate_eq_all (h : d.Outlined o) (ho : o.Sayable) :
    d.predicate = .all ↔ o.rest = [] ∧ o.included = none ∧ o.excluded = [] := by
  rw [predicate_eq, Predicate.conjoin_eq_all, Predicate.conjoin_eq_all, h.rest, ofSectors_eq_all (by simp),
    ofSectors_eq_all (by simp), and_assoc]
  refine and_congr_right' (and_congr ?_ ?_)
  · rw [List.eq_nil_iff_forall_not_mem, Option.eq_none_iff_forall_ne_some]
    refine ⟨fun hnil s hs => ?_, fun hnone x hx => ?_⟩
    · obtain ⟨x, hx⟩ := List.exists_mem_of_ne_nil _ (ho.included s hs).1
      exact hnil x ((h.included x).2 ⟨s, hs, hx⟩)
    · obtain ⟨s, hs, -⟩ := (h.included x).1 hx
      exact hnone s hs
  · simp only [List.eq_nil_iff_forall_not_mem, h.excluded]

/-- **The filter of a draft has the form** of the filter that was sorted out. -/
theorem Outlined.sameForm (h : d.Outlined (.ofPredicate p)) (hp : p = .all ∨ p.Sayable) : d.predicate.sameForm p = true := by
  rcases hp with rfl | hp
  · rw [(h.predicate_eq_all Outline.sayable_empty).2 ⟨rfl, rfl, rfl⟩]
    rfl
  · obtain ⟨ho, hparts, hsome⟩ := Outline.ofPredicate_sayable hp
    obtain ⟨hformed, hsame⟩ := h.predicate ho
    refine Predicate.sameForm_of_bothParts (hformed.resolve_left fun hall => ?_) hp.formed (hsame.trans hparts)
    obtain ⟨hrest, hincluded, hexcluded⟩ := (h.predicate_eq_all ho).1 hall
    exact hsome.elim (· hrest) (·.elim (· hincluded) (· hexcluded))

/-! ## The parts of a sentence -/

/-- **The part about filters** has the parts of all of them. -/
theorem addsAll_filterPart {ps : List Predicate} (h : ∀ p ∈ ps, p.Sayable) (style : CurrencyStyle) :
    ∃ texts is n, wordedAll Catalog.builtin style (Catalog.builtin.arranged ps) = .ok texts ∧
      AddsAll (filterPart texts) (·.extended is n) ∧ (n = 0 → ps = []) ∧ (Predicate.ofItems is).FormedOrAll ∧
      SameSet (Predicate.ofItems is).form.bothParts (Predicate.parts ps) ∧ (Predicate.ofItems is = .all ↔ ps = []) := by
  have hmem : ∀ {p}, p ∈ Catalog.builtin.arranged ps ↔ p ∈ ps := List.mem_mergeSort
  by_cases hps : ps = []
  · subst hps
    refine ⟨[], [], 0, by rw [Catalog.arranged, List.mergeSort_nil]; rfl, ?_, fun _ => rfl, .inl rfl, ⟨nofun, nofun⟩,
      iff_of_true rfl rfl⟩
    have hsame : (fun d : Draft => d.extended [] 0) = fun d => d := funext fun d => by simp [extended]
    rw [hsame]
    exact .nil
  · obtain ⟨p, hp⟩ := List.exists_mem_of_ne_nil _ hps
    have hne : Catalog.builtin.arranged ps ≠ [] := List.ne_nil_of_mem (hmem.2 hp)
    have hformed : ∀ q ∈ Catalog.builtin.arranged ps, q.Formed := fun q hq => (h q (hmem.1 hq)).formed
    obtain ⟨texts, htexts, hsome, hexpressed⟩ := Predicate.expressed_wordedAll hne (fun q hq => h q (hmem.1 hq)) style
    obtain ⟨is, n, hn, hall, hagrees, hadds⟩ := adds_filters hexpressed
    have hpart : filterPart texts = [joined " and " texts] := by rw [filterPart, if_neg (by simpa using hsome)]
    have htree : (Predicate.ofItems is).Formed := hagrees.1.2 (Predicate.Formed.row hne hformed)
    refine ⟨texts, is, n, htexts, by rw [hpart]; exact .one hadds, fun hzero => absurd hzero (Nat.ne_of_gt hn), .inr htree, ?_,
      iff_of_false hall hps⟩
    refine (Form.sameSet_bothParts (hagrees.2 htree)).trans ((Predicate.bothParts_row hne hformed).trans ?_)
    have hnormal : ∀ a ∈ Predicate.parts (Catalog.builtin.arranged ps), Form.Normal a := fun a ha => by
      obtain ⟨q, hq, ha⟩ := List.mem_flatMap.1 ha
      exact (hformed q hq).bothParts_normal a ha
    exact .of_mem_iff hnormal fun a => by simp only [Predicate.parts, List.mem_flatMap, hmem]

/-- The part about sectors asked for. -/
theorem addsAll_includedPart {s : Option SectorSet} (h : ∀ x ∈ s, Sector.Listed x.names) :
    AddsAll (includedPart s) fun d => { d with
      included := s.elim d.included fun s => union d.included (Sector.sorted s.names)
      clauseCount := d.clauseCount + (includedPart s).length } := by
  cases s with
  | none => exact .nil
  | some s => exact .one (adds_included (h s rfl) s.nodup)

/-- The part about sectors left out. -/
theorem addsAll_excludedPart {names : List String} (h : ∀ name ∈ names, name ∈ Sector.listed) (hnodup : names.Nodup) :
    AddsAll (excludedPart names) fun d => { d with
      excluded := union d.excluded (Sector.sorted names)
      clauseCount := d.clauseCount + (excludedPart names).length } := by
  cases names with
  | nil =>
    have hsorted : Sector.sorted [] = [] := List.mergeSort_nil
    simp only [hsorted]
    exact .nil
  | cons name names => exact .one (adds_excluded ⟨List.cons_ne_nil _ _, h⟩ hnodup)

/-- The part about an order. -/
theorem addsAll_orderPart {s : Option Ranking}
    (h : ∀ o ∈ s, ∃ f, Catalog.builtin.field? o.field = some f ∧ f.kind ≠ .sector) :
    ∃ texts, orderPart Catalog.builtin s = .ok texts ∧ (texts = [] ↔ s = none) ∧
      AddsAll texts fun d => { d with sort := s.or d.sort, clauseCount := d.clauseCount + texts.length } := by
  cases s with
  | none => exact ⟨[], rfl, by simp, .nil⟩
  | some o =>
    obtain ⟨f, hf, hk⟩ := h o rfl
    refine ⟨["sorted by " ++ f.label ++ " " ++ o.direction.word], ?_, by simp, .one (adds_order hf hk o.direction)⟩
    rw [orderPart, Catalog.named, hf]
    rfl

/-- The part about a limit. -/
theorem addsAll_limitPart {limit : Option Int} (h : ∀ n ∈ limit, 1 ≤ n) (fromBottom : Bool) :
    AddsAll (limitPart limit fromBottom) fun d => { d with
      limit := (limit.map Int.toNat).or d.limit
      fromBottom := if limit.isSome then fromBottom else d.fromBottom
      clauseCount := d.clauseCount + (limitPart limit fromBottom).length } := by
  cases limit with
  | none => exact .nil
  | some n =>
    have hn := h n rfl
    lift n to ℕ using by omega
    exact .one (adds_limit fromBottom (by omega))

/-- A text of everything stands where no filter and no sector does. -/
theorem AddsAll.orAll (h : AddsAll texts g) : AddsAll (if texts.isEmpty then [allSecurities] else texts) g := by
  cases h with
  | nil => exact .one adds_all
  | cons hx hxs => exact .cons hx hxs

/-- The draft amounts to the plan, with nothing left out and nothing guessed. -/
structure Amounts (d : Draft) (plan : Plan) : Prop where
  equivalent : d.plan.equivalent plan = true
  counted : d.clauseCount ≠ 0
  skipped : d.skipped = []
  heuristics : d.heuristics = []
  breakdown : d.breakdown = none

/-- What the parts of a plan add up to, its filters having these items. -/
def gathered (is : List Item) (clauses : Nat) (o : Outline) (plan : Plan) : Draft where
  items := is
  included := o.included.elim [] fun s => union [] (Sector.sorted s.names)
  excluded := union [] (Sector.sorted o.excluded)
  sort := plan.sort
  limit := plan.limit.map Int.toNat
  fromBottom := plan.limit.isSome && plan.fromBottom
  clauseCount := clauses

theorem outlined_gathered {is : List Item} (hformed : (Predicate.ofItems is).FormedOrAll)
    (hparts : SameSet (Predicate.ofItems is).form.bothParts (Predicate.parts o.rest))
    (hrest : Predicate.ofItems is = .all ↔ o.rest = []) (clauses : Nat) (plan : Plan) :
    (gathered is clauses o plan).Outlined o := by
  refine ⟨hformed, hparts, hrest, fun x => ?_, fun x => ?_⟩
  · cases hs : o.included with
    | none => simp [gathered, hs]
    | some s => simp [gathered, hs, mem_union, Predicate.mem_sorted]
  · simp [gathered, mem_union, Predicate.mem_sorted]

end Draft

/-- A plan that a query can ask for: its filter holds of everything or is one that a query can write, its order
is by a field of the built-in catalog other than the sector, and its limit, if there is one, keeps some row. -/
structure Plan.Writable (plan : Plan) : Prop where
  predicate : plan.predicate = .all ∨ plan.predicate.Sayable
  sort : ∀ o ∈ plan.sort, (Catalog.builtin.field? o.field).isSome = true ∧ o.field ≠ "sector"
  limit : ∀ n ∈ plan.limit, 1 ≤ n
  fromBottom : plan.limit = none → plan.fromBottom = false

variable {plan : Plan}

theorem Plan.Writable.sorted (h : plan.Writable) :
    ∀ o ∈ plan.sort, ∃ f, Catalog.builtin.field? o.field = some f ∧ f.kind ≠ .sector := by
  intro o ho
  obtain ⟨hsome, hkey⟩ := h.sort o ho
  obtain ⟨f, hf⟩ := Option.isSome_iff_exists.1 hsome
  refine ⟨f, hf, fun hk => hkey ?_⟩
  rw [← Catalog.key_of_field? hf]
  exact (regular_builtin.sector f (Catalog.mem_fields_of_field? hf)).1 hk

theorem Plan.Writable.outline (h : plan.Writable) : (Outline.ofPredicate plan.predicate).Sayable := by
  rcases h.predicate with hall | hsayable
  · rw [hall]
    exact Outline.sayable_empty
  · exact (Outline.ofPredicate_sayable hsayable).1

/-- What the parts of a plan add up to amounts to the plan. -/
theorem Plan.Writable.amounts (h : plan.Writable) {is : List Item} {clauses : Nat} (hclauses : clauses ≠ 0)
    (houtlined : (Draft.gathered is clauses (.ofPredicate plan.predicate) plan).Outlined (.ofPredicate plan.predicate)) :
    (Draft.gathered is clauses (.ofPredicate plan.predicate) plan).Amounts plan := by
  refine ⟨?_, hclauses, rfl, rfl, rfl⟩
  have hlimit : (plan.limit.map Int.toNat).map Int.ofNat = plan.limit := by
    cases hl : plan.limit with
    | none => rfl
    | some n => exact congrArg some (Int.toNat_of_nonneg (Int.le_of_lt (h.limit n hl)))
  have hbottom : (plan.limit.isSome && plan.fromBottom) = plan.fromBottom := by
    cases hl : plan.limit with
    | none => exact (h.fromBottom hl).symm
    | some n => rfl
  simp only [equivalent, Bool.and_eq_true, beq_iff_eq]
  exact ⟨⟨⟨houtlined.sameForm h.predicate, rfl⟩, hlimit⟩, hbottom⟩

/-- A plan that is not empty has a part in words. -/
theorem Plan.Writable.exists_part (h : plan.Writable) (hplan : plan.isEmpty = false) :
    (Outline.ofPredicate plan.predicate).rest ≠ [] ∨ includedPart (Outline.ofPredicate plan.predicate).included ≠ [] ∨
      excludedPart (Outline.ofPredicate plan.predicate).excluded ≠ [] ∨ plan.sort ≠ none ∨
      limitPart plan.limit plan.fromBottom ≠ [] := by
  rcases h.predicate with hall | hsayable
  · rw [isEmpty, hall] at hplan
    cases hs : plan.sort with
    | some o => exact .inr (.inr (.inr (.inl (Option.some_ne_none _))))
    | none => cases hl : plan.limit with
      | some n => exact .inr (.inr (.inr (.inr (List.cons_ne_nil _ _))))
      | none => rw [hs, hl] at hplan; exact absurd hplan (by decide)
  · obtain ⟨-, -, hrest | hincluded | hexcluded⟩ := Outline.ofPredicate_sayable hsayable
    · exact .inl hrest
    · obtain ⟨s, hs⟩ := Option.ne_none_iff_exists'.1 hincluded
      exact .inr (.inl (by rw [hs]; exact List.cons_ne_nil _ _))
    · refine .inr (.inr (.inl ?_))
      rw [excludedPart, if_neg (by simpa using hexcluded)]
      exact List.cons_ne_nil _ _

/-- **The parts of a plan in words** add up to a draft that amounts to the plan. -/
theorem Plan.Writable.adds (h : plan.Writable) (hplan : plan.isEmpty = false) (style : CurrencyStyle) :
    ∃ body g, plan.sentence Catalog.builtin style = .ok (opening ++ body) ∧ Draft.Adds body g ∧ (g {}).Amounts plan := by
  have ho := h.outline
  obtain ⟨texts, is, n, htexts, hfilters, hn, hformed, hparts, hrest⟩ := Draft.addsAll_filterPart ho.rest style
  obtain ⟨order, horder, hsorted, horders⟩ := Draft.addsAll_orderPart h.sorted
  have hincluded := Draft.addsAll_includedPart ho.included
  have hexcluded := Draft.addsAll_excludedPart ho.excluded ho.once
  have hlimit := Draft.addsAll_limitPart h.limit plan.fromBottom
  have hsentence := ((hfilters.append hincluded).append hexcluded).orAll.append (horders.append hlimit)
  refine ⟨_, _, ?_, hsentence.joined ?_, ?_⟩
  · simp only [sentence, htexts, horder, bind, Except.bind, pure, Except.pure, List.append_assoc]
  · split
    · exact List.cons_ne_nil _ _
    · next hne => exact fun hnil => hne (List.isEmpty_iff.2 (List.append_eq_nil_iff.1 hnil).1)
  · have hcount : 0 + n + (includedPart (Outline.ofPredicate plan.predicate).included).length +
        (excludedPart (Outline.ofPredicate plan.predicate).excluded).length + order.length +
        (limitPart plan.limit plan.fromBottom).length ≠ 0 := by
      intro hzero
      simp only [Nat.add_eq_zero_iff, List.length_eq_zero_iff] at hzero
      obtain ⟨⟨⟨⟨⟨-, hn0⟩, hin0⟩, hout0⟩, horder0⟩, hlimit0⟩ := hzero
      rcases h.exists_part hplan with hne | hne | hne | hne | hne
      exacts [hne (hn hn0), hne hin0, hne hout0, hne (hsorted.1 horder0), hne hlimit0]
    have hamounts := h.amounts hcount (Draft.outlined_gathered hformed hparts hrest _ plan)
    simpa [Draft.gathered, Draft.extended] using hamounts

end EquityScreen
