/-
Refining a plan on its rows agrees with running both filters on everything.

The rows of a plan without limit and cap are its matches in its order. Filtering them leaves them in
that order (`Plan.Orders.filter`, `Plan.Orders.part`), and sorting them by something else shows the
same values as sorting the matches in the order of the list, though equal ones may change places
(`screen_refinedBy`).
-/
import EquityScreen.Proofs.Screening.Rows
import EquityScreen.Session.Context

namespace EquityScreen

variable {c : Catalog} {maxResults : Int} {securities rows sorted : List Security} {p r q : Plan}

/-! ## Filtering rows in order -/

theorem missingRows_filter (f : Field) (rows : List Security) (test : Security → Bool) :
    missingRows f (rows.filter test) = (missingRows f rows).filter test := by
  unfold missingRows
  exact List.filter_comm _ _ _

theorem Plan.Orders.filter (h : p.Orders c rows sorted) (test : Security → Bool) :
    p.Orders c (rows.filter test) (sorted.filter test) := by
  unfold Orders at h ⊢
  split at h
  · rw [h]
  · obtain ⟨f, hf, present, hpresent, rfl⟩ := h
    refine ⟨f, hf, _, hpresent.filter test, ?_⟩
    rw [List.filter_append, missingRows_filter]

/-- Rows in the order of a plan are in order, and so is every part of them. -/
theorem Plan.Orders.part (h : p.Orders c rows sorted) {part : List Security} (hpart : part.Sublist sorted) :
    p.Orders c part part := by
  unfold Orders at h ⊢
  split at h
  · rfl
  · obtain ⟨f, hf, present, hpresent, rfl⟩ := h
    obtain ⟨present', missing', rfl, hp, hm⟩ := List.sublist_append_iff.1 hpart
    have hvalue : ∀ s ∈ present', isMissing (f.read s) = false := fun s hs => hpresent.isMissing (hp.subset hs)
    have hnone : ∀ s ∈ missing', isMissing (f.read s) = true := fun s hs => (List.mem_filter.1 (hm.subset hs)).2
    exact ⟨f, hf, present', arranged_append hvalue hnone (hpresent.ordered.sublist hp),
      by rw [missingRows_append hvalue hnone]⟩

theorem Plan.Orders.congr (hsort : p.sort = q.sort) (h : p.Orders c rows sorted) : q.Orders c rows sorted := by
  unfold Orders at h ⊢
  rwa [← hsort]

theorem Plan.Sortable.exists_orders (hp : p.check c = .ok ()) (h : p.Sortable c rows) :
    ∃ sorted, p.Orders c rows sorted := by
  have hfield := (Plan.check_ok_iff.1 hp).2.1
  unfold Sortable at h
  unfold Orders
  cases hsort : p.sort with
  | none => exact ⟨_, rfl⟩
  | some o =>
    obtain ⟨f, hf⟩ := Option.isSome_iff_exists.1 (hfield o hsort)
    exact ⟨_, f, hf, _, arranged_mergeSort (h o hsort f hf), rfl⟩

theorem mixed_of_subset {f : Field} {l₁ l₂ : List Security} (h : l₁ ⊆ l₂) (h₂ : mixed f l₂ = false) :
    mixed f l₁ = false := by
  have hany : ∀ test : Security → Bool, l₁.any test = true → l₂.any test = true := by
    intro test htest
    obtain ⟨s, hs, hst⟩ := List.any_eq_true.1 htest
    exact List.any_eq_true.2 ⟨s, h hs, hst⟩
  refine Bool.eq_false_iff.2 fun hmixed => ?_
  rw [mixed, Bool.and_eq_true] at hmixed
  exact Bool.eq_false_iff.1 h₂ (Bool.and_eq_true_iff.2 ⟨hany _ hmixed.1, hany _ hmixed.2⟩)

theorem Plan.Sortable.of_subset {l₁ l₂ : List Security} (h : l₁ ⊆ l₂) (h₂ : p.Sortable c l₂) :
    p.Sortable c l₁ :=
  fun o ho f hf => mixed_of_subset (fun _ hs => List.mem_filter.2 ((List.mem_filter.1 hs).imp_left (@h _))) (h₂ o ho f hf)

/-! ## The filters of a refinement -/

/-- What satisfies a refined plan satisfies the refinement, of what satisfies the plan. -/
theorem found_refinedBy (p r : Plan) (securities : List Security) :
    (p.refinedBy r).predicate.found c securities =
      (p.predicate.found c securities).filter (r.predicate.selects c) := by
  unfold Predicate.found
  rw [List.filter_filter]
  exact List.filter_congr fun s _ => (p.predicate.selects_conjoin r.predicate s).trans (Bool.and_comm _ _)

theorem check_refinedBy (hp : p.check c = .ok ()) (hr : r.check c = .ok ()) :
    (p.refinedBy r).check c = .ok () := by
  obtain ⟨hp₁, hp₂, hp₃⟩ := Plan.check_ok_iff.1 hp
  obtain ⟨hr₁, hr₂, hr₃⟩ := Plan.check_ok_iff.1 hr
  refine Plan.check_ok_iff.2 ⟨hp₁.conjoin hr₁, fun o ho => ?_, fun n hn => ?_⟩
  · rcases Option.or_eq_some_iff.1 (show r.sort.or p.sort = some o by simpa [Plan.refinedBy] using ho) with h | ⟨-, h⟩
    · exact hr₂ o h
    · exact hp₂ o h
  · rcases Option.or_eq_some_iff.1 (show r.limit.or p.limit = some n by simpa [Plan.refinedBy] using hn) with h | ⟨-, h⟩
    · exact hr₃ n h
    · exact hp₃ n h

/-! ## Agreement -/

/-- Two orders of the same rows by a field: they show the same values, one after the other, and end
with the same rows without a value. -/
def SameValues (f : Field) (l₁ l₂ : List Security) : Prop :=
  ∃ present₁ missing₁ present₂ missing₂, l₁ = present₁ ++ missing₁ ∧ l₂ = present₂ ++ missing₂ ∧
    List.Forall₂ (fun a b => ties f a b = true) present₁ present₂ ∧ missing₁.Perm missing₂ ∧
    ∀ s ∈ missing₁, isMissing (f.read s) = true

theorem sameValues_of_perm {o : Ranking} {l₁ l₂ rows₁ rows₂ : List Security} (hsort : p.sort = some o)
    (h₁ : p.Orders c rows₁ l₁) (h₂ : p.Orders c rows₂ l₂) (hperm : rows₁.Perm rows₂) :
    ∃ f, c.field? o.field = some f ∧ SameValues f l₁ l₂ := by
  unfold Plan.Orders at h₁ h₂
  rw [hsort] at h₁ h₂
  obtain ⟨f, hf, present₁, hpresent₁, rfl⟩ := h₁
  obtain ⟨g, hg, present₂, hpresent₂, rfl⟩ := h₂
  cases hf.symm.trans hg
  refine ⟨f, hf, present₁, missingRows f rows₁, present₂, missingRows f rows₂, rfl, rfl, ?_,
    hperm.filter _, fun s hs => (List.mem_filter.1 hs).2⟩
  exact forall₂_ties_of_perm hpresent₁.ordered hpresent₂.ordered (fun _ => hpresent₁.ties_self)
    ((hpresent₁.perm.trans (hperm.filter _)).trans hpresent₂.perm.symm)

/-- The rows of a plan without limit and cap are its matches in order. -/
theorem rows_of_uncapped {found : Screened} (hp : screen c maxResults securities p = .ok found)
    (hlimit : p.limit = none) (hcapped : found.capped = false) :
    p.Orders c (p.predicate.found c securities) found.rows := by
  obtain ⟨-, -, -, sorted, horders, rfl⟩ := screen_ok_iff.1 hp
  have hlimited : limitRows p.limit p.fromBottom sorted = sorted := by rw [hlimit, limitRows]
  have hcap : ¬ maxResults < sorted.length := by
    rw [Plan.shown, hlimited] at hcapped
    simpa using hcapped
  rwa [Plan.shown, hlimited, if_neg hcap]

/-- Where one of the runs of a refined plan succeeds, on the rows of the plan or on everything, so
does the other. -/
theorem screen_refinedBy_iff {found : Screened} (hp : screen c maxResults securities p = .ok found)
    (hrows : p.Orders c (p.predicate.found c securities) found.rows) :
    (∃ a, screen c maxResults found.rows (p.refinedBy r) = .ok a) ↔
      ∃ b, screen c maxResults securities (p.refinedBy r) = .ok b := by
  obtain ⟨hcheck, hall, -⟩ := screen_ok_iff.1 hp
  have hmem : ∀ s, s ∈ found.rows ↔ s ∈ securities ∧ p.predicate.holds c s = .ok true := by
    intro s
    rw [hrows.perm.mem_iff, Predicate.found, List.mem_filter, Predicate.selects_iff]
  have hfound : (p.refinedBy r).predicate.found c found.rows =
      found.rows.filter (r.predicate.selects c) := by
    rw [found_refinedBy]
    refine congrArg _ (List.filter_eq_self.2 fun s hs => Predicate.selects_iff.2 ((hmem s).1 hs).2)
  have hperm : ((p.refinedBy r).predicate.found c found.rows).Perm
      ((p.refinedBy r).predicate.found c securities) := by
    rw [hfound, found_refinedBy]
    exact hrows.perm.filter _
  simp only [screen_ok_iff]
  constructor
  · rintro ⟨-, hcheck', hall', hsortable, -⟩
    have hsortable' := hsortable.of_subset hperm.symm.subset
    obtain ⟨sorted, hsorted⟩ := hsortable'.exists_orders hcheck'
    refine ⟨_, hcheck', fun s hs => ?_, hsortable', sorted, hsorted, rfl⟩
    obtain ⟨b, hb⟩ := hall s hs
    cases b with
    | true => exact hall' s ((hmem s).2 ⟨hs, hb⟩)
    | false => exact ⟨false, by rw [Plan.refinedBy, Predicate.holds_conjoin, Predicate.holds_and, hb]⟩
  · rintro ⟨-, hcheck', hall', hsortable, -⟩
    have hsortable' := hsortable.of_subset hperm.subset
    obtain ⟨sorted, hsorted⟩ := hsortable'.exists_orders hcheck'
    exact ⟨_, hcheck', fun s hs => hall' s ((hmem s).1 hs).1, hsortable', sorted, hsorted, rfl⟩

/-- **Refining agrees with screening afresh.** Let a plan without a limit give all its matches. With a
refinement added it can be run on its rows exactly if it can be run on everything, and it can on
securities whose cells are of the kinds of their attributes. Then both runs count the same; they give
the same rows unless the refinement brings an order of its own; and with such an order the rows
before limit and cap are the same but for the order of rows of equal value. -/
theorem screen_refinedBy {found : Screened} (hp : screen c maxResults securities p = .ok found)
    (hlimit : p.limit = none) (hcapped : found.capped = false) (hr : r.check c = .ok ()) :
    (∃ s ∈ securities, ¬ s.Typed) ∧
      (∃ e, screen c maxResults found.rows (p.refinedBy r) = .error e) ∧
      (∃ e, screen c maxResults securities (p.refinedBy r) = .error e) ∨
    ∃ a b sorted₁ sorted₂,
      screen c maxResults found.rows (p.refinedBy r) = .ok a ∧
      screen c maxResults securities (p.refinedBy r) = .ok b ∧
      (p.refinedBy r).Orders c ((p.refinedBy r).predicate.found c found.rows) sorted₁ ∧
      (p.refinedBy r).Orders c ((p.refinedBy r).predicate.found c securities) sorted₂ ∧
      a = (p.refinedBy r).shown maxResults sorted₁ ∧ b = (p.refinedBy r).shown maxResults sorted₂ ∧
      a.total = b.total ∧
      (p.sort = none ∨ r.sort = none ∨ r.sort = p.sort → a.rows = b.rows) ∧
      ∀ o, r.sort = some o → sorted₁.Perm sorted₂ ∧
        ∃ f, c.field? o.field = some f ∧ SameValues f sorted₁ sorted₂ := by
  have hrows := rows_of_uncapped hp hlimit hcapped
  have hiff := screen_refinedBy_iff (r := r) hp hrows
  cases hb : screen c maxResults securities (p.refinedBy r) with
  | error e =>
    left
    have hcheck := check_refinedBy (screen_ok_iff.1 hp).1 hr
    refine ⟨?_, ?_, e, rfl⟩
    · refine Classical.byContradiction fun hno => ?_
      obtain ⟨b, hb', -⟩ := screen_of_check hcheck
        (fun s hs => Classical.byContradiction fun h => hno ⟨s, hs, h⟩) maxResults
      rw [hb] at hb'
      exact absurd hb' (by simp)
    · cases ha : screen c maxResults found.rows (p.refinedBy r) with
      | error e' => exact ⟨e', rfl⟩
      | ok a =>
        obtain ⟨b, hb'⟩ := hiff.1 ⟨a, ha⟩
        rw [hb] at hb'
        exact absurd hb' (by simp)
  | ok b =>
    right
    obtain ⟨a, ha⟩ := hiff.2 ⟨b, hb⟩
    obtain ⟨-, -, -, sorted₁, horders₁, rfl⟩ := screen_ok_iff.1 ha
    obtain ⟨-, -, -, sorted₂, horders₂, rfl⟩ := screen_ok_iff.1 hb
    have hself : p.predicate.found c found.rows = found.rows :=
      List.filter_eq_self.2 fun s hs => (List.mem_filter.1 (hrows.perm.subset hs)).2
    have hperm : ((p.refinedBy r).predicate.found c found.rows).Perm
        ((p.refinedBy r).predicate.found c securities) := by
      rw [found_refinedBy, found_refinedBy, hself]
      exact hrows.perm.filter _
    have hsorted : sorted₁.Perm sorted₂ := (horders₁.perm.trans hperm).trans horders₂.perm.symm
    refine ⟨_, _, sorted₁, sorted₂, ha, rfl, horders₁, horders₂, rfl, rfl, hsorted.length_eq, fun hsort => ?_,
      fun o ho => ⟨hsorted, sameValues_of_perm ?_ horders₁ horders₂ hperm⟩⟩
    · suffices sorted₁ = sorted₂ by rw [this]
      rw [found_refinedBy, hself] at horders₁
      rw [found_refinedBy] at horders₂
      have hkept : p.sort = (p.refinedBy r).sort ∨ p.sort = none := by
        rcases hsort with h | h | h
        · exact .inr h
        · exact .inl (by simp [Plan.refinedBy, h])
        · left
          cases hs : p.sort <;> simp [Plan.refinedBy, h, hs]
      rcases hkept with hkept | hnone
      · have h₁ := ((hrows.part (List.Sublist.refl _)).filter (r.predicate.selects c)).congr hkept
        have h₂ := (hrows.filter (r.predicate.selects c)).congr hkept
        rw [horders₁.unique h₁, horders₂.unique h₂]
      · have heq : found.rows = p.predicate.found c securities := by
          unfold Plan.Orders at hrows
          rwa [hnone] at hrows
        rw [heq] at horders₁
        exact horders₁.unique horders₂
    · simp [Plan.refinedBy, ho]

/-- The first by market capitalization, where two are of equal capitalization, among rows in the order of
their multiples. -/
theorem screen_refinedBy_top_by_mcap :
    let securities := [("A", 12), ("B", 9), ("C", 30)].map fun x : String × Int => Security.ofCells
      [(.symbol, some (.text x.1)), (.pe, some (.number (.int x.2))), (.mcap, some (.number (.int 7)))]
    let p : Plan :=
      { predicate := .compare ⟨"pe", .lt, .number (.decimal 15 0)⟩, sort := some ⟨"pe", .ascending⟩ }
    let r : Plan := { sort := some ⟨"mcap", .descending⟩, limit := some 1 }
    ∃ found, screen Catalog.builtin 500 securities p = .ok found ∧ p.limit = none ∧
      found.capped = false ∧ r.check Catalog.builtin = .ok () ∧
      ((∃ s ∈ securities, ¬ s.Typed) ∧
        (∃ e, screen Catalog.builtin 500 found.rows (p.refinedBy r) = .error e) ∧
        (∃ e, screen Catalog.builtin 500 securities (p.refinedBy r) = .error e) ∨
      ∃ a b sorted₁ sorted₂,
        screen Catalog.builtin 500 found.rows (p.refinedBy r) = .ok a ∧
        screen Catalog.builtin 500 securities (p.refinedBy r) = .ok b ∧
        (p.refinedBy r).Orders Catalog.builtin
          ((p.refinedBy r).predicate.found Catalog.builtin found.rows) sorted₁ ∧
        (p.refinedBy r).Orders Catalog.builtin
          ((p.refinedBy r).predicate.found Catalog.builtin securities) sorted₂ ∧
        a = (p.refinedBy r).shown 500 sorted₁ ∧ b = (p.refinedBy r).shown 500 sorted₂ ∧
        a.total = b.total ∧
        (p.sort = none ∨ r.sort = none ∨ r.sort = p.sort → a.rows = b.rows) ∧
        ∀ o, r.sort = some o → sorted₁.Perm sorted₂ ∧
          ∃ f, Catalog.builtin.field? o.field = some f ∧ SameValues f sorted₁ sorted₂) := by
  intro securities p r
  have hp : (screen Catalog.builtin 500 securities p).isOk = true := by decide +kernel
  obtain ⟨found, hfound⟩ := Except.isOk_iff.1 hp
  have hcapped : found.capped = false := by
    obtain ⟨-, -, -, sorted, horders, rfl⟩ := screen_ok_iff.1 hfound
    have hlength : sorted.length ≤ securities.length := by
      rw [horders.perm.length_eq]
      exact List.length_filter_le _ _
    have hthree : securities.length = 3 := rfl
    exact decide_eq_false (show ¬ (500 : Int) < sorted.length by omega)
  have hr : r.check Catalog.builtin = .ok () := by
    have : (r.check Catalog.builtin).isOk = true := by decide +kernel
    obtain ⟨⟨⟩, h⟩ := Except.isOk_iff.1 this
    exact h
  exact ⟨found, hfound, rfl, hcapped, hr, screen_refinedBy hfound rfl hcapped hr⟩

end EquityScreen
