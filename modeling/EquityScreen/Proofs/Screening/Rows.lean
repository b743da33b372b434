/-
What a plan gives. Running it comes down to the matches in the order of the list, their order, and
what limit and cap leave of it (`screen_ok_iff`). Over securities whose cells are of the kinds of their
attributes, every plan that fits the catalog gives exactly these rows (`screen_rows`).
-/
import EquityScreen.Proofs.Screening.Expression
import EquityScreen.Proofs.Screening.Order

namespace EquityScreen

variable {c : Catalog} {maxResults : Int} {securities : List Security} {p : Plan}

/-! ## The matches and their order -/

/-- A security satisfies a filter. -/
def Predicate.selects (c : Catalog) (p : Predicate) (s : Security) : Bool :=
  (p.holds c s).toOption == some true

theorem Predicate.selects_iff {p : Predicate} {s : Security} :
    p.selects c s = true ↔ p.holds c s = .ok true := by
  rw [selects, beq_iff_eq, Except.toOption_eq_some]

theorem Predicate.selects_conjoin (p q : Predicate) (s : Security) :
    (p.conjoin q).selects c s = (p.selects c s && q.selects c s) := by
  unfold selects
  rw [holds_conjoin, holds_and]
  cases p.holds c s with
  | error e => rfl
  | ok b =>
    cases b with
    | false => rfl
    | true => simp [Except.toOption]

/-- What satisfies a filter, in the order of the list. -/
def Predicate.found (c : Catalog) (p : Predicate) (securities : List Security) : List Security :=
  securities.filter (p.selects c)

/-- The rows in the order of a plan: as they are when it has none, else those with a value arranged
by the field, and then those without one. -/
def Plan.Orders (c : Catalog) (p : Plan) (rows sorted : List Security) : Prop :=
  match p.sort with
  | none => sorted = rows
  | some o => ∃ f, c.field? o.field = some f ∧
      ∃ present, Arranged f o.direction rows present ∧ sorted = present ++ missingRows f rows

/-- Sorting by the order of a plan meets values of one kind only. -/
def Plan.Sortable (c : Catalog) (p : Plan) (rows : List Security) : Prop :=
  ∀ o ∈ p.sort, ∀ f ∈ c.field? o.field,
    mixed f (rows.filter fun s => !isMissing (f.read s)) = false

theorem sortRows_ok_iff {rows sorted : List Security} (hp : p.check c = .ok ()) :
    sortRows c rows p.sort = .ok sorted ↔ p.Sortable c rows ∧ p.Orders c rows sorted := by
  have hfield := (Plan.check_ok_iff.1 hp).2.1
  unfold Plan.Sortable Plan.Orders
  cases hsort : p.sort with
  | none => exact ⟨fun h => ⟨nofun, (Except.ok.inj h).symm⟩, fun h => congrArg _ h.2.symm⟩
  | some o =>
    obtain ⟨f, hf⟩ := Option.isSome_iff_exists.1 (hfield o hsort)
    simp only [sortRows, Catalog.require, hf, sortBy_ok_iff, Option.mem_def, Option.some.injEq, forall_eq',
      exists_eq_left']

theorem Plan.Orders.perm {rows sorted : List Security} (h : p.Orders c rows sorted) : sorted.Perm rows := by
  unfold Orders at h
  split at h
  · rw [h]
  · obtain ⟨f, -, present, hp, rfl⟩ := h
    refine (hp.perm.append_right _).trans (List.perm_append_comm.trans ?_)
    exact List.filter_append_perm (fun s => isMissing (f.read s)) rows

/-- There is one order of given rows. -/
theorem Plan.Orders.unique {rows l₁ l₂ : List Security} (h₁ : p.Orders c rows l₁) (h₂ : p.Orders c rows l₂) :
    l₁ = l₂ := by
  unfold Orders at h₁ h₂
  cases hsort : p.sort with
  | none =>
    rw [hsort] at h₁ h₂
    exact h₁.trans h₂.symm
  | some o =>
    rw [hsort] at h₁ h₂
    obtain ⟨f, hf, l₁, hl₁, rfl⟩ := h₁
    obtain ⟨g, hg, l₂, hl₂, rfl⟩ := h₂
    cases hf.symm.trans hg
    rw [hl₁.unique hl₂]

/-! ## Limit and cap -/

/-- What limit and cap leave of the rows of a plan. -/
def Plan.shown (p : Plan) (maxResults : Int) (sorted : List Security) : Screened :=
  let limited := limitRows p.limit p.fromBottom sorted
  { rows := if maxResults < limited.length then takeSigned maxResults limited else limited
    total := sorted.length
    capped := maxResults < limited.length }

/-- What a limit leaves of the rows: all, or so many of the first or of the last, as far as there are
so many. -/
def Plan.Limits (p : Plan) (sorted limited : List Security) : Prop :=
  match p.limit with
  | none => limited = sorted
  | some n => limited.length = min n.toNat sorted.length ∧
      if p.fromBottom then limited <:+ sorted else limited <+: sorted

theorem limits_limitRows (p : Plan) (sorted : List Security) :
    p.Limits sorted (limitRows p.limit p.fromBottom sorted) := by
  unfold Plan.Limits limitRows
  cases p.limit with
  | none => rfl
  | some n =>
    cases p.fromBottom with
    | true =>
      refine ⟨?_, List.drop_suffix _ _⟩
      simp only [if_true, List.length_drop]
      omega
    | false =>
      refine ⟨?_, List.take_prefix _ _⟩
      simp only [Bool.false_eq_true, if_false, List.length_take]

/-- The rows are the first of those within the limit, as many as the cap allows. -/
theorem shown_rows (hmax : 0 ≤ maxResults) (p : Plan) (sorted : List Security) :
    (p.shown maxResults sorted).rows = (limitRows p.limit p.fromBottom sorted).take maxResults.toNat := by
  unfold Plan.shown takeSigned
  dsimp only
  rw [if_pos hmax]
  split
  · rfl
  · rw [List.take_of_length_le (by omega)]

theorem shown_sublist (p : Plan) (maxResults : Int) (sorted : List Security) :
    (p.shown maxResults sorted).rows.Sublist sorted := by
  have hlimited : (limitRows p.limit p.fromBottom sorted).Sublist sorted := by
    unfold limitRows
    split
    · exact List.Sublist.refl _
    · split
      · exact List.drop_sublist _ _
      · exact List.take_sublist _ _
  unfold Plan.shown takeSigned
  dsimp only
  split
  · split <;> exact (List.take_sublist _ _).trans hlimited
  · exact hlimited

/-! ## Running -/

/-- **Running a plan** succeeds when it fits the catalog, the filter can be looked at on every security,
and the matches can be sorted; it gives what limit and cap leave of the matches in order. -/
theorem screen_ok_iff {result : Screened} :
    screen c maxResults securities p = .ok result ↔
      p.check c = .ok () ∧ (∀ s ∈ securities, ∃ b, p.predicate.holds c s = .ok b) ∧
        p.Sortable c (p.predicate.found c securities) ∧
        ∃ sorted, p.Orders c (p.predicate.found c securities) sorted ∧ result = p.shown maxResults sorted := by
  have hshown : ∀ {found sorted : List Security}, sorted.Perm found →
      ({ rows := if maxResults < (limitRows p.limit p.fromBottom sorted).length then
            takeSigned maxResults (limitRows p.limit p.fromBottom sorted)
          else limitRows p.limit p.fromBottom sorted
         total := found.length
         capped := maxResults < (limitRows p.limit p.fromBottom sorted).length } : Screened) =
        p.shown maxResults sorted := by
    intro found sorted h
    rw [Plan.shown, h.length_eq]
  unfold screen
  simp only [Except.bind_ok_iff, select_ok_iff, Except.pure_ok_iff]
  constructor
  · rintro ⟨⟨⟩, hcheck, _, ⟨hall, rfl⟩, sorted, hsorted, rfl⟩
    obtain ⟨hsortable, horders⟩ := (sortRows_ok_iff hcheck).1 hsorted
    exact ⟨hcheck, hall, hsortable, sorted, horders, hshown horders.perm⟩
  · rintro ⟨hcheck, hall, hsortable, sorted, horders, rfl⟩
    exact ⟨(), hcheck, _, ⟨hall, rfl⟩, sorted, (sortRows_ok_iff hcheck).2 ⟨hsortable, horders⟩,
      hshown horders.perm⟩

/-- **What a plan gives.** Over securities whose cells are of the kinds of their attributes, a plan
that fits the catalog gives the matches in its order, within its limit, and of these the first
`maxResults`; it counts the matches before limit and cap, and tells whether the cap left some out. -/
theorem screen_rows (hmax : 0 ≤ maxResults) (hp : p.check c = .ok ()) (hs : ∀ s ∈ securities, s.Typed) :
    ∃ result sorted limited, screen c maxResults securities p = .ok result ∧
      p.Orders c (p.predicate.found c securities) sorted ∧ p.Limits sorted limited ∧
      result.total = (p.predicate.found c securities).length ∧
      result.rows <+: limited ∧ result.rows.length = min maxResults.toNat limited.length ∧
      (result.capped = true ↔ result.rows.length < limited.length) := by
  obtain ⟨result, hresult, -⟩ := screen_of_check hp hs maxResults
  obtain ⟨-, -, -, sorted, horders, rfl⟩ := screen_ok_iff.1 hresult
  refine ⟨_, sorted, limitRows p.limit p.fromBottom sorted, hresult, horders, limits_limitRows p sorted,
    horders.perm.length_eq, ?_, ?_, ?_⟩
  · rw [shown_rows hmax]
    exact List.take_prefix _ _
  · rw [shown_rows hmax, List.length_take]
  · rw [shown_rows hmax, List.length_take, Plan.shown, decide_eq_true_iff]
    omega

/-- The last three of five by market capitalization, of which two are shown: infinite, two equal, and
two without a value. -/
theorem screen_rows_bottom_three :
    let cells : List (String × Option Value) := [("A", some (.number (.int 10))),
      ("B", some (.number (.double .nan))), ("C", some (.number (.double (.infinite false)))), ("D", none),
      ("E", some (.number (.decimal 10 0)))]
    let securities := cells.map fun x => Security.ofCells [(.symbol, some (.text x.1)), (.mcap, x.2)]
    let p : Plan := { sort := some ⟨"mcap", .descending⟩, limit := some 3, fromBottom := true }
    p.check Catalog.builtin = .ok () ∧ (∀ s ∈ securities, s.Typed) ∧
      ∃ result sorted limited, screen Catalog.builtin 2 securities p = .ok result ∧
        p.Orders Catalog.builtin (p.predicate.found Catalog.builtin securities) sorted ∧
        p.Limits sorted limited ∧ result.total = (p.predicate.found Catalog.builtin securities).length ∧
        result.rows <+: limited ∧ result.rows.length = min (2 : Int).toNat limited.length ∧
        (result.capped = true ↔ result.rows.length < limited.length) := by
  intro cells securities p
  have hp : p.check Catalog.builtin = .ok () :=
    Plan.check_ok_iff.2 ⟨Predicate.every_all, fun o ho => Option.some.inj ho ▸ regular_builtin.fallback,
      fun n hn => Option.some.inj hn ▸ by decide⟩
  have hs : ∀ s ∈ securities, s.Typed := by
    intro s hs
    obtain ⟨x, hx, rfl⟩ := List.mem_map.1 hs
    have hnumber : ∀ v, x.2 = some v → ∃ n, v = .number n := by
      intro v hv
      simp only [cells, List.mem_cons, List.not_mem_nil, or_false] at hx
      rcases hx with rfl | rfl | rfl | rfl | rfl <;> simp at hv <;> exact ⟨_, hv.symm⟩
    refine Security.Typed.ofCells fun a v hv => ?_
    simp only [List.mem_cons, Prod.mk.injEq, Option.some.injEq, List.not_mem_nil, or_false] at hv
    rcases hv with ⟨rfl, rfl⟩ | ⟨rfl, hv⟩
    · rfl
    · obtain ⟨n, rfl⟩ := hnumber v hv.symm
      rfl
  exact ⟨hp, hs, screen_rows (by decide) hp hs⟩

end EquityScreen
