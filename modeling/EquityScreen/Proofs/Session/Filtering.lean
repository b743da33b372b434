/-
Refinements that only filter. The standing plan leaves its rows as they are, so a filter added to it leaves
those that satisfy the filter, in their order (`Plan.Fixes.filtered`): the order, the limit and the cap that
stand have no say. Any number of such refinements leave the standing rows that satisfy all the filters
(`rows_of_filters`); so it does not matter in which order they come, nor that one comes twice.
-/
import EquityScreen.Proofs.Session.Standing

namespace EquityScreen

variable {c : Catalog} {maxResults : Int} {rows : List Security} {p r : Plan}

/-- The plan asks for no order and no limit. -/
def Plan.FiltersOnly (p : Plan) : Prop := p.sort = none ∧ p.limit = none

/-- **A filter that is added to a plan** leaves the rows of the plan that satisfy it. -/
theorem Plan.Fixes.filtered (h : p.Fixes c maxResults rows) (hr : r.FiltersOnly) {found : Screened}
    (hfound : screen c maxResults rows (p.refinedBy r) = .ok found) :
    found.rows = rows.filter (r.predicate.selects c) := by
  obtain ⟨hsort, hlimit⟩ := hr
  obtain ⟨-, -, -, sorted, horders, rfl⟩ := screen_ok_iff.1 hfound
  have hself : p.predicate.found c rows = rows :=
    List.filter_eq_self.2 fun s hs => Predicate.selects_iff.2 (h.holds s hs)
  rw [found_refinedBy, hself] at horders
  have hkept : p.sort = (p.refinedBy r).sort := by simp [Plan.refinedBy, hsort]
  obtain rfl := horders.unique ((h.ordered.filter _).congr hkept)
  have hlength : (rows.filter (r.predicate.selects c)).length ≤ rows.length := List.length_filter_le _ _
  have hlimited : limitRows (p.refinedBy r).limit (p.refinedBy r).fromBottom (rows.filter (r.predicate.selects c)) =
      rows.filter (r.predicate.selects c) :=
    limitRows_eq_self (fun n hn => Nat.le_trans hlength (h.limit n (by simpa [Plan.refinedBy, hlimit] using hn))) _
  have hcap : ¬ maxResults < ((rows.filter (r.predicate.selects c)).length : Int) := by
    have := h.cap
    omega
  rw [Plan.shown, hlimited, if_neg hcap]

/-- The filter that an event asks for. -/
def Event.filter (c : Catalog) (e : Event) : Predicate := ((e.query? c).map (·.plan.predicate)).getD .all

/-- The event is a refinement that only filters, and the answer shows a screen. -/
def Event.Filters (c : Catalog) (e : Event) (answer : Option (Except Failure Response)) : Prop :=
  ∃ q n response, e.query? c = some q ∧ q.intent = .refinement n ∧ q.plan.FiltersOnly ∧
    answer = some (.ok response) ∧ response.kind = .screener

namespace Session

variable {s : Session} {e : Event} {t : Standing}

/-- **A refinement that only filters** leaves the standing rows that satisfy its filter. -/
theorem step_filters (hfirm : s.Firm) (h : e.Filters s.catalog (s.step e).1) :
    ∃ t t' response, s.context.standing = some t ∧ (s.step e).2.context.standing = some t' ∧
      (s.step e).1 = some (.ok response) ∧ response.rows = t'.rows ∧
      t'.rows = t.rows.filter ((e.filter s.catalog).selects s.catalog) := by
  obtain ⟨q, n, response, hq, hi, hplan, hanswer, hk⟩ := h
  obtain ⟨t, ht, hshows, hstanding⟩ := standing_of_refinement hq hi hanswer hk
  obtain ⟨found, hfound, hrows, -⟩ := hshows.screened
  refine ⟨t, _, response, ht, hstanding, hanswer, rfl, ?_⟩
  rw [Event.filter, hq]
  exact hrows.trans ((hfirm t ht).fixed.filtered hplan hfound)

/-- The members of a list of securities that satisfy the filters of all events. -/
def satisfying (c : Catalog) (es : List Event) (rows : List Security) : List Security :=
  rows.filter fun x => es.all fun e => (e.filter c).selects c x

/-- Which filters there are settles which members satisfy them all. -/
theorem satisfying_congr {es es' : List Event} (h : ∀ p, p ∈ es.map (Event.filter c) ↔ p ∈ es'.map (Event.filter c)) :
    satisfying c es' rows = satisfying c es rows := by
  refine List.filter_congr fun x _ => ?_
  have hall : ∀ l : List Event, (l.all fun e => (e.filter c).selects c x) = (l.map (Event.filter c)).all (·.selects c x) :=
    fun l => (List.all_map (f := Event.filter c) (p := (·.selects c x))).symm
  rw [hall, hall, Bool.eq_iff_iff, List.all_eq_true, List.all_eq_true]
  exact forall_congr' fun p => by rw [h p]

theorem run_filters (hmax : 0 ≤ s.config.maxResults) (hfirm : s.Firm) (ht : s.context.standing = some t)
    {es : List Event} (h : ∀ x ∈ es.zip (s.run es).1, x.1.Filters s.catalog x.2) :
    ∃ t', (s.run es).2.context.standing = some t' ∧ t'.rows = satisfying s.catalog es t.rows ∧
      ∀ response, (s.run es).1.getLast? = some (some (.ok response)) → response.rows = t'.rows := by
  induction es generalizing s t with
  | nil => exact ⟨t, ht, (List.filter_eq_self.2 fun _ _ => rfl).symm, nofun⟩
  | cons e es ih =>
    obtain ⟨hfirst, hrest⟩ := List.forall_mem_cons.1 (show ∀ x ∈ (e, (s.step e).1) :: es.zip ((s.step e).2.run es).1,
      x.1.Filters s.catalog x.2 from h)
    obtain ⟨t₀, t₁, response₁, ht₀, ht₁, hanswer, hresponse, hrows⟩ := step_filters hfirm hfirst
    cases ht.symm.trans ht₀
    have hcatalog : (s.step e).2.catalog = s.catalog := step_catalog e
    obtain ⟨t', ht', hrows', hlast⟩ := ih (s := (s.step e).2) (by rwa [step_config]) (hfirm.step hmax e) ht₁
      (by rwa [hcatalog])
    refine ⟨t', ht', ?_, fun response hresponse' => ?_⟩
    · rw [hrows', hcatalog, hrows, satisfying, satisfying, List.filter_filter]
      exact List.filter_congr fun x _ => Bool.and_comm _ _
    · cases es with
      | nil =>
        have hsame : (s.step e).1 = some (.ok response) := Option.some.inj hresponse'
        cases hanswer.symm.trans hsame
        exact hresponse.trans (congrArg Standing.rows (Option.some.inj (ht₁.symm.trans ht')))
      | cons e' es => exact hlast response hresponse'

/-- **Filters commute.** After any run of a session whose cap is not negative, any number of refinements
that only filter, each answered with a screen, leave the standing rows that satisfy all their filters, in
their order, and these are the rows of the last answer. So two such runs from the same state end with the
same rows if every filter of the one is a filter of the other: neither the order of the refinements nor a
repetition changes them. -/
theorem rows_of_filters {config : Config} {securities : List Security} {s₀ : Session}
    (hnew : new c config securities = .ok s₀) (hmax : 0 ≤ config.maxResults) (events : List Event) {t : Standing}
    (ht : (s₀.run events).2.context.standing = some t) {es : List Event}
    (h : ∀ x ∈ es.zip ((s₀.run events).2.run es).1, x.1.Filters c x.2) :
    let s := (s₀.run events).2
    (∃ t', (s.run es).2.context.standing = some t' ∧
      t'.rows = t.rows.filter (fun x => es.all fun e => (e.filter c).selects c x) ∧
      ∀ response, (s.run es).1.getLast? = some (some (.ok response)) → response.rows = t'.rows) ∧
    ∀ es', (∀ x ∈ es'.zip (s.run es').1, x.1.Filters c x.2) →
      (∀ p, p ∈ es.map (Event.filter c) ↔ p ∈ es'.map (Event.filter c)) →
      (s.run es').2.context.standing.map (·.rows) = (s.run es).2.context.standing.map (·.rows) := by
  intro s
  obtain ⟨hcatalog₀, hconfig₀, -, hnone⟩ := new_cases hnew
  have hcatalog : s.catalog = c := (run_catalog events).trans hcatalog₀
  have hconfig : s.config = config := (run_config events).trans hconfig₀
  have hnothing : s₀.Firm := fun t ht => absurd (hnone.symm.trans ht) (by simp)
  have hfirm : s.Firm := hnothing.run (hconfig₀ ▸ hmax) events
  have ht : s.context.standing = some t := ht
  have h : ∀ x ∈ es.zip (s.run es).1, x.1.Filters c x.2 := h
  clear_value s
  subst hcatalog hconfig
  obtain ⟨t', ht', hrows, hlast⟩ := run_filters hmax hfirm ht h
  refine ⟨⟨t', ht', hrows, hlast⟩, fun es' h' hsame => ?_⟩
  obtain ⟨t'', ht'', hrows', -⟩ := run_filters hmax hfirm ht h'
  rw [ht', ht'', Option.map_some, Option.map_some, hrows, hrows', satisfying_congr hsame]

/-- Of the first three companies the cheap ones that make no drugs; and the same with the filters the other way
round and one of them twice. -/
theorem rows_of_filters_cheap_no_drugs :
    let securities := [("A", "drugs", 10), ("B", "IT", 12), ("C", "Banking", 20), ("D", "IT", 30)].map
      fun (symbol, sector, pe) => Security.ofCells
        [(.symbol, some (.text symbol)), (.sector, some (.text sector)), (.pe, some (.number (.int pe)))]
    let s₀ : Session := ⟨Catalog.builtin, {}, securities, { capacity := 20 }⟩
    let top3 : Event := .asked { intent := .newScreen, plan := { limit := some 3 } }
    let s := (s₀.run [top3]).2
    let refinement (p : Predicate) : Event := .asked { intent := .refinement (some 1), plan := { predicate := p } }
    let cheap := refinement (.compare ⟨"pe", .lt, .number (.int 15)⟩)
    let noDrugs := refinement (.sectorOut (.ofList ["Pharma"]))
    new Catalog.builtin {} securities = .ok s₀ ∧ ∃ t t', s.context.standing = some t ∧
      (∀ x ∈ [cheap, noDrugs].zip (s.run [cheap, noDrugs]).1, x.1.Filters Catalog.builtin x.2) ∧
      (s.run [cheap, noDrugs]).2.context.standing = some t' ∧ t'.rows.map Security.symbol = ["B"] ∧
      t'.rows = t.rows.filter (fun x => [cheap, noDrugs].all fun e =>
        (e.filter Catalog.builtin).selects Catalog.builtin x) ∧
      (s.run [noDrugs, cheap, noDrugs]).2.context.standing.map (·.rows) = some t'.rows := by
  intro securities s₀ top3 s refinement cheap noDrugs
  have hnew : new Catalog.builtin {} securities = .ok s₀ := rfl
  have hfilters : ∀ (p : Predicate) (answer : Option (Except Failure Response)),
      (answer.bind (·.toOption)).map (·.kind) = some .screener → (refinement p).Filters Catalog.builtin answer := by
    intro p answer hanswer
    obtain ⟨response, hresponse, hk⟩ := Option.map_eq_some_iff.1 hanswer
    obtain ⟨outcome, houtcome, hok⟩ := Option.bind_eq_some_iff.1 hresponse
    exact ⟨_, some 1, response, rfl, rfl, ⟨rfl, rfl⟩, houtcome.trans (congrArg _ (Except.toOption_eq_some.1 hok)), hk⟩
  obtain ⟨t, ht⟩ : ∃ t, s.context.standing = some t :=
    Option.isSome_iff_exists.1 (show s.context.standing.isSome = true by decide +kernel)
  have hes : ∀ x ∈ [cheap, noDrugs].zip (s.run [cheap, noDrugs]).1, x.1.Filters Catalog.builtin x.2 :=
    List.forall_mem_cons.2 ⟨hfilters _ _ (by decide +kernel), List.forall_mem_singleton.2 (hfilters _ _ (by decide +kernel))⟩
  have hes' : ∀ x ∈ [noDrugs, cheap, noDrugs].zip (s.run [noDrugs, cheap, noDrugs]).1, x.1.Filters Catalog.builtin x.2 :=
    List.forall_mem_cons.2 ⟨hfilters _ _ (by decide +kernel), List.forall_mem_cons.2 ⟨hfilters _ _ (by decide +kernel),
      List.forall_mem_singleton.2 (hfilters _ _ (by decide +kernel))⟩⟩
  obtain ⟨t', ht', hsymbols⟩ : ∃ t', (s.run [cheap, noDrugs]).2.context.standing = some t' ∧
      t'.rows.map Security.symbol = ["B"] :=
    Option.map_eq_some_iff.1 (show (s.run [cheap, noDrugs]).2.context.standing.map (·.rows.map Security.symbol) =
      some ["B"] by decide +kernel)
  obtain ⟨⟨t'', ht'', hrows, -⟩, hsame⟩ := rows_of_filters hnew (by decide) [top3] ht hes
  cases ht'.symm.trans ht''
  have hagain := hsame [noDrugs, cheap, noDrugs] hes' fun p => by simp [or_comm]
  exact ⟨hnew, t, t', ht, hes, ht', hsymbols, hrows, hagain.trans (congrArg _ ht')⟩

end Session
end EquityScreen
