/-
Refining only narrows. A session is looked at together with what its user was shown since the latest
new screen: the queries, and the rows of the latest answer (`Shown`). What stands in the session keeps
to it, whatever happens in between (`Follows.run`), so after any run the rows of a refinement are among
the rows shown before it and satisfy the filters of all those queries (`rows_of_refinement`).
-/
import EquityScreen.Proofs.Draft.Excluded
import EquityScreen.Proofs.Session.Total

namespace EquityScreen

variable {c : Catalog}

/-- What was shown since the latest new screen: the events that were answered with a screen, latest
first, and the rows of the latest answer. -/
structure Shown where
  events : List Event := []
  rows : List Security := []

/-- What was shown after an event with its answer. -/
def Shown.after (c : Catalog) (shown : Shown) (e : Event) (answer : Option (Except Failure Response)) : Shown :=
  match answer, e.query? c with
  | some (.ok response), some q =>
    if response.kind = .screener then
      { events := if q.intent = .newScreen then [e] else e :: shown.events, rows := response.rows }
    else shown
  | _, _ => shown

/-- The security satisfies the filter of the query, and its sector is none that an exclude clause of
the text names. -/
structure Event.Admits (c : Catalog) (e : Event) (s : Security) : Prop where
  selects : ∀ q, e.query? c = some q → q.plan.predicate.selects c s = true
  sector : ∀ text, e = .query text → ∀ sector, Query.Excludes c text sector → ∀ raw,
    s.cell .sector = some (.text raw) → Sector.resolve? raw true ≠ some sector

namespace Session

variable {s : Session} {shown : Shown} {e : Event} {response : Response} {q : Query}

/-! ## Answers with a screen -/

/-- What an answer to a query shows then stands; after any other answer what stood still stands, or
nothing does. -/
def Settles (s : Session) (q? : Option Query) (answer : Option (Except Failure Response)) (ctx : Context) : Prop :=
  (∃ q plan base response, q? = some q ∧ answer = some (.ok response) ∧ response.kind = .screener ∧
    s.Shows q plan base response ∧ ctx.standing = some ⟨plan, response.rows⟩) ∨
  ((∀ response, answer = some (.ok response) → response.kind ≠ .screener) ∧
    (ctx.standing = s.context.standing ∨ ctx.standing = none))

/-- **What an event does to what stands.** -/
theorem step_settles (s : Session) (e : Event) :
    s.Settles (e.query? s.catalog) (s.step e).1 (s.step e).2.context := by
  rcases step_remembers s e with ⟨q, plan, base, response, hq, hanswer, hk, -, hshows, hctx⟩ | ⟨hquiet, hctx⟩
  · exact .inl ⟨q, plan, base, response, hq, hanswer, hk, hshows, by rw [hctx]; rfl⟩
  · refine .inr ⟨hquiet, ?_⟩
    rw [hctx]
    split
    · exact .inr rfl
    · exact .inl rfl

/-! ## The rows of an answer -/

theorem Shows.rows {plan : Plan} {base : List Security} (h : s.Shows q plan base response) :
    response.rows.Subperm base ∧ ∀ x ∈ response.rows, x ∈ base ∧ plan.predicate.selects s.catalog x = true := by
  obtain ⟨found, hfound, hrows, -⟩ := h.screened
  obtain ⟨-, -, -, sorted, horders, rfl⟩ := screen_ok_iff.1 hfound
  have hsub : response.rows.Subperm (plan.predicate.found s.catalog base) :=
    hrows ▸ (shown_sublist plan _ sorted).subperm.trans horders.perm.subperm
  exact ⟨hsub.trans List.filter_sublist.subperm, fun x hx => List.mem_filter.1 (hsub.subset hx)⟩

/-- The rows of an answer are admitted by the event. -/
theorem Shows.admits {plan : Plan} {base : List Security} (hq : e.query? s.catalog = some q)
    (h : s.Shows q plan base response) : ∀ x ∈ response.rows, e.Admits s.catalog x := by
  intro x hx
  have hselects : q.plan.predicate.selects s.catalog x = true := by
    have hplan := (h.rows.2 x hx).2
    rcases h.asks with ⟨-, rfl, -⟩ | ⟨_, t, -, -, rfl, -⟩
    · exact hplan
    · rw [Plan.refinedBy, Predicate.selects_conjoin, Bool.and_eq_true] at hplan
      exact hplan.2
  have hintent : q.intent = .newScreen ∨ ∃ n, q.intent = .refinement n := by
    rcases h.asks with ⟨hnew, -, -⟩ | ⟨n, -, hn, -⟩
    · exact .inl hnew
    · exact .inr ⟨n, hn⟩
  refine ⟨fun q' hq' => Option.some.inj (hq.symm.trans hq') ▸ hselects, ?_⟩
  rintro text rfl sector hexcludes raw hraw
  exact Query.resolve?_ne_of_excludes (Except.toOption_eq_some.1 hq) hintent hexcludes hselects hraw

/-! ## Runs -/

/-- The standing rows are those last shown, and all that was asked since the latest new screen admits
them. -/
structure Follows (s : Session) (shown : Shown) : Prop where
  rows : ∀ t, s.context.standing = some t → t.rows = shown.rows
  admits : ∀ t, s.context.standing = some t → ∀ x ∈ t.rows, ∀ e ∈ shown.events, e.Admits s.catalog x

/-- What was shown after events with their answers. -/
def shownAfter (c : Catalog) (history : List (Event × Option (Except Failure Response))) : Shown :=
  history.foldl (fun shown x => shown.after c x.1 x.2) {}

theorem after_quiet {answer : Option (Except Failure Response)}
    (h : ∀ response, answer = some (.ok response) → response.kind ≠ .screener) :
    shown.after c e answer = shown := by
  unfold Shown.after
  split
  · exact if_neg (h _ rfl)
  · rfl

/-- **An event** keeps what stands in step with what was shown. -/
theorem Follows.step (h : s.Follows shown) (e : Event) :
    (s.step e).2.Follows (shown.after s.catalog e (s.step e).1) := by
  have hcatalog := s.step_catalog e
  rcases step_settles s e with ⟨q, plan, base, response, hq, hanswer, hk, hshows, hstanding⟩ | ⟨hquiet, hctx⟩
  · have hafter : shown.after s.catalog e (s.step e).1 =
        { events := if q.intent = .newScreen then [e] else e :: shown.events, rows := response.rows } := by
      simp only [Shown.after, hanswer, hq, hk, if_true]
    have hself := hshows.admits hq
    rw [hafter]
    refine ⟨fun t ht => ?_, fun t ht x hx e' he' => ?_⟩
    · rw [← Option.some.inj (hstanding.symm.trans ht)]
    · rw [← Option.some.inj (hstanding.symm.trans ht)] at hx
      rw [hcatalog]
      rcases hshows.asks with ⟨hnew, -, -⟩ | ⟨n, t₀, hn, ht₀, -, hbase⟩
      · rw [if_pos hnew, List.mem_singleton] at he'
        exact he' ▸ hself x hx
      · rw [if_neg (by simp [hn]), List.mem_cons] at he'
        rcases he' with rfl | he'
        · exact hself x hx
        · exact h.admits t₀ ht₀ x (hbase ▸ (hshows.rows.2 x hx).1) e' he'
  · rw [after_quiet hquiet]
    rcases hctx with hctx | hctx
    · refine ⟨fun t ht => h.rows t (hctx ▸ ht), fun t ht => ?_⟩
      rw [hcatalog]
      exact h.admits t (hctx ▸ ht)
    · exact ⟨fun t ht => absurd (hctx.symm.trans ht) (by simp), fun t ht => absurd (hctx.symm.trans ht) (by simp)⟩

/-- Any run of events does. -/
theorem Follows.run (h : s.Follows shown) (events : List Event) :
    (s.run events).2.Follows
      ((events.zip (s.run events).1).foldl (fun shown x => shown.after s.catalog x.1 x.2) shown) := by
  induction events generalizing s shown with
  | nil => exact h
  | cons e events ih =>
    have hlast := ih (h.step e)
    rw [step_catalog] at hlast
    exact hlast

/-- **Refining only narrows.** After any run of a session, the rows that answer a refinement are among
the rows last shown; and the refinement and every query shown since the latest new screen admit each
of them. -/
theorem rows_of_refinement {config : Config} {securities : List Security} {s₀ : Session}
    (hnew : new c config securities = .ok s₀) (events : List Event) {e : Event} {q : Query} {n : Option Int}
    (hq : e.query? c = some q) (hi : q.intent = .refinement n) {response : Response}
    (h : ((s₀.run events).2.step e).1 = some (.ok response)) (hk : response.kind = .screener) :
    let shown := shownAfter c (events.zip (s₀.run events).1)
    response.rows.Subperm shown.rows ∧
      ∀ x ∈ response.rows, ∀ e' ∈ e :: shown.events, e'.Admits c x := by
  intro shown
  obtain ⟨rfl, -, -, hnone⟩ := new_cases hnew
  have hnothing : s₀.Follows {} :=
    ⟨fun t ht => absurd (hnone.symm.trans ht) (by simp), fun t ht => absurd (hnone.symm.trans ht) (by simp)⟩
  have hfollows : (s₀.run events).2.Follows shown := hnothing.run events
  have hcatalog : (s₀.run events).2.catalog = s₀.catalog := run_catalog events
  rw [← hcatalog] at hq ⊢
  rcases step_settles (s₀.run events).2 e with ⟨q', plan, base, response', hq', hanswer, -, hshows, -⟩ | ⟨hquiet, -⟩
  · cases hq.symm.trans hq'
    cases h.symm.trans hanswer
    rcases hshows.asks with ⟨hnew, -, -⟩ | ⟨_, t, -, ht, -, rfl⟩
    · exact absurd (hi.symm.trans hnew) (by simp)
    · refine ⟨hfollows.rows t ht ▸ hshows.rows.1, fun x hx e' he' => ?_⟩
      rcases List.mem_cons.1 he' with rfl | he'
      · exact hshows.admits hq x hx
      · exact hfollows.admits t ht x (hshows.rows.2 x hx).1 e' he'
  · exact absurd hk (hquiet response h)

/-- One of three companies is left when cheap ones are asked for and drug makers go. -/
theorem rows_of_refinement_exclude_pharma :
    let securities := [("A", "drugs", 10), ("B", "IT", 12), ("C", "Banking", 20)].map fun (symbol, sector, pe) =>
      Security.ofCells [(.symbol, some (.text symbol)), (.sector, some (.text sector)), (.pe, some (.number (.int pe)))]
    let s₀ : Session := ⟨Catalog.builtin, {}, securities, { capacity := 20 }⟩
    let events : List Event := [.query "top 5", .provide []]
    let e : Event := .query "+1 (PE < 15 or exclude Pharma)"
    new Catalog.builtin {} securities = .ok s₀ ∧ ∃ q response,
      e.query? Catalog.builtin = some q ∧ q.intent = .refinement (some 1) ∧
      ((s₀.run events).2.step e).1 = some (.ok response) ∧ response.kind = .screener ∧
      response.rows.map Security.symbol = ["B"] ∧
      let shown := shownAfter Catalog.builtin (events.zip (s₀.run events).1)
      response.rows.Subperm shown.rows ∧
        ∀ x ∈ response.rows, ∀ e' ∈ e :: shown.events, e'.Admits Catalog.builtin x := by
  intro securities s₀ events e
  have hnew : new Catalog.builtin {} securities = .ok s₀ := rfl
  obtain ⟨q, hq, hi⟩ : ∃ q, e.query? Catalog.builtin = some q ∧ q.intent = .refinement (some 1) :=
    Option.map_eq_some_iff.1 (show (e.query? Catalog.builtin).map (·.intent) = some (.refinement (some 1)) by
      decide +kernel)
  obtain ⟨response, hresponse, hkind, hrows⟩ : ∃ response, ((s₀.run events).2.step e).1 = some (.ok response) ∧
      response.kind = .screener ∧ response.rows.map Security.symbol = ["B"] := by
    have h : (((s₀.run events).2.step e).1.bind (·.toOption)).map (fun r => (r.kind, r.rows.map Security.symbol)) =
        some (.screener, ["B"]) := by decide +kernel
    obtain ⟨response, hresponse, h⟩ := Option.map_eq_some_iff.1 h
    obtain ⟨answer, hanswer, hok⟩ := Option.bind_eq_some_iff.1 hresponse
    exact ⟨response, hanswer.trans (congrArg _ (Except.toOption_eq_some.1 hok)), congrArg Prod.fst h, congrArg Prod.snd h⟩
  exact ⟨hnew, q, response, hq, hi, hresponse, hkind, hrows, rows_of_refinement hnew events hq hi hresponse hkind⟩

end Session
end EquityScreen
