/-
What a session advises when nothing matches.

* `loosen_hint_tightest`: a filter means its clauses, they are counted tightest first on the securities that the plan
  was run on, and the advice on a screen without matches comes first and is on a clause that no other undercuts.
-/
import EquityScreen.Proofs.Screening.Tightest
import EquityScreen.Proofs.Session.Step

namespace EquityScreen

/-- Advice to loosen one of some clauses, with its count: no other clause has a smaller one. -/
def NamesTightest (c : Catalog) (style : CurrencyStyle) (base : List Security) (clauses : List Predicate)
    (hint : String) : Prop :=
  ∃ clause ∈ clauses, ∃ text, clause.phrase c style = .ok text ∧
    hint = s!"No matches: try loosening {text} (only {(clause.found c base).length} of {base.length} pass it)" ∧
    ∀ other ∈ clauses, (clause.found c base).length ≤ (other.found c base).length

theorem namesTightest_of_loosenHint {c : Catalog} {style : CurrencyStyle} {base : List Security} {p : Plan}
    {counts : List Selectivity} {hint : String} (h : loosenHint c style p counts = .ok hint)
    (hcounts : TightestFirst c base p.predicate.conjuncts counts) (hsome : p.predicate.conjuncts ≠ []) :
    NamesTightest c style base p.predicate.conjuncts hint := by
  cases counts with
  | nil => exact absurd hcounts.perm.nil_eq.symm hsome
  | cons x counts =>
    obtain ⟨text, htext, rfl⟩ := Except.map_ok_iff.1 h
    obtain ⟨hpassing, hsize⟩ := hcounts.counted x List.mem_cons_self
    refine ⟨x.clause, hcounts.head.1, text, htext, ?_, hcounts.head.2⟩
    rw [hpassing, hsize]
    rfl

namespace Session

variable {s : Session} {q : Query} {response : Response}

/-- An answer that shows a screen is that to the plan that the query comes to. -/
theorem answerQuery_screener (h : (s.answerQuery q).1 = .ok response) (hk : response.kind = .screener) :
    ∃ r, s.context.resolve q.intent q.plan = .ok r ∧ s.answerPlan q r = .ok response := by
  have hscreen : (s.answerQuery q).1 = (s.answerScreen q).1 := by
    unfold answerQuery at h ⊢
    split
    · next hi => rw [hi] at h; cases h; exact absurd hk nofun
    · next hi => rw [hi] at h; cases h; exact absurd hk nofun
    · rfl
  rw [hscreen, answerScreen] at h
  split at h
  · cases h; exact absurd hk nofun
  · next r hr =>
    split at h
    · exact absurd h nofun
    · next response' hresponse => cases h; exact ⟨r, hr, hresponse⟩

/-- A text is not understood, or cannot be read, or is a query and answered as such. -/
theorem answerText_cases (s : Session) (text : String) :
    (s.answerText text).1 = .ok (.notUnderstood text) ∨ (∃ e, (s.answerText text).1 = .error e) ∨
      ∃ q, Query.parse s.catalog text = .ok q ∧ s.answerText text = s.answerQuery q := by
  unfold answerText
  split
  · exact .inl rfl
  · cases hparse : Query.parse s.catalog text with
    | error e =>
      cases e with
      | lex e => exact .inr (.inl ⟨_, rfl⟩)
      | empty t => exact .inl rfl
    | ok q => exact .inr (.inr ⟨q, rfl, rfl⟩)

theorem step_screener {e : Event} (h : (s.step e).1 = some (.ok response)) (hk : response.kind = .screener) :
    ∃ q r, e.query? s.catalog = some q ∧ s.context.resolve q.intent q.plan = .ok r ∧
      s.answerPlan q r = .ok response := by
  cases e with
  | query text =>
    replace h : (s.answerText text).1 = .ok response := Option.some.inj h
    rcases answerText_cases s text with hnot | ⟨e, he⟩ | ⟨q, hq, heq⟩
    · rw [hnot] at h; cases h; cases hk
    · rw [he] at h; exact absurd h (by simp)
    · obtain ⟨r, hr, hresponse⟩ := answerQuery_screener (heq ▸ h) hk
      exact ⟨q, r, by rw [Event.query?, hq]; rfl, hr, hresponse⟩
  | asked q =>
    obtain ⟨r, hr, hresponse⟩ := answerQuery_screener (Option.some.inj h) hk
    exact ⟨q, r, rfl, hr, hresponse⟩
  | clear => exact absurd h (by simp [step])
  | provide securities => exact absurd h (by simp [step])

/-- **A screen without matches** begins its advice with a clause that no other undercuts. -/
theorem answerPlan_suggestions {r : Resolved} (h : s.answerPlan q r = .ok response) (hnone : response.total = 0)
    (hsome : r.plan.predicate.conjuncts ≠ []) : ∃ hint, response.suggestions.head? = some hint ∧
      NamesTightest s.catalog s.config.style (r.base.getD s.securities) r.plan.predicate.conjuncts hint := by
  obtain ⟨found, counts, account, -, hcounts, haccount, rfl⟩ := answerPlan_ok_iff.1 h
  replace hnone : found.total = 0 := hnone
  rw [tightest, if_pos hnone] at hcounts
  simp only [Account.of, Except.bind_ok_iff, Except.pure_ok_iff, countHint, hnone] at haccount
  obtain ⟨_, -, hints, hhints, _, -, rfl⟩ := haccount
  rw [if_pos (by rfl)] at hhints
  obtain ⟨hint, hhint, rfl⟩ := Except.map_ok_iff.1 hhints
  exact ⟨hint, rfl, namesTightest_of_loosenHint hhint (selectivity_tightestFirst hcounts) hsome⟩

/-- **The advice on a screen without matches names a tightest clause.** In any session:

- a security satisfies a filter just where it satisfies all of its clauses;
- for a plan that fits the catalog, on any securities, the clauses are counted unless one of them comes to a sector that
  is a number; they are counted each by itself, tightest first, and no count is below the number that the plan finds;
- a screen without matches, of a plan with clauses, begins its advice with a clause of the smallest count on the
  securities that it was run on, which are the standing rows for a refinement. -/
theorem loosen_hint_tightest (s : Session) :
    (∀ (p : Predicate) (x : Security),
      p.selects s.catalog x = true ↔ ∀ q ∈ p.conjuncts, q.selects s.catalog x = true) ∧
    (∀ (p : Plan) (base : List Security), p.check s.catalog = .ok () →
      ((∃ counts, selectivity s.catalog base p = .ok counts) ↔
        ∀ q ∈ p.predicate.conjuncts, ∀ x ∈ base, ¬ q.Baffled s.catalog x) ∧
      ((∀ x ∈ base, x.Typed) → ∃ counts, selectivity s.catalog base p = .ok counts) ∧
      ∀ counts, selectivity s.catalog base p = .ok counts →
        TightestFirst s.catalog base p.predicate.conjuncts counts ∧
        ∀ maxResults result, screen s.catalog maxResults base p = .ok result → ∀ x ∈ counts, result.total ≤ x.passing) ∧
    ∀ (e : Event) (response : Response), (s.step e).1 = some (.ok response) → response.kind = .screener →
      response.total = 0 → ∃ q r, e.query? s.catalog = some q ∧ s.context.resolve q.intent q.plan = .ok r ∧
        (r.plan.predicate.conjuncts ≠ [] → ∃ hint, response.suggestions.head? = some hint ∧
          NamesTightest s.catalog s.config.style (r.base.getD s.securities) r.plan.predicate.conjuncts hint) := by
  refine ⟨fun p x => Predicate.selects_iff_conjuncts, fun p base hp => ?_, fun e response h hk hnone => ?_⟩
  · have hexists := @exists_selectivity_iff s.catalog base p hp
    refine ⟨hexists, fun htyped => hexists.2 fun q _ x hx => (htyped x hx).not_baffled q, fun counts hcounts => ?_⟩
    have htightest := selectivity_tightestFirst hcounts
    refine ⟨htightest, fun maxResults result hresult x hx => ?_⟩
    rw [(htightest.counted x hx).1, Int.ofNat_le]
    exact total_le_found hresult (htightest.perm.subset (List.mem_map_of_mem hx))
  · obtain ⟨q, r, hq, hr, hresponse⟩ := step_screener h hk
    exact ⟨q, r, hq, hr, answerPlan_suggestions hresponse hnone⟩

end Session
end EquityScreen
