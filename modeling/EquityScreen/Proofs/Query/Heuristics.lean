/-
What a query reports as heuristics.

A filter that comes from a qualitative word or phrase is never applied unseen, and nothing else is reported: the
reports are, in their order, the items that came from the phrase table or from a qualifier before a field, the
complement where an exclude word turned one round, and each of them is a part of the filter of the plan as it is
reported (`ofTokens_heuristics`).
-/
import EquityScreen.Proofs.Draft.Heuristics
import EquityScreen.Proofs.Draft.Sentence
import EquityScreen.Proofs.Query.Asking

namespace EquityScreen

/-- What a draft has taken up as a filter is a part of its filter. -/
theorem Draft.Narrow.occurs {d : Draft} (h : d.Narrow) {p : Predicate} (hp : .filter p ∈ d.items) :
    p.Occurs d.predicate := by
  have hitems : ∀ i ∈ d.items, i ≠ .filter .all := by
    rintro i hi rfl
    exact h.filters _ hi rfl
  have hne := h.filters p hp
  rw [predicate_eq]
  exact ((Predicate.occurs_ofItems hitems hp).conjoin hne _).conjoin hne _

namespace Query

variable {c : Catalog} {ts : List Token} {q : Query}

/-- The tokens that are read clause by clause: none of a request, and otherwise those behind the announcement. -/
def clauseTokens (ts : List Token) : List Token := if (request? ts).isSome then [] else (announced ts).2

/-- A query that is read is what the draft of its clauses amounts to. -/
theorem ofTokens_draft (h : ofTokens c ts = .ok q) :
    q.plan = (Draft.ofTokens c (clauseTokens ts)).plan ∧
      q.heuristics = (Draft.ofTokens c (clauseTokens ts)).heuristics := by
  unfold clauseTokens
  rcases ofTokens_cases h with ⟨i, hi, h⟩ | ⟨hnone, d, rfl, ⟨e, -, h⟩ | ⟨-, -, h⟩ | ⟨-, -, h⟩⟩
  · rw [Except.ok.inj h, hi]
    exact ⟨rfl, rfl⟩
  · exact absurd h (by simp)
  · exact absurd h (by simp)
  · rw [Except.ok.inj h, hnone]
    exact ⟨rfl, rfl⟩

/-- **Heuristics are visible and true.** When tokens are read, the filters of the reports are in their order the items
of the plan that came from qualitative words and phrases, each once, and each of them is a part of the filter of the
plan. -/
theorem ofTokens_heuristics (h : ofTokens c ts = .ok q) :
    q.plan = (Draft.ofTokens c (clauseTokens ts)).plan ∧
    Draft.Takes c {} (clauseTokens ts) (Draft.ofTokens c (clauseTokens ts)).items (q.heuristics.map (·.predicate)) ∧
    ∀ x ∈ q.heuristics, x.predicate.Occurs q.plan.predicate := by
  obtain ⟨hplan, hheuristics⟩ := ofTokens_draft h
  have htakes := Draft.takes_ofTokens c (clauseTokens ts)
  rw [← hheuristics] at htakes
  refine ⟨hplan, htakes, fun x hx => ?_⟩
  have hitem := Item.mem_filters.1 (htakes.sublist.subset (List.mem_map_of_mem hx))
  rw [hplan]
  exact (Draft.ofTokens_narrow c (clauseTokens ts)).occurs hitem

/-- A qualifier before a field, and a phrase turned round. -/
theorem ofTokens_heuristics_reversed :
    ∃ ts q, tokenize "high ROE, not cheap" = .ok ts ∧ ofTokens Catalog.builtin ts = .ok q ∧
      (q.heuristics.map fun x => (x.phrase, x.predicate.comparisons.map fun cmp => (cmp.field, cmp.op))) =
        [("high ROE", [("roe", .gt)]), ("not cheap", [("pe", .ge)])] ∧
      Draft.Takes Catalog.builtin {} (clauseTokens ts) (Draft.ofTokens Catalog.builtin (clauseTokens ts)).items
        (q.heuristics.map (·.predicate)) ∧
      ∀ x ∈ q.heuristics, x.predicate.Occurs q.plan.predicate := by
  have hread : ((tokenize "high ROE, not cheap").toOption.bind fun ts =>
      (ofTokens Catalog.builtin ts).toOption.map fun q =>
        q.heuristics.map fun x => (x.phrase, x.predicate.comparisons.map fun cmp => (cmp.field, cmp.op))) =
      some [("high ROE", [("roe", .gt)]), ("not cheap", [("pe", .ge)])] := by decide +kernel
  obtain ⟨ts, hts, hread⟩ := Option.bind_eq_some_iff.1 hread
  obtain ⟨q, hq, hreported⟩ := Option.map_eq_some_iff.1 hread
  have hq := Except.toOption_eq_some.1 hq
  exact ⟨ts, q, Except.toOption_eq_some.1 hts, hq, hreported, (ofTokens_heuristics hq).2⟩

end Query
end EquityScreen
