/-
What stands in a session stands firm. The standing plan gives back the standing rows, and what was put
into words once can be again (`Standing.Firm`); every event keeps this (`Firm.step`). So a refinement
that asks for nothing new but a limit is always answered (`Standing.Firm.answer`): asked a second time,
a refinement shows the rows that it showed before, and one that only gives a limit shows so many of the
standing rows (`standing_fixed`).
-/
import EquityScreen.Catalog.Builtin
import EquityScreen.Proofs.Query.Asking
import EquityScreen.Proofs.Screening.Again
import EquityScreen.Proofs.Session.Step
import EquityScreen.Proofs.Wording.Sentence

namespace EquityScreen

variable {c : Catalog} {style : CurrencyStyle} {p r : Plan}

/-! ## The wording of a plan with a repetition -/

/-- Leaving out repetitions keeps the first of each kind. -/
theorem Plan.find?_firstOccurrences (test : String → Bool) (keys : List String) :
    (firstOccurrences keys).find? test = keys.find? test := by
  suffices h : ∀ seen : List String,
      (keys.foldl (fun seen k => if seen.contains k then seen else seen ++ [k]) seen).find? test =
        (seen ++ keys).find? test from h []
  induction keys with
  | nil => intro seen; rw [List.foldl_nil, List.append_nil]
  | cons k keys ih =>
    intro seen
    rw [List.foldl_cons, ih]
    split
    · next hseen =>
      rw [List.find?_append, List.find?_append]
      cases hfind : seen.find? test with
      | some key => rfl
      | none =>
        have hk : test k = false := by
          simpa using List.find?_eq_none.1 hfind k (List.contains_iff_mem.1 hseen)
        rw [List.find?_cons_of_neg (by simp [hk])]
    · rw [List.append_assoc]
      rfl

theorem find?_append_of_subset {α : Type} {test : α → Bool} {l more : List α} (h : more ⊆ l) :
    (l ++ more).find? test = l.find? test := by
  rw [List.find?_append]
  cases hfind : l.find? test with
  | some a => rfl
  | none => exact List.find?_eq_none.2 fun a ha => List.find?_eq_none.1 hfind a (h ha)

namespace Plan.Repeats

variable (h : p.Repeats r)
include h

/-- A repetition brings in no comparison. -/
theorem every_refinedBy {P : Comparison → Prop} (hp : p.predicate.Every P) : (p.refinedBy r).predicate.Every P := by
  obtain ⟨rest, hrest⟩ := h.predicate
  have hboth := hp
  rw [hrest, Predicate.every_conjoin] at hboth
  exact hp.conjoin hboth.2

theorem sentence_refinedBy (hp : ∃ text, p.sentence c style = .ok text) :
    ∃ text, (p.refinedBy r).sentence c style = .ok text := by
  obtain ⟨hwordable, hsort⟩ := Plan.sentence_ok_iff.1 hp
  exact Plan.sentence_ok_iff.2 ⟨h.every_refinedBy hwordable, h.sort_refinedBy ▸ hsort⟩

/-- A plan without an order advises the same order after a repetition. -/
theorem rankField_refinedBy (hsort : p.sort = none) : (p.refinedBy r).rankField c = p.rankField c := by
  obtain ⟨rest, hrest⟩ := h.predicate
  have hsub : r.predicate.fields ⊆ p.predicate.fields := by
    rw [hrest, Predicate.fields_conjoin]
    exact List.subset_append_right _ _
  unfold Plan.rankField Plan.referencedFields
  rw [find?_firstOccurrences, find?_firstOccurrences, h.sort_refinedBy, hsort, Option.map_none, Option.toList_none,
    List.append_nil, List.append_nil, Plan.refinedBy, Predicate.fields_conjoin, find?_append_of_subset hsub]

end Plan.Repeats

/-! ## Standing firm -/

/-- The standing plan gives back the standing rows and can be put into words, and if there are many rows
in no order, there is a field to advise one by. -/
structure Standing.Firm (c : Catalog) (config : Config) (t : Standing) : Prop where
  fixed : t.plan.Fixes c config.maxResults t.rows
  worded : ∃ text, t.plan.sentence c config.style = .ok text
  ranked : t.rows ≠ [] → config.largeResult < t.rows.length → t.plan.sort = none →
    ∃ f, c.named (t.plan.rankField c) = .ok f

namespace Session

variable {s : Session} {q : Query} {e : Event} {t : Standing} {response : Response}

/-- **What an answer shows** stands firm from then on. -/
theorem Shows.firm (hmax : 0 ≤ s.config.maxResults) {plan : Plan} {base : List Security}
    (h : s.Shows q plan base response) : Standing.Firm s.catalog s.config ⟨plan, response.rows⟩ := by
  obtain ⟨found, hfound, hrows, htotal⟩ := h.screened
  obtain ⟨clauses, account, haccount⟩ := h.told
  obtain ⟨hsentence, ⟨hint, hhint⟩, -⟩ := Account.of_ok_iff.1 ⟨account, haccount⟩
  refine ⟨hrows ▸ fixes_of_screen hmax hfound, hsentence, fun hne hlarge hsort => ?_⟩
  have hlength : response.rows.length ≤ response.total := by
    rw [hrows, htotal]
    exact length_rows_le_total hfound
  have hpos : 0 < response.rows.length := List.length_pos_iff.2 hne
  have hlarge : s.config.largeResult < (response.rows.length : Int) := hlarge
  have hsort : plan.sort = none := hsort
  have hmatches : (response.total : Int) ≠ 0 := by omega
  have hcrowd : (s.config.largeResult < (response.total : Int) && (plan.sort.isNone || plan.limit.isNone)) = true := by
    have hmany : s.config.largeResult < (response.total : Int) := by omega
    simp [hmany, hsort]
  rw [countHint, if_neg hmatches, if_pos hcrowd, Except.map_ok_iff] at hhint
  obtain ⟨text, htext, -⟩ := hhint
  obtain ⟨f, hf, -⟩ := Except.map_ok_iff.1 htext
  rw [hsort] at hf
  exact ⟨f, hf⟩

/-- **A repetition of what stands** is answered, with what its limit leaves of the standing rows. -/
theorem answerPlan_repeats (hfirm : t.Firm s.catalog s.config) (hq : t.plan.Repeats q.plan)
    (hnotes : ∀ h ∈ q.heuristics, ∃ note, h.note s.catalog s.config.style = .ok note) :
    ∃ response, s.answerPlan q ⟨t.plan.refinedBy q.plan, some t.rows⟩ = .ok response ∧
      response.kind = .screener ∧ response.rows = limitRows q.plan.limit q.plan.fromBottom t.rows := by
  have hsentence := hq.sentence_refinedBy hfirm.worded
  obtain ⟨hwordable, hsort⟩ := Plan.sentence_ok_iff.1 hsentence
  obtain ⟨clauses, hclauses, hmem⟩ : ∃ clauses, s.tightest t.rows (t.plan.refinedBy q.plan) t.rows.length =
      .ok clauses ∧ ∀ x ∈ clauses, x.clause ∈ (t.plan.refinedBy q.plan).predicate.conjuncts :=
    tightest_ok fun hnone p _ x hx => absurd (List.length_eq_zero_iff.1 hnone ▸ hx) List.not_mem_nil
  have hhint : ∃ hint, countHint s.catalog s.config (t.plan.refinedBy q.plan) t.rows.length clauses = .ok hint := by
    refine countHint_ok hwordable hmem fun hmatches hlarge => ?_
    cases hrefined : (t.plan.refinedBy q.plan).sort with
    | some o =>
      obtain ⟨f, hf⟩ := Option.isSome_iff_exists.1 (hsort o hrefined)
      exact ⟨f, by rw [Option.map_some, Option.getD_some, Catalog.named, hf]⟩
    | none =>
      have hnone : t.plan.sort = none := hq.sort_refinedBy ▸ hrefined
      rw [Option.map_none, Option.getD_none, hq.rankField_refinedBy hnone]
      exact hfirm.ranked (fun hnil => hmatches (by rw [hnil]; rfl)) hlarge hnone
  obtain ⟨account, haccount⟩ : ∃ account, Account.of s.catalog s.config (t.plan.refinedBy q.plan) q.intent
      t.rows.length q.skipped q.heuristics clauses = .ok account := Account.of_ok_iff.2 ⟨hsentence, hhint, hnotes⟩
  exact ⟨_, answerPlan_ok_iff.2 ⟨_, clauses, account, hfirm.fixed.refinedBy hq, hclauses, haccount, rfl⟩, rfl, rfl⟩

/-! ## Events -/

/-- An event that asks for a screen is answered as its query. -/
theorem step_of_query (hq : e.query? s.catalog = some q)
    (hi : q.intent = .newScreen ∨ ∃ n, q.intent = .refinement n) : s.step e = s.remember (s.answerQuery q) := by
  cases e with
  | query text =>
    have hparse := Except.toOption_eq_some.1 hq
    have hblank := Query.trim_ne_empty hparse hi
    simp only [step, answerText, beq_eq_false_iff_ne.2 hblank, Bool.false_eq_true, if_false, hparse]
  | asked q' => rw [Option.some.inj (show some q' = some q from hq)]; rfl
  | clear | provide _ => exact absurd hq (by simp [Event.query?])

/-- The answer to a refinement of what stands. -/
theorem step_refinement (hq : e.query? s.catalog = some q) {n : Option Int} (hi : q.intent = .refinement n)
    (ht : s.context.standing = some t)
    (h : s.answerPlan q ⟨t.plan.refinedBy q.plan, some t.rows⟩ = .ok response) :
    (s.step e).1 = some (.ok response) := by
  rw [step_of_query hq (.inr ⟨n, hi⟩)]
  simp only [remember, answerQuery, hi, answerScreen, Context.resolve, ht, h]

/-- What stands in the session stands firm. -/
def Firm (s : Session) : Prop := ∀ t, s.context.standing = some t → t.Firm s.catalog s.config

/-- **An event** leaves what stands firm. -/
theorem Firm.step (hmax : 0 ≤ s.config.maxResults) (h : s.Firm) (e : Event) : (s.step e).2.Firm := by
  intro t ht
  rw [step_catalog, step_config]
  rcases step_remembers s e with ⟨q, plan, base, response, -, -, -, -, hshows, hctx⟩ | ⟨-, hctx⟩
  · rw [hctx, Context.standing_record] at ht
    rw [← Option.some.inj ht]
    exact hshows.firm hmax
  · rw [hctx] at ht
    split at ht
    · exact absurd ht (by simp)
    · exact h t ht

theorem Firm.run (hmax : 0 ≤ s.config.maxResults) (h : s.Firm) (es : List Event) : (s.run es).2.Firm := by
  induction es generalizing s with
  | nil => exact h
  | cons e es ih =>
    have hnext : 0 ≤ (s.step e).2.config.maxResults := by rw [step_config]; exact hmax
    exact ih hnext (h.step hmax e)

/-- What stands after a refinement was answered: its plan with the rows of the answer. -/
theorem standing_of_refinement (hq : e.query? s.catalog = some q) {n : Option Int} (hi : q.intent = .refinement n)
    (h : (s.step e).1 = some (.ok response)) (hk : response.kind = .screener) :
    ∃ t, s.context.standing = some t ∧ s.Shows q (t.plan.refinedBy q.plan) t.rows response ∧
      (s.step e).2.context.standing = some ⟨t.plan.refinedBy q.plan, response.rows⟩ := by
  rcases step_remembers s e with ⟨q', plan, base, response', hq', hanswer, -, -, hshows, hctx⟩ | ⟨hquiet, -⟩
  · cases hq.symm.trans hq'
    cases h.symm.trans hanswer
    have hask := hshows.asks
    rcases hask with ⟨hnew, -, -⟩ | ⟨_, t, -, ht, rfl, rfl⟩
    · exact absurd (hi.symm.trans hnew) (by simp)
    · exact ⟨t, ht, hshows, by rw [hctx, Context.standing_record]⟩
  · exact absurd hk (hquiet response h)

/-- **The shown rows are settled by the standing plan.** After any run of a session whose cap is not
negative, running the standing plan on the standing rows gives them back. So a refinement that was
answered shows the same rows when it is asked again; and one that only gives a limit is answered with so
many of the first standing rows, or of the last. -/
theorem standing_fixed {config : Config} {securities : List Security} {s₀ : Session}
    (hnew : new c config securities = .ok s₀) (hmax : 0 ≤ config.maxResults) (events : List Event) :
    let s := (s₀.run events).2
    (∀ t, s.context.standing = some t →
      screen c config.maxResults t.rows t.plan = .ok ⟨t.rows, t.rows.length, false⟩) ∧
    (∀ e q n response, e.query? c = some q → q.intent = .refinement n →
      (s.step e).1 = some (.ok response) → response.kind = .screener →
      ∃ again, ((s.step e).2.step e).1 = some (.ok again) ∧ again.kind = .screener ∧
        again.rows = response.rows) ∧
    ∀ e q n, ∀ k : Nat, ∀ bottom t, e.query? c = some q → q.intent = .refinement n →
      q.plan = { limit := some k, fromBottom := bottom } → (e = .asked q → q.heuristics = []) →
      s.context.standing = some t →
      ∃ response, (s.step e).1 = some (.ok response) ∧ response.kind = .screener ∧
        response.rows = if bottom then t.rows.drop (t.rows.length - k) else t.rows.take k := by
  intro s
  obtain ⟨hcatalog₀, hconfig₀, -, hnone⟩ := new_cases hnew
  have hcatalog : s.catalog = c := (run_catalog events).trans hcatalog₀
  have hconfig : s.config = config := (run_config events).trans hconfig₀
  have hnothing : s₀.Firm := fun t ht => absurd (hnone.symm.trans ht) (by simp)
  have hfirm : s.Firm := hnothing.run (hconfig₀ ▸ hmax) events
  clear_value s
  subst hcatalog hconfig
  refine ⟨fun t ht => (hfirm t ht).fixed.again, ?_, ?_⟩
  · intro e q n response hq hi h hk
    obtain ⟨t, ht, hshows, hstanding⟩ := standing_of_refinement hq hi h hk
    have hshown := hshows.firm hmax
    obtain ⟨clauses, account, haccount⟩ := hshows.told
    have hnotes := (Account.of_ok_iff.1 ⟨account, haccount⟩).2.2
    rw [← step_catalog e, ← step_config e] at hshown hnotes
    obtain ⟨again, hagain, hkind, hrows⟩ :=
      answerPlan_repeats hshown (Plan.repeats_refinedBy hshown.fixed.check) hnotes
    refine ⟨again, step_refinement ((step_catalog e).symm ▸ hq) hi hstanding hagain, hkind, ?_⟩
    rw [hrows]
    exact hshown.fixed.limitRows_added
  · intro e q n k bottom t hq hi hplan hheuristics ht
    have hnil : q.heuristics = [] := by
      cases e with
      | query text => exact Query.heuristics_eq_nil (Except.toOption_eq_some.1 hq) (.inr ⟨n, hi⟩) (by rw [hplan])
      | asked q' => exact hheuristics (congrArg Event.asked (Option.some.inj hq))
      | clear | provide _ => exact absurd hq nofun
    have hrepeats : t.plan.Repeats q.plan := by
      rw [hplan]
      exact ⟨⟨t.plan.predicate, (Predicate.conjoin_all _).symm⟩, .inl rfl, fun m hm => Option.some.inj hm ▸ Int.natCast_nonneg k⟩
    obtain ⟨response, hresponse, hkind, hrows⟩ :=
      answerPlan_repeats (hfirm t ht) hrepeats fun x hx => absurd (hnil ▸ hx) List.not_mem_nil
    refine ⟨response, step_refinement hq hi ht hresponse, hkind, ?_⟩
    rw [hrows, hplan]
    rfl

/-- The first two of the first three of four companies, asked for twice. -/
theorem standing_fixed_top_two :
    let securities := ["A", "B", "C", "D"].map fun symbol => Security.ofCells [(.symbol, some (.text symbol))]
    let s₀ : Session := ⟨Catalog.builtin, {}, securities, { capacity := 20 }⟩
    let s := (s₀.run [.query "top 3"]).2
    let e : Event := .query "+1 top 2"
    new Catalog.builtin {} securities = .ok s₀ ∧ ∃ t, s.context.standing = some t ∧
      t.rows.map Security.symbol = ["A", "B", "C"] ∧
      screen Catalog.builtin 500 t.rows t.plan = .ok ⟨t.rows, t.rows.length, false⟩ ∧
      ∃ response again, (s.step e).1 = some (.ok response) ∧ response.rows = t.rows.take 2 ∧
        ((s.step e).2.step e).1 = some (.ok again) ∧ again.rows = response.rows := by
  intro securities s₀ s e
  have hnew : new Catalog.builtin {} securities = .ok s₀ := rfl
  obtain ⟨t, ht, hsymbols⟩ : ∃ t, s.context.standing = some t ∧ t.rows.map Security.symbol = ["A", "B", "C"] :=
    Option.map_eq_some_iff.1 (show s.context.standing.map (·.rows.map Security.symbol) = some ["A", "B", "C"] by
      decide +kernel)
  obtain ⟨q, hq, hsame⟩ := Option.map_eq_some_iff.1
    (show (e.query? Catalog.builtin).map (fun q => (q.intent, q.plan)) =
      some (.refinement (some 1), { limit := some 2 }) by decide +kernel)
  obtain ⟨hi, hplan⟩ := Prod.mk.inj hsame
  obtain ⟨hfixed, hrepeated, hlimited⟩ := standing_fixed hnew (by decide) [.query "top 3"]
  obtain ⟨response, hresponse, hkind, hrows⟩ := hlimited e q (some 1) 2 false t hq hi hplan nofun ht
  obtain ⟨again, hagain, -, hsameRows⟩ := hrepeated e q (some 1) response hq hi hresponse hkind
  exact ⟨hnew, t, ht, hsymbols, hfixed t ht, response, again, hresponse, hrows, hagain, hsameRows⟩

end Session
end EquityScreen
