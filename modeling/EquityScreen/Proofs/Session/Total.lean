/-
When a query of a session has no answer.

What stands in a session was put into words when it was answered, and its rows are securities of a
universe, so only the query itself can bring a failure in (`answerText_error_iff`): a number that the
reading breaks down at, or an amount that the answer cannot put into words. This is kept by every
event (`Sound.step`), so it is so after any run of events (`error_after_run_iff`).
-/
import EquityScreen.Proofs.Screening.Total
import EquityScreen.Proofs.Session.Step
import EquityScreen.Proofs.Token.Contents
import EquityScreen.Proofs.Wording.Sentence

namespace EquityScreen

/-! ## Plans -/

theorem Plan.Sound.refinedBy {c : Catalog} {p r : Plan} (hp : p.Sound c) (hr : r.Sound c) :
    (p.refinedBy r).Sound c := by
  refine ⟨hp.predicate.conjoin hr.predicate, fun o ho => ?_, fun n hn => ?_⟩
  · cases hs : r.sort with
    | none =>
      have ho : p.sort = some o := by simpa [Plan.refinedBy, hs] using ho
      exact hp.sort o ho
    | some o' =>
      have ho : r.sort = some o := by simpa [Plan.refinedBy, hs] using ho
      exact hr.sort o ho
  · cases hl : r.limit with
    | none =>
      have hn : p.limit = some n := by simpa [Plan.refinedBy, hl] using hn
      exact hp.limit n hn
    | some n' =>
      have hn : r.limit = some n := by simpa [Plan.refinedBy, hl] using hn
      exact hr.limit n hn

namespace Session

/-- The query asks for a screen, or for a refinement of a screen that stands. -/
def Screens (s : Session) (q : Query) : Prop :=
  q.intent = .newScreen ∨ (∃ n, q.intent = .refinement n) ∧ s.context.standing.isSome = true

/-- What is relied on in a session: the kinds of cells of all securities in it, and that the standing
plan is sound and was put into words. -/
structure Sound (s : Session) : Prop where
  regular : s.catalog.Regular
  securities : ∀ x ∈ s.securities, x.Typed
  rows : ∀ t, s.context.standing = some t → ∀ x ∈ t.rows, x.Typed
  plan : ∀ t, s.context.standing = some t → t.plan.Sound s.catalog
  worded : ∀ t, s.context.standing = some t →
    t.plan.predicate.Every fun cmp => ¬ cmp.Unwieldy s.catalog s.config.style

/-- Something that a user does: a query, a fresh start, or a change to other securities whose cells
are of the kinds of their attributes. -/
def Ordinary : Event → Prop
  | .query _ | .clear => True
  | .provide securities => ∀ x ∈ securities, x.Typed
  | .asked _ => False

variable {s : Session}

/-- What a query resolves to: its own plan on the universe, or the standing plan with it added on the
standing rows. -/
theorem resolve_cases (h : s.Sound) {q : Query} (hq : s.Screens q) (hplan : q.plan.Sound s.catalog) :
    ∃ r, s.context.resolve q.intent q.plan = .ok r ∧ r.plan.Sound s.catalog ∧
      (∀ x ∈ r.base.getD s.securities, x.Typed) ∧
      ((∃ cmp ∈ r.plan.predicate.comparisons, cmp.Unwieldy s.catalog s.config.style) ↔
        ∃ cmp ∈ q.plan.predicate.comparisons, cmp.Unwieldy s.catalog s.config.style) := by
  rcases hq with hi | ⟨⟨n, hi⟩, hs⟩
  · exact ⟨⟨q.plan, none⟩, by rw [hi]; rfl, hplan, h.securities, Iff.rfl⟩
  · obtain ⟨t, ht⟩ := Option.isSome_iff_exists.1 hs
    refine ⟨⟨t.plan.refinedBy q.plan, some t.rows⟩, by rw [hi]; simp only [Context.resolve, ht],
      (h.plan t ht).refinedBy hplan, h.rows t ht, ?_⟩
    simp only [Plan.refinedBy, Predicate.comparisons_conjoin, List.mem_append, or_and_right, exists_or]
    exact or_iff_right fun ⟨cmp, hcmp, hu⟩ => h.worded t ht cmp hcmp hu

/-! ## Answers -/

/-- Answering a plan fails exactly for an unwieldy amount, and the rows of an answer are those of the
base. -/
theorem answerPlan_cases (h : s.Sound) (q : Query) {r : Resolved} (hr : r.plan.Sound s.catalog)
    (hbase : ∀ x ∈ r.base.getD s.securities, x.Typed)
    (hq : ∀ x ∈ q.heuristics, Clause.Settled s.catalog x.predicate) :
    ((∃ e, s.answerPlan q r = .error e) ↔
      ∃ cmp ∈ r.plan.predicate.comparisons, cmp.Unwieldy s.catalog s.config.style) ∧
    ∀ response, s.answerPlan q r = .ok response → ∀ x ∈ response.rows, x.Typed := by
  obtain ⟨found, hfound, hrows⟩ := screen_of_check hr.check_ok hbase s.config.maxResults
  obtain ⟨clauses, hclauses, hmem⟩ : ∃ clauses, s.tightest (r.base.getD s.securities) r.plan found.total =
      .ok clauses ∧ ∀ x ∈ clauses, x.clause ∈ r.plan.predicate.conjuncts :=
    tightest_ok fun _ p hp x hx =>
      Predicate.holds_ok (Predicate.every_conjuncts.2 hr.predicate p hp) (hbase x hx)
  have hok : (∃ response, s.answerPlan q r = .ok response) ↔ ∃ account, Account.of s.catalog s.config r.plan
      q.intent found.total q.skipped q.heuristics clauses = .ok account := by
    simp only [answerPlan_ok_iff]
    constructor
    · rintro ⟨_, found', clauses', account, hfound', hclauses', haccount, -⟩
      cases hfound.symm.trans hfound'
      cases hclauses.symm.trans hclauses'
      exact ⟨account, haccount⟩
    · rintro ⟨account, haccount⟩
      exact ⟨_, found, clauses, account, hfound, hclauses, haccount, rfl⟩
  refine ⟨?_, fun response hresponse => ?_⟩
  · rw [← Account.of_error_iff h.regular s.config hr q.intent found.total q.skipped hq hmem,
      Except.exists_error_iff, Except.exists_error_iff, hok]
  · obtain ⟨found', _, _, hfound', -, -, rfl⟩ := answerPlan_ok_iff.1 hresponse
    cases hfound.symm.trans hfound'
    exact fun x hx => hbase x (hrows x hx)

/-- The context keeps what is relied on. -/
def Keeps (s : Session) (ctx : Context) : Prop := Sound { s with context := ctx }

theorem Sound.cleared (h : s.Sound) : s.Keeps s.context.cleared :=
  ⟨h.regular, h.securities, nofun, nofun, nofun⟩

/-- A screen, or a refinement of what stands, is answered unless an amount is unwieldy; what stands then was
answered and put into words. -/
theorem answerScreen_cases (h : s.Sound) {q : Query} (hs : s.Screens q) (hplan : q.plan.Sound s.catalog)
    (hq : ∀ x ∈ q.heuristics, Clause.Settled s.catalog x.predicate) :
    ((∃ e, (s.answerScreen q).1 = .error e) ↔
      ∃ cmp ∈ q.plan.predicate.comparisons, cmp.Unwieldy s.catalog s.config.style) ∧
    s.Keeps (s.answerScreen q).2 := by
  obtain ⟨r, hr, hsound, hbase, hiff⟩ := resolve_cases h hs hplan
  obtain ⟨herror, hrows⟩ := answerPlan_cases h q hsound hbase hq
  unfold answerScreen
  simp only [hr, ← hiff, ← herror]
  cases hresponse : s.answerPlan q r with
  | error e => exact ⟨by simp, h⟩
  | ok response =>
    refine ⟨by simp, h.regular, h.securities, ?_, ?_, ?_⟩
    · intro t ht
      rw [← Option.some.inj ht]
      exact hrows response hresponse
    · intro t ht
      rw [← Option.some.inj ht]
      exact hsound
    · intro t ht cmp hcmp hu
      rw [← Option.some.inj ht] at hcmp
      obtain ⟨e, he⟩ := herror.2 ⟨cmp, hcmp, hu⟩
      rw [hresponse] at he
      exact absurd he (by simp)

/-- A refinement of nothing is refused with an answer, and nothing is remembered. -/
theorem answerScreen_of_nothing {q : Query} {n : Option Int} (hi : q.intent = .refinement n)
    (hnone : s.context.standing = none) : ∃ response, s.answerScreen q = (.ok response, s.context) := by
  simp only [answerScreen, hi, Context.resolve, hnone]
  exact ⟨_, rfl⟩

/-- **A query is answered** unless it asks for a screen with an unwieldy amount of its own. -/
theorem answerQuery_cases (h : s.Sound) {q : Query} (hplan : q.plan.Sound s.catalog)
    (hq : ∀ x ∈ q.heuristics, Clause.Settled s.catalog x.predicate) :
    ((∃ e, (s.answerQuery q).1 = .error e) ↔
      s.Screens q ∧ ∃ cmp ∈ q.plan.predicate.comparisons, cmp.Unwieldy s.catalog s.config.style) ∧
    s.Keeps (s.answerQuery q).2 := by
  have hscreens : s.answerQuery q = s.answerScreen q → s.Screens q →
      ((∃ e, (s.answerQuery q).1 = .error e) ↔
        s.Screens q ∧ ∃ cmp ∈ q.plan.predicate.comparisons, cmp.Unwieldy s.catalog s.config.style) ∧
      s.Keeps (s.answerQuery q).2 := by
    intro hanswer hs
    obtain ⟨herror, hkeeps⟩ := answerScreen_cases h hs hplan hq
    rw [hanswer]
    exact ⟨herror.trans (and_iff_right hs).symm, hkeeps⟩
  have hquiet : q.intent = .help ∨ q.intent = .clear → ¬ s.Screens q := by
    rintro (hi | hi) (h' | ⟨⟨n, h'⟩, -⟩) <;> rw [hi] at h' <;> exact absurd h' (by simp)
  cases hi : q.intent with
  | help =>
    refine ⟨?_, by simp only [answerQuery, hi]; exact h⟩
    simp [answerQuery, hi, hquiet (.inl hi)]
  | clear =>
    refine ⟨?_, by simp only [answerQuery, hi]; exact h.cleared⟩
    simp [answerQuery, hi, hquiet (.inr hi)]
  | newScreen => exact hscreens (by simp only [answerQuery, hi]) (.inl hi)
  | refinement n =>
    have hanswer : s.answerQuery q = s.answerScreen q := by simp only [answerQuery, hi]
    cases hstanding : s.context.standing with
    | some t => exact hscreens hanswer (.inr ⟨⟨n, hi⟩, by rw [hstanding]; rfl⟩)
    | none =>
      have hs : ¬ s.Screens q := by
        rintro (h' | ⟨-, h'⟩)
        · exact absurd (hi.symm.trans h') (by simp)
        · rw [hstanding] at h'
          exact absurd h' Bool.false_ne_true
      obtain ⟨response, hresponse⟩ := answerScreen_of_nothing hi hstanding
      rw [hanswer, hresponse]
      exact ⟨by simp [hs], h⟩

/-- A text is answered without losing what is relied on in the session. -/
theorem answerText_keeps (h : s.Sound) (text : String) : s.Keeps (s.answerText text).2 := by
  unfold answerText
  split
  · exact h
  · split
    · exact h
    · exact h
    · next q hq =>
      obtain ⟨hplan, hheuristics⟩ := Query.parse_sound h.regular hq
      exact (answerQuery_cases h hplan hheuristics).2

/-- **Answering a text** fails exactly when reading it breaks down, or when it asks for a screen with
an amount that cannot be written. -/
theorem answerText_error_iff (h : s.Sound) {text : String} {ts : List Token} (ht : tokenize text = .ok ts) :
    (∃ e, (s.answerText text).1 = .error e) ↔ Text.trim text ≠ "" ∧
      ((∃ b, Query.parse s.catalog text = .error (.lex (.breakdown b))) ∨
        ∃ q, Query.parse s.catalog text = .ok q ∧ s.Screens q ∧
          ∃ cmp ∈ q.plan.predicate.comparisons, cmp.Unwieldy s.catalog s.config.style) := by
  unfold answerText
  by_cases hblank : Text.trim text = ""
  · simp [hblank]
  rw [if_neg (by simpa using hblank)]
  cases hparse : Query.parse s.catalog text with
  | error e =>
    cases e with
    | lex e =>
      cases e with
      | spelling e => exact absurd hparse (Query.parse_ne_spelling ht e)
      | breakdown b => simp [hblank]
    | empty t => simp
  | ok q =>
    obtain ⟨hplan, hheuristics⟩ := Query.parse_sound h.regular hparse
    simp [hblank, (answerQuery_cases h hplan hheuristics).1]

/-! ## Runs -/

theorem Sound.step (h : s.Sound) {e : Event} (he : Ordinary e) : (s.step e).2.Sound := by
  cases e with
  | query text => exact answerText_keeps h text
  | asked q => exact absurd he id
  | clear => exact h.cleared
  | provide securities => exact ⟨h.regular, he, h.rows, h.plan, h.worded⟩

theorem Sound.run (h : s.Sound) {es : List Event} (hes : ∀ e ∈ es, Ordinary e) : (s.run es).2.Sound := by
  induction es generalizing s with
  | nil => exact h
  | cons e es ih =>
    rw [List.forall_mem_cons] at hes
    exact ih (h.step hes.1) hes.2

theorem new_sound {c : Catalog} {config : Config} {securities : List Security} (hc : c.Regular)
    (h : new c config securities = .ok s) (hs : ∀ x ∈ securities, x.Typed) : s.Sound := by
  obtain ⟨rfl, rfl, rfl, hnone⟩ := new_cases h
  refine ⟨hc, hs, ?_, ?_, ?_⟩ <;> exact fun t ht => absurd (hnone.symm.trans ht) (by simp)

/-- **When a query fails** after any run of a session with the fields of the program: exactly when it
asks for a screen with an amount too long to be rounded, or when it breaks down while it is read, and
then one of its numbers is beyond the greatest power of ten. -/
theorem error_after_run_iff {config : Config} {securities : List Security} {s₀ : Session}
    (hnew : new Catalog.builtin config securities = .ok s₀) (htyped : ∀ x ∈ securities, x.Typed)
    {events : List Event} (hevents : ∀ e ∈ events, Ordinary e)
    {text : String} {ts : List Token} (ht : tokenize text = .ok ts) :
    ((∃ e, ((s₀.run events).2.answerText text).1 = .error e) ↔ Text.trim text ≠ "" ∧
      ((∃ b, Query.parse Catalog.builtin text = .error (.lex (.breakdown b))) ∨
        ∃ q, Query.parse Catalog.builtin text = .ok q ∧ (s₀.run events).2.Screens q ∧
          ∃ cmp ∈ q.plan.predicate.comparisons, cmp.Unwieldy Catalog.builtin config.style)) ∧
    ∀ b, Query.parse Catalog.builtin text = .error (.lex (.breakdown b)) →
      ∃ t ∈ ts, ∃ d unit currency, t.content = .number d unit currency ∧
        Decimal.greatestPower ≤ d.leading + 12 := by
  obtain ⟨hcatalog, hconfig, -, -⟩ := new_cases hnew
  have hsound := (new_sound regular_builtin hnew htyped).run hevents
  have hiff := answerText_error_iff hsound ht
  rw [run_catalog, run_config, hcatalog, hconfig] at hiff
  refine ⟨hiff, fun b hb => ?_⟩
  obtain ⟨t, hmem, d, unit, currency, hcontent, himmense⟩ := Query.hasImmense_of_breakdown ht hb
  exact ⟨t, hmem, d, unit, currency, hcontent,
    himmense.resolve_right fun ⟨mark, hmark⟩ => tokenize_units ht t hmem d unit currency hcontent mark hmark⟩

/-- An amount of thirty digits, asked for after a screen and a fresh start. -/
theorem error_after_run_long_amount :
    let s₀ : Session := ⟨Catalog.builtin, {}, [], { capacity := 20 }⟩
    let events := [.query "PE < 15", .clear]
    let text := "Mcap > 123456789012345678901234567890"
    new Catalog.builtin {} [] = .ok s₀ ∧ (∀ e ∈ events, Ordinary e) ∧ (∃ ts, tokenize text = .ok ts) ∧
      ((∃ e, ((s₀.run events).2.answerText text).1 = .error e) ↔ Text.trim text ≠ "" ∧
        ((∃ b, Query.parse Catalog.builtin text = .error (.lex (.breakdown b))) ∨
          ∃ q, Query.parse Catalog.builtin text = .ok q ∧ (s₀.run events).2.Screens q ∧
            ∃ cmp ∈ q.plan.predicate.comparisons, cmp.Unwieldy Catalog.builtin .western)) := by
  intro s₀ events text
  have hnew : new Catalog.builtin {} [] = .ok s₀ := rfl
  have hevents : ∀ e ∈ events, Ordinary e := by simp [events, Ordinary]
  obtain ⟨ts, hts⟩ : ∃ ts, tokenize text = .ok ts := Except.isOk_iff.1 (by decide +kernel)
  exact ⟨hnew, hevents, ⟨ts, hts⟩, (error_after_run_iff hnew nofun hevents hts).1⟩

/-- Texts that can be cut into tokens are not all answered: an amount of thirty digits is not. -/
theorem not_forall_answerText_ok :
    ¬ ∀ (securities : List Security) (s₀ : Session), new Catalog.builtin {} securities = .ok s₀ →
      (∀ x ∈ securities, x.Typed) → ∀ events : List Event, (∀ e ∈ events, Ordinary e) →
      ∀ (text : String) (ts : List Token), tokenize text = .ok ts →
        ∃ r, ((s₀.run events).2.answerText text).1 = .ok r := by
  intro h
  let s₀ : Session := ⟨Catalog.builtin, {}, [], { capacity := 20 }⟩
  let text := "Mcap > 123456789012345678901234567890"
  obtain ⟨ts, hts⟩ : ∃ ts, tokenize text = .ok ts := Except.isOk_iff.1 (by decide +kernel)
  obtain ⟨r, hr⟩ : ∃ r, (s₀.answerText text).1 = .ok r := h [] s₀ rfl nofun [] nofun text ts hts
  have hfails : (s₀.answerText text).1.isOk = false := by decide +kernel
  exact absurd (Except.isOk_iff.2 ⟨r, hr⟩) (by rw [hfails]; decide)

end Session
end EquityScreen
