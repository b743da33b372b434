/-
What an event does to the memory of a session (`step_remembers`): an answer that shows a screen is
recorded with the plan that it shows, a fresh start clears the memory, and after everything else, a
failure included, the memory is what it was.
-/
import EquityScreen.Proofs.Screening.Total
import EquityScreen.Session

namespace EquityScreen

/-- The query that an event puts to a session. -/
def Event.query? (c : Catalog) : Event → Option Query
  | .query text => (Query.parse c text).toOption
  | .asked q => some q
  | .clear | .provide _ => none

/-- The event is a fresh start, by a call for it or by a text. -/
def Event.clears (c : Catalog) : Event → Bool
  | .query text => Text.trim text != "" && ((Query.parse c text).toOption.map (·.intent)) == some .clear
  | .asked q => q.intent == .clear
  | .clear => true
  | .provide _ => false

namespace Session

variable {s : Session} {response : Response} {q : Query} {q? : Option Query} {fresh : Bool}
  {answer : Option (Except Failure Response)} {ctx : Context}

/-- The response shows the screen that a query asks for, with an account of it: its own plan run on the
universe, or the standing plan with it added run on the standing rows. -/
structure Shows (s : Session) (q : Query) (plan : Plan) (base : List Security) (response : Response) : Prop where
  asks : (q.intent = .newScreen ∧ plan = q.plan ∧ base = s.securities) ∨
    ∃ n t, q.intent = .refinement n ∧ s.context.standing = some t ∧ plan = t.plan.refinedBy q.plan ∧ base = t.rows
  screened : ∃ found, screen s.catalog s.config.maxResults base plan = .ok found ∧ response.rows = found.rows ∧
    response.total = found.total
  told : ∃ clauses account, Account.of s.catalog s.config plan q.intent response.total q.skipped q.heuristics
    clauses = .ok account

/-- The memory after an answer: the screen that the answer shows is recorded; without one the memory
is as it was, or cleared by a fresh start. -/
def Remembers (s : Session) (q? : Option Query) (fresh : Bool) (answer : Option (Except Failure Response))
    (ctx : Context) : Prop :=
  (∃ q plan base response, q? = some q ∧ answer = some (.ok response) ∧ response.kind = .screener ∧
    fresh = false ∧ s.Shows q plan base response ∧ ctx = s.context.record plan response.rows) ∨
  ((∀ response, answer = some (.ok response) → response.kind ≠ .screener) ∧
    ctx = if fresh then s.context.cleared else s.context)

/-- A response that shows no screen. -/
theorem Remembers.quiet (hk : response.kind ≠ .screener)
    (hctx : ctx = if fresh then s.context.cleared else s.context) :
    s.Remembers q? fresh (some (.ok response)) ctx :=
  .inr ⟨fun _ h => Except.ok.inj (Option.some.inj h) ▸ hk, hctx⟩

/-- An answer that failed. -/
theorem Remembers.failed {e : Failure} (hctx : ctx = if fresh then s.context.cleared else s.context) :
    s.Remembers q? fresh (some (.error e)) ctx :=
  .inr ⟨nofun, hctx⟩

/-- An event without an answer. -/
theorem Remembers.unanswered (hctx : ctx = if fresh then s.context.cleared else s.context) :
    s.Remembers q? fresh none ctx :=
  .inr ⟨nofun, hctx⟩

/-- A plan is answered where it can be run and an account of it can be given. -/
theorem answerPlan_ok_iff {r : Resolved} :
    s.answerPlan q r = .ok response ↔ ∃ found clauses account,
      screen s.catalog s.config.maxResults (r.base.getD s.securities) r.plan = .ok found ∧
      s.tightest (r.base.getD s.securities) r.plan found.total = .ok clauses ∧
      Account.of s.catalog s.config r.plan q.intent found.total q.skipped q.heuristics clauses = .ok account ∧
      response = { rows := found.rows, columns := r.plan.columns s.config.maxColumns,
                   interpretation := account.interpretation, suggestions := account.suggestions,
                   total := found.total } := by
  simp only [answerPlan, Except.bind_ok_iff, Except.mapError_ok_iff, Except.pure_ok_iff]
  constructor
  · rintro ⟨found, hfound, clauses, hclauses, account, haccount, rfl⟩
    exact ⟨found, clauses, account, hfound, hclauses, haccount, rfl⟩
  · rintro ⟨found, clauses, account, hfound, hclauses, haccount, rfl⟩
    exact ⟨found, hfound, clauses, hclauses, account, haccount, rfl⟩

/-- The tightest clauses can be worked out if they can be looked at on the base of a plan that nothing
matches. -/
theorem tightest_ok {base : List Security} {plan : Plan} {total : Nat}
    (h : total = 0 → ∀ p ∈ plan.predicate.conjuncts, ∀ x ∈ base, ∃ b, p.holds s.catalog x = .ok b) :
    ∃ clauses, s.tightest base plan total = .ok clauses ∧ ∀ x ∈ clauses, x.clause ∈ plan.predicate.conjuncts := by
  unfold tightest
  split
  · next hnone => exact selectivity_ok (h hnone)
  · exact ⟨[], rfl, nofun⟩

theorem resolve_ok {ctx : Context} {plan : Plan} {r : Resolved} (h : ctx.resolve q.intent plan = .ok r) :
    (q.intent = .newScreen ∧ r = ⟨plan, none⟩) ∨ q.intent = .help ∨ q.intent = .clear ∨
      ∃ n t, q.intent = .refinement n ∧ ctx.standing = some t ∧ r = ⟨t.plan.refinedBy plan, some t.rows⟩ := by
  unfold Context.resolve at h
  split at h
  · next hi => exact .inl ⟨hi, (Except.ok.inj h).symm⟩
  · next hi => exact .inr (.inl hi)
  · next hi => exact .inr (.inr (.inl hi))
  · next n hi =>
    split at h
    · exact absurd h (by simp)
    · next t ht => exact .inr (.inr (.inr ⟨n, t, hi, ht, (Except.ok.inj h).symm⟩))

theorem answerScreen_remembers (hi : q.intent ≠ .help ∧ q.intent ≠ .clear) :
    s.Remembers (some q) false (some (s.answerScreen q).1) (s.answerScreen q).2 := by
  unfold answerScreen
  split
  · exact .quiet nofun rfl
  · next r hr =>
    split
    · exact .failed rfl
    · next response hresponse =>
      obtain ⟨found, clauses, account, hfound, -, haccount, rfl⟩ := answerPlan_ok_iff.1 hresponse
      refine .inl ⟨q, r.plan, r.base.getD s.securities, _, rfl, rfl, rfl, rfl,
        ⟨?_, ⟨found, hfound, rfl, rfl⟩, clauses, account, haccount⟩, rfl⟩
      rcases resolve_ok hr with ⟨hnew, rfl⟩ | hhelp | hclear | ⟨n, t, hn, ht, rfl⟩
      · exact .inl ⟨hnew, rfl, rfl⟩
      · exact absurd hhelp hi.1
      · exact absurd hclear hi.2
      · exact .inr ⟨n, t, hn, ht, rfl, rfl⟩

theorem answerQuery_remembers (s : Session) (q : Query) :
    s.Remembers (some q) (q.intent == .clear) (some (s.answerQuery q).1) (s.answerQuery q).2 := by
  cases hi : q.intent with
  | help =>
    simp only [answerQuery, hi]
    exact .quiet nofun rfl
  | clear =>
    simp only [answerQuery, hi]
    exact .quiet nofun rfl
  | newScreen | refinement n =>
    have hscreen : s.answerQuery q = s.answerScreen q := by simp only [answerQuery, hi]
    rw [hscreen]
    exact answerScreen_remembers (by simp [hi])

/-- **What an event does to the memory.** -/
theorem step_remembers (s : Session) (e : Event) :
    s.Remembers (e.query? s.catalog) (e.clears s.catalog) (s.step e).1 (s.step e).2.context := by
  cases e with
  | query text =>
    simp only [step, remember, answerText, Event.query?, Event.clears]
    by_cases hblank : Text.trim text = ""
    · simp only [hblank, beq_self_eq_true, if_true, bne_self_eq_false, Bool.false_and]
      exact .quiet (by simp [Response.notUnderstood]) rfl
    · simp only [beq_eq_false_iff_ne.2 hblank, Bool.false_eq_true, if_false, bne, Bool.not_false, Bool.true_and]
      cases hparse : Query.parse s.catalog text with
      | error e =>
        cases e with
        | lex e => exact .failed rfl
        | empty t => exact .quiet (by simp [Response.notUnderstood]) rfl
      | ok q => exact answerQuery_remembers s q
  | asked q => exact answerQuery_remembers s q
  | clear => exact .unanswered rfl
  | provide securities => exact .unanswered rfl

/-! ## What no event changes -/

@[simp] theorem step_catalog (e : Event) : (s.step e).2.catalog = s.catalog := by cases e <;> rfl

@[simp] theorem step_config (e : Event) : (s.step e).2.config = s.config := by cases e <;> rfl

theorem step_capacity (e : Event) : (s.step e).2.context.capacity = s.context.capacity := by
  rcases step_remembers s e with ⟨_, _, _, _, -, -, -, -, -, hctx⟩ | ⟨-, hctx⟩
  · rw [hctx]; rfl
  · rw [hctx]; split <;> rfl

@[simp] theorem run_catalog (es : List Event) : (s.run es).2.catalog = s.catalog := by
  induction es generalizing s with
  | nil => rfl
  | cons e es ih => exact (ih (s := (s.step e).2)).trans (step_catalog e)

@[simp] theorem run_config (es : List Event) : (s.run es).2.config = s.config := by
  induction es generalizing s with
  | nil => rfl
  | cons e es ih => exact (ih (s := (s.step e).2)).trans (step_config e)

theorem run_capacity (es : List Event) : (s.run es).2.context.capacity = s.context.capacity := by
  induction es generalizing s with
  | nil => rfl
  | cons e es ih => exact (ih (s := (s.step e).2)).trans (step_capacity e)

/-- A session that nothing happened in. -/
theorem new_eq {c : Catalog} {config : Config} {securities : List Security} (h : new c config securities = .ok s) :
    s = ⟨c, config, securities, { capacity := config.historySize.toNat }⟩ := by
  unfold new Context.new at h
  split at h
  · exact absurd h (by simp [Except.map])
  · split at h
    · exact absurd h (by simp [Except.map])
    · exact (Except.ok.inj h).symm

theorem new_cases {c : Catalog} {config : Config} {securities : List Security}
    (h : new c config securities = .ok s) :
    s.catalog = c ∧ s.config = config ∧ s.securities = securities ∧ s.context.standing = none := by
  rw [new_eq h]
  exact ⟨rfl, rfl, rfl, rfl⟩

end Session
end EquityScreen
