/-
What was asked before has no effect on a fresh screen. A new screen is answered from the fields, the
settings and the securities alone (`answerText_fresh`), and a fresh start leaves no trace of the past
(`step_of_clears`); so two sessions that agree on these three are told apart by nothing but what they
were asked (`fresh_screen_independent`).
-/
import EquityScreen.Catalog.Builtin
import EquityScreen.Proofs.Session.Step

namespace EquityScreen
namespace Session

/-- The sessions differ in what they remember at most; they have room for as much. -/
structure Alike (s t : Session) : Prop where
  catalog : s.catalog = t.catalog
  config : s.config = t.config
  securities : s.securities = t.securities
  capacity : s.context.capacity = t.context.capacity

variable {s t : Session} {q : Query} {text : String} {e e' : Event} {response : Response}

theorem Alike.eq_withContext (h : s.Alike t) : t = { s with context := t.context } := by
  obtain ⟨hcatalog, hconfig, hsecurities, -⟩ := h
  cases s
  cases t
  cases hcatalog
  cases hconfig
  cases hsecurities
  rfl

/-- A new screen runs on the universe, whatever stands; what its answer shows then stands. -/
theorem answerQuery_newScreen (hi : q.intent = .newScreen) :
    (s.answerQuery q).1 = s.answerPlan q ⟨q.plan, none⟩ ∧
      ∀ response, s.answerPlan q ⟨q.plan, none⟩ = .ok response →
        (s.answerQuery q).2.standing = some ⟨q.plan, response.rows⟩ := by
  simp only [answerQuery, answerScreen, hi, Context.resolve]
  cases s.answerPlan q ⟨q.plan, none⟩ with
  | error e => exact ⟨rfl, fun _ h => absurd h (by simp)⟩
  | ok response => exact ⟨rfl, fun _ h => Except.ok.inj h ▸ rfl⟩

/-- **A text that asks for a new screen** is answered alike, and what an answer shows then stands. -/
theorem answerText_fresh (h : s.Alike t) (hq : Query.parse s.catalog text = .ok q) (hi : q.intent = .newScreen) :
    (s.answerText text).1 = (t.answerText text).1 ∧
      ∀ response, (s.answerText text).1 = .ok response → response.kind = .screener →
        (s.answerText text).2.standing = some ⟨q.plan, response.rows⟩ ∧
          (t.answerText text).2.standing = some ⟨q.plan, response.rows⟩ := by
  have hplan : t.answerPlan q ⟨q.plan, none⟩ = s.answerPlan q ⟨q.plan, none⟩ := by
    rw [h.eq_withContext]
    rfl
  by_cases hblank : Text.trim text = ""
  · have hunread : ∀ u : Session, u.answerText text = (.ok (.notUnderstood text), u.context) := fun u => by
      simp [answerText, hblank]
    rw [hunread, hunread]
    refine ⟨rfl, fun response hresponse hk => ?_⟩
    rw [← Except.ok.inj hresponse] at hk
    exact absurd hk (by simp [Response.notUnderstood])
  · have hread : ∀ u : Session, u.catalog = s.catalog → u.answerText text = u.answerQuery q := fun u hu => by
      simp [answerText, hblank, hu, hq]
    rw [hread s rfl, hread t h.catalog.symm]
    obtain ⟨hs, hs'⟩ := answerQuery_newScreen (s := s) hi
    obtain ⟨ht, ht'⟩ := answerQuery_newScreen (s := t) hi
    rw [hs, ht, hplan]
    rw [hplan] at ht'
    exact ⟨rfl, fun response hresponse _ => ⟨hs' response hresponse, ht' response hresponse⟩⟩

/-- **A fresh start** leaves the session as if nothing had been asked. -/
theorem step_of_clears (h : e.clears s.catalog = true) : (s.step e).2 = { s with context := s.context.cleared } := by
  have hctx : (s.step e).2.context = s.context.cleared := by
    rcases step_remembers s e with ⟨_, _, _, _, -, -, -, hfresh, -⟩ | ⟨-, hctx⟩
    · rw [h] at hfresh
      exact absurd hfresh nofun
    · rwa [if_pos h] at hctx
  have hstep : (s.step e).2 = { s with context := (s.step e).2.context } := by
    cases e with
    | provide _ => exact absurd h Bool.false_ne_true
    | _ => rfl
  rw [hstep, hctx]

/-- Sessions that differ in what they remember are one session after a fresh start. -/
theorem Alike.step_eq_of_clears (h : s.Alike t) (he : e.clears s.catalog = true)
    (he' : e'.clears s.catalog = true) : (s.step e).2 = (t.step e').2 := by
  rw [step_of_clears he, step_of_clears (h.catalog ▸ he'), h.eq_withContext]
  simp only [Context.cleared, h.capacity]

/-- Sessions with the same fields and settings, however they began and whatever happened in them, are
alike once they have the same securities. -/
theorem alike_run {c : Catalog} {config : Config} {securities₁ securities₂ : List Security} {s₀ t₀ : Session}
    (hs : new c config securities₁ = .ok s₀) (ht : new c config securities₂ = .ok t₀) {events₁ events₂ : List Event}
    (h : (s₀.run events₁).2.securities = (t₀.run events₂).2.securities) :
    Alike (s₀.run events₁).2 (t₀.run events₂).2 := by
  refine ⟨?_, ?_, h, ?_⟩
  · rw [run_catalog, run_catalog, new_eq hs, new_eq ht]
  · rw [run_config, run_config, new_eq hs, new_eq ht]
  · rw [run_capacity, run_capacity, new_eq hs, new_eq ht]

/-- **A fresh screen does not depend on the past.** Take two sessions with the same fields and settings,
each after a run of its own, that have the same securities now. A text that asks for a new screen is
answered the same, or fails the same, in both, and an answer leaves the same plan and rows standing; and
after a fresh start in both, everything that follows is answered the same and leaves the same session. -/
theorem fresh_screen_independent {c : Catalog} {config : Config} {securities₁ securities₂ : List Security}
    {s₀ t₀ : Session} (hs : new c config securities₁ = .ok s₀) (ht : new c config securities₂ = .ok t₀)
    (events₁ events₂ : List Event) (h : (s₀.run events₁).2.securities = (t₀.run events₂).2.securities) :
    let s := (s₀.run events₁).2
    let t := (t₀.run events₂).2
    (∀ text q, Query.parse c text = .ok q → q.intent = .newScreen →
      (s.step (.query text)).1 = (t.step (.query text)).1 ∧
        ∀ response, (s.step (.query text)).1 = some (.ok response) → response.kind = .screener →
          (s.step (.query text)).2.context.standing = some ⟨q.plan, response.rows⟩ ∧
            (t.step (.query text)).2.context.standing = some ⟨q.plan, response.rows⟩) ∧
      ∀ e e' : Event, e.clears c = true → e'.clears c = true → ∀ events,
        (s.step e).2.run events = (t.step e').2.run events := by
  intro s t
  have halike : s.Alike t := alike_run hs ht h
  have hcatalog : s.catalog = c := by rw [run_catalog, new_eq hs]
  rw [← hcatalog]
  refine ⟨fun text q hq hi => ?_, fun e e' he he' events => by rw [halike.step_eq_of_clears he he']⟩
  obtain ⟨heq, hstanding⟩ := answerText_fresh halike hq hi
  exact ⟨congrArg some heq, fun response hresponse hk => hstanding response (Option.some.inj hresponse) hk⟩

/-- A session that showed five rows and one that was asked for help and given its securities later. -/
theorem fresh_screen_independent_top_two :
    let securities := [Security.ofCells [(.symbol, some (.text "A")), (.pe, some (.number (.int 12)))]]
    let s₀ : Session := ⟨Catalog.builtin, {}, securities, { capacity := 20 }⟩
    let t₀ : Session := ⟨Catalog.builtin, {}, [], { capacity := 20 }⟩
    let events₁ : List Event := [.query "top 5"]
    let events₂ : List Event := [.query "help", .provide securities]
    let s := (s₀.run events₁).2
    let t := (t₀.run events₂).2
    new Catalog.builtin {} securities = .ok s₀ ∧ new Catalog.builtin {} [] = .ok t₀ ∧
      s.securities = t.securities ∧ s.context.standing.isSome = true ∧ t.context.standing.isSome = false ∧
      (∀ text q, Query.parse Catalog.builtin text = .ok q → q.intent = .newScreen →
        (s.step (.query text)).1 = (t.step (.query text)).1 ∧
          ∀ response, (s.step (.query text)).1 = some (.ok response) → response.kind = .screener →
            (s.step (.query text)).2.context.standing = some ⟨q.plan, response.rows⟩ ∧
              (t.step (.query text)).2.context.standing = some ⟨q.plan, response.rows⟩) ∧
        ∀ e e' : Event, e.clears Catalog.builtin = true → e'.clears Catalog.builtin = true → ∀ events,
          (s.step e).2.run events = (t.step e').2.run events := by
  intro securities s₀ t₀ events₁ events₂
  have hs : new Catalog.builtin {} securities = .ok s₀ := rfl
  have ht : new Catalog.builtin {} [] = .ok t₀ := rfl
  have hsecurities : (s₀.run events₁).2.securities = (t₀.run events₂).2.securities := rfl
  exact ⟨hs, ht, hsecurities, by decide +kernel, by decide +kernel,
    fresh_screen_independent hs ht events₁ events₂ hsecurities⟩

end Session
end EquityScreen
