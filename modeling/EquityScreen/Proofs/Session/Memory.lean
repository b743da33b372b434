/-
The memory of a session is what its answers add up to. The screens answered since the latest fresh
start (`answered`) settle it: the standing plan is the latest new screen among them with the later
refinements added in turn (`mergedPlan`), the standing rows are those of the latest answer, and the
history holds the plan after each of them, as many as it has room for (`context_after_run`).
-/
import EquityScreen.Catalog.Builtin
import EquityScreen.Proofs.Session.Step
import Mathlib.Data.List.Infix

namespace EquityScreen
namespace Session

/-- A query with the rows of the screen that answered it. -/
structure Answered where
  query : Query
  rows : List Security

namespace Answered

/-- The query was put to the standing rows. -/
def refines (a : Answered) : Bool := a.query.intent != .newScreen

/-- The screens answered since the latest fresh start, latest first, after an event with its answer. -/
def after (c : Catalog) (past : List Answered) (e : Event) (answer : Option (Except Failure Response)) :
    List Answered :=
  if e.clears c then []
  else match answer, e.query? c with
    | some (.ok response), some q =>
      if response.kind = .screener then ⟨q, response.rows⟩ :: past else past
    | _, _ => past

/-- The plan that screens answered one after the other, latest first, amount to: that of the latest new
screen, with the plans of the refinements after it added in turn. -/
def mergedPlan (past : List Answered) : Option Plan :=
  (past.dropWhile refines).head?.map fun first =>
    ((past.takeWhile refines).reverse.map (·.query.plan)).foldl Plan.refinedBy first.query.plan

variable {past : List Answered} {a : Answered}

theorem mergedPlan_new (h : a.query.intent = .newScreen) : mergedPlan (a :: past) = some a.query.plan := by
  have hrefines : a.refines = false := by simp [refines, h]
  simp [mergedPlan, hrefines]

theorem mergedPlan_refinement {n : Option Int} (h : a.query.intent = .refinement n) :
    mergedPlan (a :: past) = (mergedPlan past).map (·.refinedBy a.query.plan) := by
  have hrefines : a.refines = true := by simp [refines, h]
  simp only [mergedPlan, List.dropWhile_cons, List.takeWhile_cons, hrefines, if_true, Option.map_map,
    List.reverse_cons, List.map_append, List.map_cons, List.map_nil, List.foldl_append, List.foldl_cons,
    List.foldl_nil]
  rfl

/-- The plans recorded, latest first: what the screens up to each of them amount to. -/
def recorded (past : List Answered) : List Plan := past.tails.filterMap mergedPlan

@[simp] theorem recorded_nil : recorded [] = [] := rfl

theorem recorded_cons {plan : Plan} (h : mergedPlan (a :: past) = some plan) :
    recorded (a :: past) = plan :: recorded past := by
  rw [recorded, List.tails_cons, List.filterMap_cons_some h]
  rfl

end Answered

/-- The screens answered since the latest fresh start of events with their answers, latest first. -/
def answered (c : Catalog) (events : List (Event × Option (Except Failure Response))) : List Answered :=
  events.foldl (fun past x => Answered.after c past x.1 x.2) []

open Answered (mergedPlan recorded)

/-- The memory is what the screens answered since the latest fresh start amount to. -/
structure Recalls (s : Session) (past : List Answered) : Prop where
  plan : s.context.standing.map (·.plan) = mergedPlan past
  rows : s.context.standing.map (·.rows) = past.head?.map (·.rows)
  history : s.context.history = (recorded past).take s.context.capacity

variable {s : Session} {past : List Answered} {e : Event}

/-- Remembering the latest of plans that were remembered as far as there was room for them. -/
theorem take_cons_take {α : Type} (n : Nat) (a : α) (l : List α) :
    (a :: l.take n).take n = (a :: l).take n := by
  cases n with
  | zero => rfl
  | succ n => simp [List.take_take]

/-- **An event** keeps the memory in step with the answers. -/
theorem Recalls.step (h : s.Recalls past) (e : Event) :
    (s.step e).2.Recalls (Answered.after s.catalog past e (s.step e).1) := by
  rcases step_remembers s e with ⟨q, plan, base, response, hq, hanswer, hk, hfresh, hshows, hctx⟩ | ⟨hquiet, hctx⟩
  · have hafter : Answered.after s.catalog past e (s.step e).1 = ⟨q, response.rows⟩ :: past := by
      simp only [Answered.after, hfresh, hanswer, hq, hk, Bool.false_eq_true, if_true, if_false]
    have hplan : mergedPlan (⟨q, response.rows⟩ :: past) = some plan := by
      rcases hshows.asks with ⟨hnew, rfl, -⟩ | ⟨n, t, hn, ht, rfl, -⟩
      · exact Answered.mergedPlan_new hnew
      · rw [Answered.mergedPlan_refinement hn, ← h.plan, ht]
        rfl
    rw [hafter]
    refine ⟨by rw [hctx, hplan]; rfl, by rw [hctx]; rfl, ?_⟩
    rw [hctx, Context.history_record, Context.capacity_record, Answered.recorded_cons hplan, h.history,
      take_cons_take]
  · cases hclears : e.clears s.catalog with
    | true =>
      have hafter : Answered.after s.catalog past e (s.step e).1 = [] := by
        simp only [Answered.after, hclears, if_true]
      rw [hclears, if_pos rfl] at hctx
      rw [hafter]
      exact ⟨by rw [hctx]; rfl, by rw [hctx]; rfl, by rw [hctx, Context.history_cleared, Answered.recorded_nil, List.take_nil]⟩
    | false =>
      have hafter : Answered.after s.catalog past e (s.step e).1 = past := by
        simp only [Answered.after, hclears, Bool.false_eq_true, if_false]
        split
        · next heq _ => exact if_neg (hquiet _ heq)
        · rfl
      rw [hclears, if_neg Bool.false_ne_true] at hctx
      rw [hafter]
      exact ⟨hctx ▸ h.plan, hctx ▸ h.rows, hctx ▸ h.history⟩

/-- Any run of events does. -/
theorem Recalls.run (h : s.Recalls past) (events : List Event) :
    (s.run events).2.Recalls
      ((events.zip (s.run events).1).foldl (fun past x => Answered.after s.catalog past x.1 x.2) past) := by
  induction events generalizing s past with
  | nil => exact h
  | cons e events ih =>
    have hlast := ih (h.step e)
    rw [step_catalog] at hlast
    exact hlast

/-- **The memory of a session**, after any run: the standing plan, the standing rows and the history are
what the screens answered since the latest fresh start amount to; and an event that is not a fresh
start, and not answered with a screen, leaves the memory exactly as it was. -/
theorem context_after_run {c : Catalog} {config : Config} {securities : List Security} {s₀ : Session}
    (hnew : new c config securities = .ok s₀) (events : List Event) :
    let s := (s₀.run events).2
    let past := answered c (events.zip (s₀.run events).1)
    s.context.standing.map (·.plan) = mergedPlan past ∧
      s.context.standing.map (·.rows) = past.head?.map (·.rows) ∧
      s.context.history = (recorded past).take config.historySize.toNat ∧
      ∀ e : Event, e.clears c = false →
        (∀ response, (s.step e).1 = some (.ok response) → response.kind ≠ .screener) →
        (s.step e).2.context = s.context := by
  intro s past
  have hs₀ := new_eq hnew
  have hcatalog : s₀.catalog = c := by rw [hs₀]
  have hnothing : s₀.Recalls [] := by
    rw [hs₀]
    exact ⟨rfl, rfl, List.take_nil.symm⟩
  have hrecalls : s.Recalls past := by
    have hrun := hnothing.run events
    rwa [hcatalog] at hrun
  have hcapacity : s.context.capacity = config.historySize.toNat := by
    rw [run_capacity, hs₀]
  refine ⟨hrecalls.plan, hrecalls.rows, hcapacity ▸ hrecalls.history, fun e hclears hquiet => ?_⟩
  have hcatalog' : s.catalog = c := (run_catalog events).trans hcatalog
  rcases step_remembers s e with ⟨_, _, _, response, -, hanswer, hk, -⟩ | ⟨-, hctx⟩
  · exact absurd hk (hquiet response hanswer)
  · rwa [hcatalog', hclears, if_neg Bool.false_ne_true] at hctx

/-- A screen, a call for help, a refinement, a change of securities: of the two plans the history has
room for one. -/
theorem context_after_run_refined :
    let config : Config := { historySize := 1 }
    let s₀ : Session := ⟨Catalog.builtin, config, [], { capacity := 1 }⟩
    let events : List Event := [.query "top 5", .query "help", .query "+1 top 2", .provide []]
    let s := (s₀.run events).2
    let past := answered Catalog.builtin (events.zip (s₀.run events).1)
    new Catalog.builtin config [] = .ok s₀ ∧ past.length = 2 ∧
      s.context.standing.map (·.plan) = mergedPlan past ∧
      s.context.standing.map (·.rows) = past.head?.map (·.rows) ∧
      s.context.history = (recorded past).take config.historySize.toNat ∧
      ∀ e : Event, e.clears Catalog.builtin = false →
        (∀ response, (s.step e).1 = some (.ok response) → response.kind ≠ .screener) →
        (s.step e).2.context = s.context := by
  intro config s₀ events
  have hnew : new Catalog.builtin config [] = .ok s₀ := rfl
  exact ⟨hnew, by decide +kernel, context_after_run hnew events⟩

end Session
end EquityScreen
