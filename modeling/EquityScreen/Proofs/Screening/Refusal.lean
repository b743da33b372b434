/-
When a plan is refused.

A plan is at fault when one of its comparisons, wherever it stands in the filter, cannot be answered with the
catalog, when its order is by no field of the catalog, or when its limit is negative (`Plan.Faulty`). Checking looks at
every comparison although looking at a security does not, so a plan at fault is refused with one error on every list of
securities, the empty one included, and no other plan is refused (`screen_refused`).
-/
import EquityScreen.Proofs.Screening.Equivalent

namespace EquityScreen

variable {c : Catalog} {cmp : Comparison} {p : Plan}

/-- No security can be asked: the comparison names no field of the catalog, is the one with two bounds, or is none
that its field allows. -/
def Comparison.Faulty (c : Catalog) (cmp : Comparison) : Prop :=
  c.field? cmp.field = none ∨ cmp.op = .between ∨ ∃ f, c.field? cmp.field = some f ∧ cmp.op ∉ f.operators

/-- Something in the plan does not fit the catalog, or the limit is negative. -/
def Plan.Faulty (c : Catalog) (p : Plan) : Prop :=
  (∃ cmp ∈ p.predicate.comparisons, cmp.Faulty c) ∨ (∃ o, p.sort = some o ∧ c.field? o.field = none) ∨
    ∃ n, p.limit = some n ∧ n < 0

theorem Comparison.allowed_iff : cmp.Allowed c ↔ ¬ cmp.Faulty c := by
  unfold Allowed Faulty
  cases c.field? cmp.field <;> simp

/-- **Checking finds every fault**, and nothing else. -/
theorem Plan.check_ok_iff_not_faulty : p.check c = .ok () ↔ ¬ p.Faulty c := by
  have hcomparisons : p.predicate.Every (·.Allowed c) ↔ ¬ ∃ cmp ∈ p.predicate.comparisons, cmp.Faulty c := by
    simp only [Predicate.Every, Comparison.allowed_iff, not_exists, not_and]
  have hsort : (∀ o, p.sort = some o → (c.field? o.field).isSome = true) ↔
      ¬ ∃ o, p.sort = some o ∧ c.field? o.field = none := by
    simp only [not_exists, not_and, Option.isSome_iff_ne_none, ne_eq]
  have hlimit : (∀ n, p.limit = some n → 0 ≤ n) ↔ ¬ ∃ n, p.limit = some n ∧ n < 0 := by
    simp only [not_exists, not_and, Int.not_lt]
  rw [check_ok_iff, hcomparisons, hsort, hlimit, Faulty, not_or, not_or]

/-- A plan at fault is refused with the error that checking finds, whatever the securities. -/
theorem Plan.Faulty.screen_eq (h : p.Faulty c) :
    ∃ e, e.ofPlan = true ∧ ∀ maxResults securities, screen c maxResults securities p = .error e := by
  cases hcheck : p.check c with
  | ok u => exact absurd h (Plan.check_ok_iff_not_faulty.1 hcheck)
  | error e =>
    refine ⟨e, Plan.ofPlan_of_check hcheck, fun maxResults securities => ?_⟩
    simp only [screen, hcheck, bind, Except.bind]

/-- **Checking is complete.** A run is refused for a fault of the plan exactly if the plan is at fault, whatever the
securities; and then with the same error for all of them. A plan without fault is run on all securities whose cells are
of the kinds of their attributes: each of its comparisons can be asked of each of them, the field of its order is found,
and rows and selectivity can be worked out. -/
theorem screen_refused (c : Catalog) (p : Plan) :
    (∀ maxResults securities, Refused (screen c maxResults securities p) ↔ p.Faulty c) ∧
      (p.Faulty c → ∃ e, ∀ maxResults securities, screen c maxResults securities p = .error e) ∧
      (p.check c = .ok () ↔ ¬ p.Faulty c) ∧
      (p.check c = .ok () → ∀ securities : List Security, (∀ s ∈ securities, s.Typed) →
        (∀ cmp ∈ p.predicate.comparisons, ∀ s ∈ securities, ∃ b, cmp.holds c s = .ok b) ∧
        (∀ o, p.sort = some o → ∃ f, c.require o.field = .ok f) ∧
        (∀ maxResults, ∃ result, screen c maxResults securities p = .ok result) ∧
        ∃ l, selectivity c securities p = .ok l) := by
  refine ⟨fun maxResults securities => ?_, fun h => ?_, Plan.check_ok_iff_not_faulty, fun hcheck securities htyped => ?_⟩
  · rw [refused_screen_iff, not_iff_comm, Plan.check_ok_iff_not_faulty]
  · obtain ⟨e, -, he⟩ := h.screen_eq
    exact ⟨e, he⟩
  · obtain ⟨hallowed, hsort, -⟩ := Plan.check_ok_iff.1 hcheck
    refine ⟨fun cmp hcmp s _ => Comparison.holds_ok (hallowed cmp hcmp) s, fun o ho => ?_, fun maxResults => ?_, ?_⟩
    · obtain ⟨f, hf⟩ := Option.isSome_iff_exists.1 (hsort o ho)
      exact ⟨f, by rw [Catalog.require, hf]⟩
    · obtain ⟨result, hresult, -⟩ := screen_of_check hcheck htyped maxResults
      exact ⟨result, hresult⟩
    · obtain ⟨l, hl, -⟩ := selectivity_ok fun q hq s hs => Predicate.holds_of_allowed (Predicate.every_conjuncts.2 hallowed q hq) (htyped s hs)
      exact ⟨l, hl⟩

/-- A comparison that no security is ever asked, since everything passes the alternative in front of it, is found on no
securities at all; and without it the plan is run on two securities, of which one has no price to earnings. -/
theorem screen_refused_hidden :
    let hidden : Predicate := .or .all (.compare ⟨"pe", .between, .number (.int 15)⟩)
    let plan : Plan :=
      { predicate := .or (.sectorIn (.ofList ["IT"])) (.compare ⟨"pe", .lt, .number (.int 15)⟩)
        sort := some ⟨"mcap", .descending⟩ }
    let securities := [[(Attribute.pe, some (Value.number (.int 9)))], [(.sector, some (.text "Pharma"))]].map Security.ofCells
    (∃ e, ∀ maxResults securities, screen Catalog.builtin maxResults securities { predicate := hidden } = .error e) ∧
      Refused (screen Catalog.builtin 500 [] { predicate := hidden }) ∧ plan.check Catalog.builtin = .ok () ∧
      (∀ s ∈ securities, s.Typed) ∧ (∀ maxResults, ∃ result, screen Catalog.builtin maxResults securities plan = .ok result) ∧
      ∃ l, selectivity Catalog.builtin securities plan = .ok l := by
  intro hidden plan securities
  have hfaulty : ({ predicate := hidden } : Plan).Faulty Catalog.builtin :=
    .inl ⟨_, List.mem_singleton.2 rfl, .inr (.inl rfl)⟩
  have hcheck : plan.check Catalog.builtin = .ok () := Except.toOption_eq_some.1 (by decide +kernel)
  have htyped : ∀ s ∈ securities, s.Typed := by
    intro s hs
    simp only [securities, List.map_cons, List.map_nil, List.mem_cons, List.not_mem_nil, or_false] at hs
    rcases hs with rfl | rfl
    · refine Security.Typed.ofCells fun a v hv => ?_
      obtain ⟨rfl, rfl⟩ : a = .pe ∧ v = .number (.int 9) := by simpa using hv
      rfl
    · refine Security.Typed.ofCells fun a v hv => ?_
      obtain ⟨rfl, rfl⟩ : a = .sector ∧ v = .text "Pharma" := by simpa using hv
      rfl
  obtain ⟨hrefused, hsame, -, -⟩ := screen_refused Catalog.builtin { predicate := hidden }
  obtain ⟨-, -, -, hrun⟩ := screen_refused Catalog.builtin plan
  obtain ⟨-, -, hscreen, hselectivity⟩ := hrun hcheck securities htyped
  exact ⟨hsame hfaulty, (hrefused 500 []).2 hfaulty, hcheck, htyped, hscreen, hselectivity⟩

end EquityScreen
