/-
Running a plan again. The rows of a plan are ones that the plan leaves as they are (`fixes_of_screen`):
each is a match, they are in order, and there are not more of them than limit and cap allow. So running
the plan on them gives them back, and a refinement that asks for nothing new but a limit gives what the
limit leaves of them (`Plan.Fixes.refinedBy`).
-/
import EquityScreen.Proofs.Screening.Refinement

namespace EquityScreen

variable {c : Catalog} {maxResults : Int} {securities rows : List Security} {p r : Plan}

/-- The plan can be run on the rows and leaves them as they are. -/
structure Plan.Fixes (c : Catalog) (maxResults : Int) (p : Plan) (rows : List Security) : Prop where
  check : p.check c = .ok ()
  holds : ∀ s ∈ rows, p.predicate.holds c s = .ok true
  sortable : p.Sortable c rows
  ordered : p.Orders c rows rows
  limit : ∀ n, p.limit = some n → rows.length ≤ n.toNat
  cap : rows.length ≤ maxResults

theorem limitRows_eq_self {limit : Option Int} (h : ∀ n, limit = some n → rows.length ≤ n.toNat) (fromBottom : Bool) :
    limitRows limit fromBottom rows = rows := by
  unfold limitRows
  split
  · rfl
  · next n =>
    have hn := h n rfl
    split
    · rw [Nat.sub_eq_zero_of_le hn, List.drop_zero]
    · exact List.take_of_length_le hn

theorem length_limitRows_le (limit : Option Int) (fromBottom : Bool) (rows : List Security) :
    (limitRows limit fromBottom rows).length ≤ rows.length ∧
      ∀ n, limit = some n → (limitRows limit fromBottom rows).length ≤ n.toNat := by
  unfold limitRows
  split
  · exact ⟨Nat.le_refl _, nofun⟩
  · next n =>
    refine ⟨?_, fun m hm => Option.some.inj hm ▸ ?_⟩ <;> split <;> simp only [List.length_drop, List.length_take] <;> omega

/-- **The rows of a plan** are left as they are by the plan. -/
theorem fixes_of_screen (hmax : 0 ≤ maxResults) {found : Screened}
    (h : screen c maxResults securities p = .ok found) : p.Fixes c maxResults found.rows := by
  obtain ⟨hcheck, -, hsortable, sorted, horders, rfl⟩ := screen_ok_iff.1 h
  have hsub := shown_sublist p maxResults sorted
  have hfound : (p.shown maxResults sorted).rows ⊆ p.predicate.found c securities :=
    List.Subset.trans hsub.subset horders.perm.subset
  have hlength := shown_rows hmax p sorted
  refine ⟨hcheck, fun s hs => Predicate.selects_iff.1 (List.mem_filter.1 (hfound hs)).2,
    hsortable.of_subset hfound, horders.part hsub, fun n hn => ?_, ?_⟩
  · have hlimit := (length_limitRows_le p.limit p.fromBottom sorted).2 n hn
    rw [hlength, List.length_take]
    omega
  · rw [hlength, List.length_take]
    omega

/-- There are as many matches as rows at least. -/
theorem length_rows_le_total {found : Screened} (h : screen c maxResults securities p = .ok found) :
    found.rows.length ≤ found.total := by
  obtain ⟨-, -, -, sorted, -, rfl⟩ := screen_ok_iff.1 h
  exact (shown_sublist p maxResults sorted).length_le

/-- The refinement asks for nothing that the plan does not ask for, but for a limit. -/
structure Plan.Repeats (p r : Plan) : Prop where
  predicate : ∃ rest : Predicate, p.predicate = rest.conjoin r.predicate
  sort : r.sort = none ∨ r.sort = p.sort
  limit : ∀ n, r.limit = some n → 0 ≤ n

/-- A plan repeats what was added to it last. -/
theorem Plan.repeats_refinedBy (h : (p.refinedBy r).check c = .ok ()) : (p.refinedBy r).Repeats r := by
  refine ⟨⟨p.predicate, rfl⟩, ?_, fun n hn => (check_ok_iff.1 h).2.2 n (by simp [refinedBy, hn])⟩
  cases hsort : r.sort with
  | none => exact .inl rfl
  | some o => exact .inr (by simp [refinedBy, hsort])

namespace Plan

theorem Repeats.sort_refinedBy (h : p.Repeats r) : (p.refinedBy r).sort = p.sort := by
  rcases h.sort with h | h
  · simp [refinedBy, h]
  · cases hp : p.sort <;> simp [refinedBy, h, hp]

namespace Fixes

variable (h : p.Fixes c maxResults rows)
include h

/-- What every row satisfies with a filter, it satisfies without the rest of it. -/
theorem holds_part {rest q : Predicate} (hp : p.predicate = rest.conjoin q) : ∀ s ∈ rows, q.holds c s = .ok true := by
  intro s hs
  have hholds := h.holds s hs
  rw [hp, Predicate.holds_conjoin, Predicate.holds_and] at hholds
  split at hholds
  · exact hholds
  · next hrest => exact absurd hholds hrest

theorem limitRows_refinedBy (r : Plan) :
    limitRows (p.refinedBy r).limit (p.refinedBy r).fromBottom rows = limitRows r.limit r.fromBottom rows := by
  cases hr : r.limit with
  | none =>
    have hlimit : (p.refinedBy r).limit = p.limit := by simp [refinedBy, hr]
    rw [hlimit, limitRows_eq_self h.limit]
    rfl
  | some n => simp [refinedBy, hr]

/-- **Repeating a plan** with another limit gives what the limit leaves of the rows. -/
theorem refinedBy (hr : p.Repeats r) :
    screen c maxResults rows (p.refinedBy r) =
      .ok ⟨limitRows r.limit r.fromBottom rows, rows.length, false⟩ := by
  obtain ⟨hallowed, hsort, hlimit⟩ := check_ok_iff.1 h.check
  obtain ⟨rest, hrest⟩ := hr.predicate
  have hcheck : (p.refinedBy r).check c = .ok () := by
    refine check_ok_iff.2 ⟨hallowed.conjoin ?_, hr.sort_refinedBy ▸ hsort, fun n hn => ?_⟩
    · rw [hrest] at hallowed
      exact (Predicate.every_conjoin.1 hallowed).2
    · rcases Option.or_eq_some_iff.1 (show r.limit.or p.limit = some n by simpa [Plan.refinedBy] using hn) with hn | ⟨-, hn⟩
      · exact hr.limit n hn
      · exact hlimit n hn
  have hholds : ∀ s ∈ rows, (p.refinedBy r).predicate.holds c s = .ok true := by
    intro s hs
    rw [Plan.refinedBy, Predicate.holds_conjoin, Predicate.holds_and, h.holds s hs]
    exact h.holds_part hrest s hs
  have hfound : (p.refinedBy r).predicate.found c rows = rows :=
    List.filter_eq_self.2 fun s hs => Predicate.selects_iff.2 (hholds s hs)
  have hcap : ¬ maxResults < (limitRows r.limit r.fromBottom rows).length := by
    have hlength := (length_limitRows_le r.limit r.fromBottom rows).1
    have hrows := h.cap
    omega
  refine screen_ok_iff.2 ⟨hcheck, fun s hs => ⟨true, hholds s hs⟩, ?_, rows, ?_, ?_⟩
  · rw [hfound]
    unfold Plan.Sortable
    rw [hr.sort_refinedBy]
    exact h.sortable
  · rw [hfound]
    exact h.ordered.congr hr.sort_refinedBy.symm
  · simp only [Plan.shown, h.limitRows_refinedBy, if_neg hcap, decide_eq_false hcap]

/-- **A plan gives back its own rows.** -/
theorem again : screen c maxResults rows p = .ok ⟨rows, rows.length, false⟩ := by
  have hsame : p.refinedBy {} = p := by simp [Plan.refinedBy]
  have hagain := h.refinedBy (r := {}) ⟨⟨p.predicate, (Predicate.conjoin_all _).symm⟩, .inl rfl, by simp⟩
  rwa [hsame] at hagain

end Fixes

/-- A limit that was added to a plan allows the rows of the plan. -/
theorem Fixes.limitRows_added (h : (p.refinedBy r).Fixes c maxResults rows) :
    limitRows r.limit r.fromBottom rows = rows :=
  limitRows_eq_self (fun n hn => h.limit n (by simp [Plan.refinedBy, hn])) r.fromBottom

end Plan
end EquityScreen
