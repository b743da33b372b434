/-
How selective the clauses of a plan are.

A filter holds of a security just where all of its conjuncts do (`Predicate.selects_iff_conjuncts`), so no clause lets
fewer through than the plan finds (`length_found_le`). Counting them gives every clause once with its own count,
tightest first, clauses of one count in the order of the filter (`selectivity_tightestFirst`); so the first of them is a
clause that no other undercuts (`TightestFirst.head`).
-/
import EquityScreen.Proofs.Screening.Failure

namespace EquityScreen

variable {c : Catalog} {securities : List Security} {p : Plan}

/-! ## Conjuncts -/

/-- **The conjuncts of a filter** mean the filter. -/
theorem Predicate.selects_iff_conjuncts {p : Predicate} {s : Security} :
    p.selects c s = true ↔ ∀ q ∈ p.conjuncts, q.selects c s = true := by
  induction p with
  | all => exact iff_of_true rfl nofun
  | and l r ihl ihr =>
    rw [conjuncts, List.forall_mem_append, ← ihl, ← ihr, selects_iff, selects_iff, selects_iff, holds_and]
    rcases l.holds c s with e | _ | _ <;> simp
  | _ => exact (List.forall_mem_singleton (p := (Predicate.selects c · s = true))).symm

/-- A clause lets everything through that the filter finds. -/
theorem length_found_le {p q : Predicate} (hq : q ∈ p.conjuncts) (securities : List Security) :
    (p.found c securities).length ≤ (q.found c securities).length :=
  (List.monotone_filter_right securities fun _ h => Predicate.selects_iff_conjuncts.1 h q hq).length_le

/-! ## The tightest clause first -/

/-- Clauses with the number of securities that satisfy each of them by itself: every clause once, in the order of these
numbers, and clauses of one number in the order that they had. -/
structure TightestFirst (c : Catalog) (securities : List Security) (clauses : List Predicate)
    (counts : List Selectivity) : Prop where
  perm : (counts.map (·.clause)).Perm clauses
  counted : ∀ x ∈ counts, x.passing = (x.clause.found c securities).length ∧ x.size = securities.length
  ordered : counts.Pairwise fun x y => x.passing ≤ y.passing
  stable : ∀ n : Nat, (counts.filter fun x => x.passing = (n : Int)).map (·.clause) =
    clauses.filter fun q => (q.found c securities).length = n

/-- **No clause undercuts the first.** -/
theorem TightestFirst.head {clauses : List Predicate} {x : Selectivity} {counts : List Selectivity}
    (h : TightestFirst c securities clauses (x :: counts)) :
    x.clause ∈ clauses ∧ ∀ q ∈ clauses, (x.clause.found c securities).length ≤ (q.found c securities).length := by
  refine ⟨h.perm.subset List.mem_cons_self, fun q hq => ?_⟩
  obtain ⟨y, hy, rfl⟩ : ∃ y ∈ x :: counts, y.clause = q := List.mem_map.1 (h.perm.mem_iff.2 hq)
  have hle : x.passing ≤ y.passing := by
    rcases List.mem_cons.1 hy with rfl | hy
    · exact Int.le_refl _
    · exact (List.pairwise_cons.1 h.ordered).1 y hy
  rwa [(h.counted x List.mem_cons_self).1, (h.counted y hy).1, Int.ofNat_le] at hle

/-- **Selectivity** is the clauses of a plan with their counts, tightest first. -/
theorem selectivity_tightestFirst {counts : List Selectivity} (h : selectivity c securities p = .ok counts) :
    TightestFirst c securities p.predicate.conjuncts counts := by
  obtain ⟨-, rfl⟩ := selectivity_ok_iff.1 h
  have hmeasured : ∀ x ∈ p.predicate.conjuncts.map (measured c securities),
      x.passing = (x.clause.found c securities).length ∧ x.size = securities.length := by
    rintro _ hx
    obtain ⟨q, -, rfl⟩ := List.mem_map.1 hx
    exact ⟨rfl, rfl⟩
  refine ⟨?_, fun x hx => hmeasured x (List.mem_mergeSort.1 hx), ?_, fun n => ?_⟩
  · refine ((List.mergeSort_perm _ _).map _).trans ?_
    rw [List.map_map]
    exact .of_eq (List.map_id _)
  · exact (List.pairwise_mergeSort (by grind) (by grind) _).imp of_decide_eq_true
  · rw [filter_mergeSort_of_ties (by grind) (by grind) (by grind), List.filter_map, List.map_map]
    refine (List.map_id _).trans (List.filter_congr fun q _ => ?_)
    exact decide_eq_decide.2 Int.ofNat_inj

/-- **Selectivity can be worked out** for a plan that fits the catalog, unless a clause comes to the sector of a
security and this is a number. -/
theorem exists_selectivity_iff (hp : p.check c = .ok ()) :
    (∃ counts, selectivity c securities p = .ok counts) ↔
      ∀ q ∈ p.predicate.conjuncts, ∀ s ∈ securities, ¬ q.Baffled c s := by
  have hallowed := Predicate.every_conjuncts.2 (Plan.check_ok_iff.1 hp).1
  simp only [selectivity_ok_iff, exists_and_left, exists_eq, and_true]
  exact forall₂_congr fun q hq => forall₂_congr fun s _ => Predicate.exists_holds_iff (hallowed q hq)

/-- The sector of a security of the right kinds is a text. -/
theorem Security.Typed.not_baffled {s : Security} (h : s.Typed) (q : Predicate) : ¬ q.Baffled c s := by
  rintro ⟨⟨n, hn, hzero⟩, -⟩
  obtain ⟨name, hname⟩ := h.sector_ok
  exact absurd (Security.sector_error_iff.2 ⟨rfl, n, hn, hzero⟩) (by rw [hname]; exact nofun)

/-- A run finds no more than any clause lets through. -/
theorem total_le_found {maxResults : Int} {result : Screened} (h : screen c maxResults securities p = .ok result)
    {q : Predicate} (hq : q ∈ p.predicate.conjuncts) : result.total ≤ (q.found c securities).length := by
  obtain ⟨-, -, -, sorted, horders, rfl⟩ := screen_ok_iff.1 h
  exact horders.perm.length_eq.trans_le (length_found_le hq securities)

end EquityScreen
