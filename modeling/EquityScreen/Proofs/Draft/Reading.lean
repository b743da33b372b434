/-
Reading tokens clause by clause.

What was noted stays (`continues_gather`). Where reading comes to stand on its way is said together with what was noted
until then (`Comes`); what is gathered from the start is gathered from there on (`Comes.gather`).
-/
import EquityScreen.Proofs.Clause.Progress
import EquityScreen.Proofs.Draft.Sound

namespace EquityScreen.Draft

open Clause (Reached)

variable {c : Catalog} {d d' : Draft} {t : Token} {ts rest : List Token}

/-! ## What was noted stays -/

/-- A draft goes on from another: items, clauses and sectors left out stay, and reading that has stopped has stopped for
good. -/
structure Continues (d d' : Draft) : Prop where
  items : d.items <+: d'.items
  clauseCount : d.clauseCount ≤ d'.clauseCount
  excluded : d.excluded ⊆ d'.excluded
  breakdown : d'.breakdown = none → d.breakdown = none

theorem Continues.refl (d : Draft) : Continues d d :=
  ⟨List.prefix_refl _, Nat.le_refl _, List.Subset.refl _, id⟩

theorem Continues.trans {d₁ d₂ d₃ : Draft} (h : Continues d₁ d₂) (h' : Continues d₂ d₃) : Continues d₁ d₃ where
  items := h.items.trans h'.items
  clauseCount := Nat.le_trans h.clauseCount h'.clauseCount
  excluded := List.Subset.trans h.excluded h'.excluded
  breakdown hnone := h.breakdown (h'.breakdown hnone)

theorem continues_addFilter (d : Draft) (p : Predicate) : Continues d (d.addFilter p) :=
  { Continues.refl d with items := List.prefix_append _ _, clauseCount := Nat.le_succ _ }

theorem continues_addHeuristic (d : Draft) (phrase : String) (p : Predicate) : Continues d (d.addHeuristic phrase p) :=
  { continues_addFilter d p with }

theorem continues_stopped (d : Draft) (e : CoercionError) : Continues d (d.stopped e) := by
  refine { Continues.refl d with breakdown := fun h => ?_ }
  cases hd : d.breakdown with
  | none => rfl
  | some e' => simp [stopped, hd] at h

theorem continues_withoutOpposite (d : Draft) (phrase reason : String) (symbol : Option String) :
    Continues d (d.withoutOpposite phrase reason symbol) := by
  cases symbol with
  | none => exact { Continues.refl d with }
  | some symbol => exact continues_addFilter d _

theorem continues_addReversed (d : Draft) (phrase : String) (symbol : Option String) (cl : Clause) :
    Continues d (d.addReversed phrase symbol cl) :=
  addReversed_cases (P := Continues d) cl (fun _ q _ _ => continues_addFilter d q)
    (fun _ _ q _ _ => continues_addHeuristic d phrase q) (.refl d) (fun _ _ _ => continues_addFilter d _)
    (fun names _ _ _ => { continues_withoutOpposite { d with included := union d.included names } _ _ _ with })
    (fun e _ => continues_stopped d e) fun _ => continues_withoutOpposite d _ _ _

/-- A clause takes nothing away. -/
theorem continues_add (d : Draft) (cl : Clause) : Continues d (d.add cl) := by
  cases cl with
  | mark i => exact { Continues.refl d with items := List.prefix_append _ _ }
  | filter p => exact continues_addFilter d p
  | heuristic text p => exact continues_addHeuristic d text p
  | sectors names beforeOr =>
    unfold add addSectors
    dsimp only
    split
    · exact continues_addFilter d _
    · exact { Continues.refl d with clauseCount := Nat.le_succ _ }
  | excludedSectors names =>
    exact { Continues.refl d with clauseCount := Nat.le_succ _, excluded := fun _ h => mem_union.2 (.inl h) }
  | order | limit => exact { Continues.refl d with clauseCount := Nat.le_succ _ }
  | filler | skipped => exact { Continues.refl d with }
  | breakdown e => exact continues_stopped d e
  | reversed cl phrase symbol => exact continues_addReversed d phrase symbol cl

/-- **Reading takes nothing away** of what was noted. -/
theorem continues_gather (c : Catalog) (fuel : Nat) (ts : List Token) (d : Draft) : Continues d (gather c fuel ts d) :=
  gather_invariant (I := Continues d) (P := fun _ => True) (fun d' cl h _ => h.trans (continues_add d' cl))
    (fun _ _ _ _ _ => trivial) fuel ts d (List.suffix_refl ts) (.refl d)

/-! ## From clause to clause -/

/-- Reading goes on from clause to clause, and comes to stand before the tokens `rest` with the draft `d'`. -/
inductive Comes (c : Catalog) (d' : Draft) (rest : List Token) : Draft → List Token → Prop
  | here : Comes c d' rest d' rest
  | later {d : Draft} {t : Token} {ts : List Token}
    (h : Comes c d' rest (d.advance c t ts) ((t :: ts).drop (Clause.read c t ts).used)) : Comes c d' rest d (t :: ts)

/-- What is gathered from the start is gathered from there on. -/
theorem Comes.gather (h : Comes c d' (t :: rest) d ts) {fuel : Nat} (hfuel : ts.length ≤ fuel) : ∃ left,
    gather c fuel ts d = gather c left ((t :: rest).drop (Clause.read c t rest).used) (d'.advance c t rest) := by
  induction h generalizing fuel with
  | here =>
    obtain ⟨left, rfl⟩ := Nat.exists_eq_add_of_lt (Nat.lt_of_lt_of_le (Nat.succ_pos rest.length) hfuel)
    exact ⟨left, by rw [Nat.zero_add]; rfl⟩
  | @later d u us _ ih =>
    obtain ⟨left, rfl⟩ := Nat.exists_eq_add_of_lt (Nat.lt_of_lt_of_le (Nat.succ_pos us.length) hfuel)
    have hused := Clause.one_le_used c u us
    obtain ⟨left', heq⟩ := @ih left (by simp only [List.length_drop, List.length_cons] at hfuel ⊢; omega)
    exact ⟨left', by rw [← heq, Nat.zero_add]; rfl⟩

/-- Reading notes something until it comes to where it stands. -/
theorem comes_of_reached (h : Reached c rest ts) (d : Draft) : ∃ d', Comes c d' rest d ts := by
  induction h generalizing d with
  | here => exact ⟨d, .here⟩
  | later _ ih => exact (ih _).imp fun _ => .later

end EquityScreen.Draft
