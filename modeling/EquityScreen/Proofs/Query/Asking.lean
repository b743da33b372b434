/-
What a query must have said. A qualitative phrase is a filter, so a query whose filter holds of
everything has none (`heuristics_eq_nil`); and a text of blanks asks for no screen (`trim_ne_empty`).
-/
import EquityScreen.Proofs.Draft.Sound
import EquityScreen.Proofs.Text.Case
import Mathlib.Data.List.TakeWhile

namespace EquityScreen

/-! ## Filters that hold of everything -/

namespace Clause

/-- A filter that the clause brings does not hold of everything. -/
def Narrows : Clause → Prop
  | .mark i => ∀ p, i ≠ .filter p
  | .filter p | .heuristic _ p => p ≠ .all
  | _ => True

/-- No clause brings a filter that holds of everything. -/
theorem read_narrows (c : Catalog) (t : Token) (ts : List Token) : ∀ cl ∈ (read c t ts).clauses, cl.Narrows := by
  refine Shared.read ?_ (List.suffix_refl (t :: ts))
  refine ⟨⟨fun _ h => h, trivial, fun _ => trivial, fun _ _ _ => trivial, fun _ _ => trivial,
    fun _ _ _ => trivial, fun _ _ => trivial, fun _ _ _ _ => trivial, ?_⟩, ?_, ?_, fun _ _ _ _ _ => trivial⟩
  · intro f n op ts _ _ _
    rcases readComparison_cases f n op ts with ⟨p, used, hp, h⟩ | ⟨_, _, _, -, -, h⟩ | ⟨_, _, -, -, h⟩ <;> rw [h]
    · exact (readFilter_reversible hp).ne_all
    · trivial
    · trivial
  · intro ts r h
    obtain ⟨names, terms, n, p, hmem, hp, rfl⟩ := phrase?_some h
    refine termsPredicate?_closed (P := (· ≠ .all)) (fun p q hp hq => ?_) (phrases_plain _ hmem).1
      (fun _ _ _ _ => nofun) hp
    rw [Predicate.conjoin_eq_and hp hq]
    exact nofun
  · intro ts q r h
    obtain ⟨f, n, -, ⟨op, threshold, -, -, rfl⟩ | ⟨reason, rfl⟩⟩ := quality?_some h
    · exact nofun
    · trivial

end Clause

namespace Draft

variable {c : Catalog} {d : Draft} {p : Predicate}

/-- No filter holds of everything, and with a qualitative phrase there is a filter. -/
structure Narrow (d : Draft) : Prop where
  filters : ∀ p, .filter p ∈ d.items → p ≠ .all
  heuristics : d.heuristics ≠ [] → ∃ p, .filter p ∈ d.items

theorem Narrow.addFilter (h : d.Narrow) (hp : p ≠ .all) : (d.addFilter p).Narrow := by
  refine ⟨fun q hq => ?_, fun _ => ⟨p, List.mem_append_right _ (List.mem_singleton_self _)⟩⟩
  rcases List.mem_append.1 hq with hq | hq
  · exact h.filters q hq
  · rw [Item.filter.inj (List.mem_singleton.1 hq)]
    exact hp

theorem Narrow.addHeuristic (h : d.Narrow) {phrase : String} (hp : p ≠ .all) : (d.addHeuristic phrase p).Narrow :=
  ⟨(h.addFilter hp).filters, fun _ => ⟨p, List.mem_append_right _ (List.mem_singleton_self _)⟩⟩

theorem Narrow.withoutOpposite (h : d.Narrow) (phrase reason : String) (symbol : Option String) :
    (d.withoutOpposite phrase reason symbol).Narrow := by
  cases symbol with
  | none => exact ⟨h.filters, h.heuristics⟩
  | some s => exact h.addFilter nofun

theorem Narrow.addReversed (h : d.Narrow) (phrase : String) (symbol : Option String) (operand : Clause) :
    (d.addReversed phrase symbol operand).Narrow := by
  have hnoted : ∀ names, Narrow { d with included := union d.included names } := fun _ => ⟨h.filters, h.heuristics⟩
  exact addReversed_cases operand (fun _ _ _ hq => h.addFilter (Predicate.ne_all_of_negate hq))
    (fun _ _ _ _ hq => h.addHeuristic (Predicate.ne_all_of_negate hq)) h (fun _ _ _ => h.addFilter (by simp))
    (fun names _ _ _ => (hnoted names).withoutOpposite _ _ _) (fun _ _ => ⟨h.filters, h.heuristics⟩)
    fun _ => h.withoutOpposite _ _ _

/-- **A clause more** leaves a draft narrow. -/
theorem Narrow.add (h : d.Narrow) {cl : Clause} (hcl : cl.Narrows) : (d.add cl).Narrow := by
  cases cl with
  | mark i =>
    refine ⟨fun q hq => ?_, fun hne => (h.heuristics hne).imp fun p hp => List.mem_append_left _ hp⟩
    rcases List.mem_append.1 hq with hq | hq
    · exact h.filters q hq
    · exact absurd (List.mem_singleton.1 hq).symm (hcl q)
  | filter p => exact h.addFilter hcl
  | heuristic phrase p => exact h.addHeuristic hcl
  | sectors names beforeOr =>
    simp only [Draft.add, addSectors]
    split
    · exact h.addFilter (by simp)
    · exact ⟨h.filters, h.heuristics⟩
  | reversed operand phrase symbol => exact h.addReversed _ _ _
  | excludedSectors _ | order _ | limit _ _ | filler | skipped _ | breakdown _ => exact ⟨h.filters, h.heuristics⟩

theorem ofTokens_narrow (c : Catalog) (ts : List Token) : (ofTokens c ts).Narrow :=
  gather_invariant (I := Narrow) (fun _ _ h hcl => h.add hcl) (fun t ts _ => Clause.read_narrows c t ts) _ ts {}
    (List.suffix_refl ts) ⟨nofun, fun h => absurd rfl h⟩

/-- With a filter in it, the filter of a draft does not hold of everything. -/
theorem Narrow.predicate_ne_all (h : d.Narrow) (hfilter : ∃ p, .filter p ∈ d.items) : d.predicate ≠ .all := by
  have hclosed : Predicate.Closed (· ≠ .all) :=
    ⟨fun p q hp hq => by rw [Predicate.conjoin_eq_and hp hq]; exact nofun,
      fun p q hp hq => by rw [Predicate.disjoin_eq_or hp hq]; exact nofun⟩
  have hsectors : ∀ {tree sectors : Predicate} {names : List String}, tree ≠ .all → sectors ≠ .all →
      (if names.isEmpty then tree else tree.conjoin sectors) ≠ .all := by
    intro tree sectors names htree hsectors
    split
    · exact htree
    · exact hclosed.conjoin _ _ htree hsectors
  exact hsectors (hsectors (Predicate.ofItems_of_filter hclosed h.filters hfilter) nofun) nofun

end Draft

namespace Query

variable {c : Catalog} {text : String} {q : Query}

/-- **A query whose filter holds of everything** has no qualitative phrase. -/
theorem heuristics_eq_nil (h : parse c text = .ok q) (hi : q.intent = .newScreen ∨ ∃ n, q.intent = .refinement n)
    (hall : q.plan.predicate = .all) : q.heuristics = [] := by
  obtain ⟨ts, -, -, hplan, hheuristics⟩ := parse_plan h hi
  have hnarrow := Draft.ofTokens_narrow c (announced ts).2
  rw [hplan] at hall
  rw [hheuristics]
  refine Classical.byContradiction fun hne => ?_
  exact hnarrow.predicate_ne_all (hnarrow.heuristics hne) hall

/-! ## Blank texts -/

/-- A text of blanks has no tokens. -/
theorem tokenize_blank (h : ∀ c ∈ text.toList, Text.isBlank c = true) : tokenize text = .ok [] := by
  have hend : ∀ fuel before position, Scan.tokensFrom fuel before position [] = .ok [] := by
    intro fuel before position
    cases fuel <;> rfl
  have hmark : Scan.refinement? text.toList = none := by
    rw [Scan.refinement?, List.dropWhile_eq_nil_iff.2 h]
  unfold tokenize
  simp only [hmark]
  generalize text.toList = cs at h
  cases cs with
  | nil => exact hend _ _ _
  | cons d cs =>
    obtain ⟨hd, hblanks⟩ := List.forall_mem_cons.1 h
    have hrun : Scan.blanks? (d :: cs) = some (.ok ⟨none, []⟩) := by
      rw [Scan.blanks?, if_pos hd, List.dropWhile_eq_nil_iff.2 hblanks]
    have hpiece : Scan.piece? none (d :: cs) = some (.ok ⟨none, []⟩) := by
      rw [Scan.piece?, hrun]
      rfl
    rw [List.length_cons]
    unfold Scan.tokensFrom
    simp only [hpiece, hend]

/-- **A text that asks for a screen** is not blank. -/
theorem trim_ne_empty (h : parse c text = .ok q) (hi : q.intent = .newScreen ∨ ∃ n, q.intent = .refinement n) :
    Text.trim text ≠ "" := by
  intro hblank
  have hall : ∀ d ∈ text.toList, Text.isBlank d = true := by
    intro d hd
    refine Classical.byContradiction fun hno => ?_
    have hmem := Text.mem_trimChars hd (Bool.not_eq_true _ ▸ hno)
    have hnil : Text.trimChars text.toList = [] := by simpa [Text.trim] using congrArg String.toList hblank
    rw [hnil] at hmem
    exact absurd hmem List.not_mem_nil
  obtain ⟨ts, hts, hcount, -⟩ := parse_plan h hi
  cases hts.symm.trans (tokenize_blank hall)
  exact hcount rfl

end Query
end EquityScreen
