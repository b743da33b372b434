/-
Heuristics, and the items that they report.

Reading goes from clause to clause. Where a qualitative word or phrase stands, by itself or turned round by an exclude
word (`HeuristicAt`), one item joins the draft and one report with the same filter; anywhere else items may join it,
but no report (`advance_heuristicAt`, `advance_ordinary`). So the reports are, in their order, the items that came from
qualitative words and phrases (`takes_ofTokens`).
-/
import EquityScreen.Proofs.Clause.Progress
import EquityScreen.Proofs.Clause.Qualitative
import EquityScreen.Proofs.Draft.Excluded
import EquityScreen.Proofs.Grouping.Blocks

namespace EquityScreen

namespace Clause

variable {c : Catalog} {t u : Token} {ts more : List Token} {p q : Predicate}

/-- The filter that comes from a qualitative word or phrase where a clause begins: as it stands there, or turned round
behind an exclude word that no list of sectors follows. -/
inductive HeuristicAt (c : Catalog) : List Token → Predicate → Prop
  | said {t : Token} {ts : List Token} {p : Predicate} (ht : t.content = .name) (h : QualitativeAt c (t :: ts) p) :
    HeuristicAt c (t :: ts) p
  | reversed {t u : Token} {ts more : List Token} {p q : Predicate} (ht : t.content = .keyword .exclude)
    (hsectors : (sectorList ((t :: ts).drop (excludeLength (t :: ts))) true).1 = [])
    (hoperand : (t :: ts).drop (operandStart (t :: ts)) = u :: more) (hu : u.content = .name)
    (h : QualitativeAt c (u :: more) p) (hq : p.negate = .ok q) : HeuristicAt c (t :: ts) q

theorem heuristicAt_exclude (ht : t.content = .keyword .exclude) : HeuristicAt c (t :: ts) q ↔
    (sectorList ((t :: ts).drop (excludeLength (t :: ts))) true).1 = [] ∧
      ∃ u more p, (t :: ts).drop (operandStart (t :: ts)) = u :: more ∧ u.content = .name ∧
        QualitativeAt c (u :: more) p ∧ p.negate = .ok q := by
  constructor
  · rintro (⟨hname, -⟩ | ⟨-, hsectors, hoperand, hu, h, hq⟩)
    · exact absurd (ht.symm.trans hname) (by simp)
    · exact ⟨hsectors, _, _, _, hoperand, hu, h, hq⟩
  · rintro ⟨hsectors, u, more, p, hoperand, hu, h, hq⟩
    exact .reversed ht hsectors hoperand hu h hq

/-- Turning a word's reading round turns its report round. -/
theorem heuristic?_reversed {operand : Clause} (h : operand.IsOperand) (phrase : String) (symbol : Option String) :
    (Clause.reversed operand phrase symbol).heuristic? = operand.heuristic?.bind fun p => p.negate.toOption := by
  cases operand with
  | reversed => exact absurd h id
  | _ => rfl

/-- What is read at an exclude word is reported exactly if a qualitative word or phrase is turned round. -/
theorem heuristic?_exclude (ht : t.content = .keyword .exclude) :
    (exclude c (t :: ts)).1.heuristic? = some q ↔ HeuristicAt c (t :: ts) q := by
  rw [heuristicAt_exclude ht]
  by_cases hsectors : (sectorList ((t :: ts).drop (excludeLength (t :: ts))) true).1 = []
  · rw [exclude_eq hsectors]
    simp only [hsectors, true_and]
    unfold operand?
    cases hoperand : (t :: ts).drop (operandStart (t :: ts)) with
    | nil => simp [skip, heuristic?]
    | cons u more =>
      dsimp only
      by_cases hu : u.content = .name
      · have hname : u.isName = true := by simp [Token.isName, hu]
        rw [if_pos hname]
        dsimp only
        rw [heuristic?_reversed (readWord_isOperand c u _)]
        simp only [Option.bind_eq_some_iff, heuristic?_readWord, Except.toOption_eq_some]
        constructor
        · rintro ⟨p, hp, hq⟩
          exact ⟨u, more, p, rfl, hu, hp, hq⟩
        · rintro ⟨_, _, p, heq, -, hp, hq⟩
          obtain ⟨rfl, rfl⟩ := List.cons.inj heq
          exact ⟨p, hp, hq⟩
      · have hname : ¬ u.isName = true := by simpa [Token.isName] using hu
        rw [if_neg hname]
        refine iff_of_false (by simp [skip, heuristic?]) ?_
        rintro ⟨_, _, p, heq, hu', -⟩
        obtain ⟨rfl, rfl⟩ := List.cons.inj heq
        exact hu hu'
  · have hread := read_exclude (c := c) ht hsectors
    rw [clauses_of_exclude ht] at hread
    rw [List.head_eq_of_cons_eq hread]
    exact iff_of_false (by simp [heuristic?]) fun h => hsectors h.1

/-- A filter that comes from a qualitative word or phrase is what the one clause there reports. -/
theorem clauses_of_heuristicAt (h : HeuristicAt c (t :: ts) p) :
    ∃ cl, (read c t ts).clauses = [cl] ∧ cl.heuristic? = some p := by
  cases id h with
  | said ht hword => exact ⟨_, clauses_of_name ht, (heuristic?_readWord c t ts p).2 hword⟩
  | reversed ht => exact ⟨_, clauses_of_exclude ht, (heuristic?_exclude ht).2 h⟩

/-- Where no filter comes from a qualitative word or phrase, no clause reports any. -/
theorem clauses_ordinary (h : ∀ p, ¬ HeuristicAt c (t :: ts) p) :
    ∀ cl ∈ (read c t ts).clauses, cl.heuristic? = none := by
  by_cases hname : t.content = .name
  · rw [clauses_of_name hname]
    refine fun cl hcl => Option.eq_none_iff_forall_ne_some.2 fun p hp => h p (.said hname ?_)
    exact (heuristic?_readWord c t ts p).1 (List.mem_singleton.1 hcl ▸ hp)
  by_cases hexclude : t.content = .keyword .exclude
  · rw [clauses_of_exclude hexclude]
    refine fun cl hcl => Option.eq_none_iff_forall_ne_some.2 fun p hp => h p ?_
    exact (heuristic?_exclude hexclude).1 (List.mem_singleton.1 hcl ▸ hp)
  exact (ordinary_heuristic? c (t :: ts)).read (List.suffix_refl _) (by simpa [Token.isName] using hname) hexclude

end Clause

namespace Draft

open Clause (HeuristicAt)

variable {c : Catalog} {d : Draft} {t : Token} {ts : List Token} {p : Predicate}

/-! ## A clause more -/

/-- A clause with a report adds its filter to the items and to the reports. -/
theorem add_of_heuristic? {cl : Clause} (h : cl.heuristic? = some p) :
    (d.add cl).items = d.items ++ [.filter p] ∧ ∃ phrase, (d.add cl).heuristics = d.heuristics ++ [⟨phrase, p⟩] := by
  cases cl with
  | heuristic phrase p' =>
    obtain rfl := Option.some.inj h
    exact ⟨rfl, phrase, rfl⟩
  | reversed operand phrase symbol =>
    cases operand with
    | heuristic text p' =>
      have hp : p'.negate = .ok p := Except.toOption_eq_some.1 h
      simp only [add, addReversed, hp]
      exact ⟨rfl, phrase, rfl⟩
    | _ => exact absurd h (by simp [Clause.heuristic?])
  | _ => exact absurd h (by simp [Clause.heuristic?])

theorem heuristics_withoutOpposite (phrase reason : String) (symbol : Option String) :
    (d.withoutOpposite phrase reason symbol).heuristics = d.heuristics := by
  cases symbol <;> rfl

/-- A clause without a report adds none. -/
theorem heuristics_add {cl : Clause} (h : cl.heuristic? = none) : (d.add cl).heuristics = d.heuristics := by
  cases cl with
  | heuristic phrase p => exact absurd h (by simp [Clause.heuristic?])
  | sectors names beforeOr =>
    simp only [add, addSectors]
    split <;> rfl
  | reversed operand phrase symbol =>
    refine addReversed_cases (P := fun d' => d'.heuristics = d.heuristics) operand (fun _ _ _ _ => rfl) ?_ rfl
      (fun _ _ _ => rfl) (fun _ _ _ _ => heuristics_withoutOpposite _ _ _) (fun _ _ => rfl)
      fun _ => heuristics_withoutOpposite _ _ _
    rintro text p q rfl hq
    have hp : p.negate.toOption = none := h
    exact absurd (hp.symm.trans (Except.toOption_eq_some.2 hq)) (by simp)
  | mark | filter | excludedSectors | order | limit | filler | skipped | breakdown => rfl

/-! ## From clause to clause -/

/-- **Where a qualitative word or phrase stands**, its filter joins the items and is reported. -/
theorem advance_heuristicAt (h : HeuristicAt c (t :: ts) p) : (d.advance c t ts).items = d.items ++ [.filter p] ∧
    ∃ phrase, (d.advance c t ts).heuristics = d.heuristics ++ [⟨phrase, p⟩] := by
  obtain ⟨cl, hread, hcl⟩ := Clause.clauses_of_heuristicAt h
  rw [advance, hread]
  exact add_of_heuristic? hcl

/-- **Anywhere else** nothing is reported. -/
theorem advance_ordinary (h : ∀ p, ¬ HeuristicAt c (t :: ts) p) :
    d.items <+: (d.advance c t ts).items ∧ (d.advance c t ts).heuristics = d.heuristics :=
  foldl_invariant (I := fun d' => d.items <+: d'.items ∧ d'.heuristics = d.heuristics)
    (fun d' cl hd hcl => ⟨hd.1.trans (continues_add d' cl).items, (heuristics_add hcl).trans hd.2⟩) (Clause.clauses_ordinary h)
    ⟨List.prefix_refl _, rfl⟩

/-- Reading the tokens from a draft on adds these items and, in order, takes these filters among them from qualitative
words and phrases. -/
inductive Takes (c : Catalog) : Draft → List Token → List Item → List Predicate → Prop
  | done (d : Draft) : Takes c d [] [] []
  | heuristic {d : Draft} {t : Token} {ts : List Token} {p : Predicate} {items : List Item} {ps : List Predicate}
    (h : HeuristicAt c (t :: ts) p) (hitems : (d.advance c t ts).items = d.items ++ [.filter p])
    (hrest : Takes c (d.advance c t ts) ((t :: ts).drop (Clause.read c t ts).used) items ps) :
    Takes c d (t :: ts) (.filter p :: items) (p :: ps)
  | ordinary {d : Draft} {t : Token} {ts : List Token} {added items : List Item} {ps : List Predicate}
    (h : ∀ p, ¬ HeuristicAt c (t :: ts) p) (hitems : (d.advance c t ts).items = d.items ++ added)
    (hrest : Takes c (d.advance c t ts) ((t :: ts).drop (Clause.read c t ts).used) items ps) :
    Takes c d (t :: ts) (added ++ items) ps

variable {items : List Item} {ps : List Predicate}

/-- What is taken is among the items, in the same order. -/
theorem Takes.sublist (h : Takes c d ts items ps) : ps.Sublist (Item.filters items) := by
  induction h with
  | done d => exact List.Sublist.slnil
  | heuristic _ _ _ ih => exact ih.cons_cons _
  | ordinary _ _ _ ih =>
    rw [Item.filters, List.filterMap_append]
    exact ih.trans (List.sublist_append_right _ _)

/-- **Reading reports what it takes**, in order and each once. -/
theorem takes_gather {fuel : Nat} (hfuel : ts.length ≤ fuel) : ∃ items ps, Takes c d ts items ps ∧
    (gather c fuel ts d).items = d.items ++ items ∧
    (gather c fuel ts d).heuristics.map (·.predicate) = d.heuristics.map (·.predicate) ++ ps := by
  induction fuel generalizing ts d with
  | zero =>
    rw [List.eq_nil_of_length_eq_zero (Nat.le_zero.1 hfuel)]
    exact ⟨[], [], .done d, by simp [gather], by simp [gather]⟩
  | succ fuel ih =>
    cases ts with
    | nil => exact ⟨[], [], .done d, by simp [gather], by simp [gather]⟩
    | cons t ts =>
      have hrest : ((t :: ts).drop (Clause.read c t ts).used).length ≤ fuel := by
        have hused := Clause.one_le_used c t ts
        simp only [List.length_drop, List.length_cons] at hfuel ⊢
        omega
      obtain ⟨items, ps, htakes, hitems, hheuristics⟩ := ih (d := d.advance c t ts) hrest
      have hstep : gather c (fuel + 1) (t :: ts) d =
          gather c fuel ((t :: ts).drop (Clause.read c t ts).used) (d.advance c t ts) := rfl
      rw [hstep, hitems, hheuristics]
      by_cases h : ∃ p, HeuristicAt c (t :: ts) p
      · obtain ⟨p, hp⟩ := h
        obtain ⟨hadded, phrase, hreported⟩ := advance_heuristicAt (d := d) hp
        refine ⟨.filter p :: items, p :: ps, .heuristic hp hadded htakes, ?_, ?_⟩
        · rw [hadded, List.append_assoc, List.singleton_append]
        · rw [hreported, List.map_append, List.append_assoc]
          rfl
      · have hno : ∀ p, ¬ HeuristicAt c (t :: ts) p := fun p hp => h ⟨p, hp⟩
        obtain ⟨⟨added, hadded⟩, hreported⟩ := advance_ordinary (d := d) hno
        refine ⟨added ++ items, ps, .ordinary hno hadded.symm htakes, ?_, ?_⟩
        · rw [← hadded, List.append_assoc]
        · rw [hreported]

/-- **The reports are the items that came from qualitative words and phrases.** -/
theorem takes_ofTokens (c : Catalog) (ts : List Token) :
    Takes c {} ts (ofTokens c ts).items ((ofTokens c ts).heuristics.map (·.predicate)) := by
  obtain ⟨items, ps, htakes, hitems, hheuristics⟩ := takes_gather (c := c) (d := {}) (Nat.le_refl ts.length)
  rw [ofTokens, hitems, hheuristics]
  exact htakes

end Draft
end EquityScreen
