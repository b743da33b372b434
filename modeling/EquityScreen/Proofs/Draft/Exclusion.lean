/-
What an exclude word does to a draft when no list of sectors follows it.

The clause behind the word is read as it would be by itself and then turned round: a filter into
its complement, a lone word in capitals into a symbol to leave out, and anything else into a piece
that could not be used. Nothing of the clause should stay behind as it was written.

* `advance_exclude`: that is so but for one case. Sectors that would hold for the whole query are
  noted among the sectors that it is about, and the note stays: the query is then about the very
  sectors that it was to leave out.
-/
import EquityScreen.Draft
import EquityScreen.Proofs.Catalog.Names
import EquityScreen.Proofs.Clause.Operand

namespace EquityScreen
namespace Clause

/-! ## The operand of an exclude word -/

/-- The number of tokens of an exclude word with the "in" and the "sector" that may follow it. -/
def excludeLength (ts : List Token) : Nat :=
  let start := if nextIs .inside (ts.drop 1) then 2 else 1
  start + sectorWord (ts.drop start)

/-- The number of tokens before the operand of an exclude word: words without meaning are passed
over. -/
def operandStart (ts : List Token) : Nat :=
  excludeLength ts + ((ts.drop (excludeLength ts)).takeWhile isFiller).length

/-- The operand of an exclude word: its first word, the clause that starts there, and the number of
its tokens. -/
def operand? (c : Catalog) (ts : List Token) : Option (Token × Clause × Nat) :=
  match ts.drop (operandStart ts) with
  | [] => none
  | t :: more => if t.isName then some (t, readWord c t (t :: more)) else none

/-- The text of an exclude word with its operand. -/
def exclusionText (c : Catalog) (ts : List Token) : String :=
  Token.joinedText (ts.take (operandStart ts + ((operand? c ts).map (·.2.2)).getD 0))

/-- What is read at an exclude word that no list of sectors follows. -/
theorem exclude_eq {c : Catalog} {ts : List Token}
    (h : (sectorList (ts.drop (excludeLength ts)) true).1 = []) :
    exclude c ts = match operand? c ts with
      | none => skip ts (operandStart ts) "nothing to exclude"
      | some (t, operand, used) =>
        (.reversed operand (exclusionText c ts) (symbolOf? t used), operandStart ts + used) := by
  have hreverse : exclude c ts = reverse c (excludeLength ts) ts := by
    unfold exclude
    dsimp only [excludeLength] at h ⊢
    split
    · rfl
    · next names n hne heq => rw [heq] at h; exact absurd h hne
  rw [hreverse, reverse]
  dsimp only
  rw [← operandStart]
  unfold exclusionText operand?
  cases ts.drop (operandStart ts) with
  | nil => rfl
  | cons t more =>
    dsimp only
    by_cases hname : t.isName = true
    · rw [if_pos hname, if_pos hname]; rfl
    · rw [if_neg hname, if_neg hname]

theorem operand?_isOperand {c : Catalog} {ts : List Token} {t : Token} {operand : Clause} {used : Nat}
    (h : operand? c ts = some (t, operand, used)) : operand.IsOperand := by
  unfold operand? at h
  split at h
  · exact absurd h (by simp)
  · next u more _ =>
    split at h
    · have heq : operand = (readWord c u (u :: more)).1 := by
        simp only [Option.some.injEq, Prod.mk.injEq] at h
        rw [h.2]
      exact heq ▸ readWord_isOperand c u _
    · exact absurd h (by simp)

end Clause

namespace Draft

open Clause (operand? operandStart excludeLength exclusionText)

/-- The draft after the clauses at the front of the tokens `t :: ts`. -/
def advance (c : Catalog) (d : Draft) (t : Token) (ts : List Token) : Draft :=
  (Clause.read c t ts).clauses.foldl add d

/-! ## The three outcomes -/

/-- The filter that the operand would add by itself joins the draft as its complement. -/
def Complemented (c : Catalog) (ts : List Token) (d d' : Draft) : Prop :=
  ∃ t operand used p q, operand? c ts = some (t, operand, used) ∧
    (d.add operand).items = d.items ++ [.filter p] ∧ p.negate = .ok q ∧
    d'.items = d.items ++ [.filter q] ∧ d'.clauseCount = d.clauseCount + 1 ∧
    d'.skipped = d.skipped ∧
    d'.heuristics = d.heuristics ++
      ((d.add operand).heuristics.drop d.heuristics.length).map fun _ => ⟨exclusionText c ts, q⟩

/-- The operand, which would add no filter by itself, is one word in capitals and is left out as a
symbol. -/
def SymbolLeftOut (c : Catalog) (ts : List Token) (d d' : Draft) : Prop :=
  ∃ t operand, operand? c ts = some (t, operand, 1) ∧
    (d.add operand).items = d.items ∧ Text.isUpper t.text = true ∧
    d'.items = d.items ++
      [.filter (.compare ⟨"symbol", .ne, .text (Text.upper (Text.trim t.text))⟩)] ∧
    d'.clauseCount = d.clauseCount + 1 ∧ d'.skipped = d.skipped ∧ d'.heuristics = d.heuristics

/-- The exclude word is reported with its operand as one piece that could not be used. -/
def Reported (c : Catalog) (ts : List Token) (d d' : Draft) : Prop :=
  d'.items = d.items ∧ d'.clauseCount = d.clauseCount ∧ d'.heuristics = d.heuristics ∧
    ∃ reason, d'.skipped = d.skipped ++ [⟨exclusionText c ts, reason⟩]

/-- The operand is a list of sectors that would hold for the whole query, and one of them is not
among those that the query is about already. -/
def LiftsSectors (c : Catalog) (ts : List Token) (d : Draft) : Prop :=
  d.joins = false ∧ ∃ t names used, operand? c ts = some (t, .sectors names false, used) ∧
    ∃ n ∈ names, n ∉ d.included

/-- No two of the outcomes come about together. -/
theorem outcomes_exclusive (c : Catalog) (ts : List Token) (d d' : Draft) :
    ¬ (Complemented c ts d d' ∧ SymbolLeftOut c ts d d') ∧
    ¬ (Complemented c ts d d' ∧ Reported c ts d d') ∧
    ¬ (SymbolLeftOut c ts d d' ∧ Reported c ts d d') := by
  refine ⟨?_, ?_, ?_⟩
  · rintro ⟨⟨t, o, used, p, q, ho, hp, -⟩, t', o', ho', hs, -⟩
    rw [ho] at ho'
    simp only [Option.some.injEq, Prod.mk.injEq] at ho'
    obtain ⟨-, rfl, -⟩ := ho'
    rw [hs] at hp
    simp at hp
  · rintro ⟨⟨t, o, used, p, q, -, -, -, hi, -⟩, hr, -⟩
    rw [hr] at hi
    simp at hi
  · rintro ⟨⟨t, o, -, -, -, hi, -⟩, hr, -⟩
    rw [hr] at hi
    simp at hi

/-! ## What an operand turned round does to a draft -/

section
variable {d : Draft} {phrase : String} {symbol : Option String} {operand : Clause}

/-- **What turning an operand round can do**: the complement of its filter joins the draft; sectors become a filter
that leaves them out, or are noted as those the query is about; reading stops; or something stands in for an opposite
that there is none of. -/
theorem addReversed_cases {P : Draft → Prop} (operand : Clause)
    (hfilter : ∀ p q, operand = .filter p → p.negate = .ok q → P (d.addFilter q))
    (hheuristic : ∀ text p q, operand = .heuristic text p → p.negate = .ok q → P (d.addHeuristic phrase q))
    (hstays : P d)
    (hsectors : ∀ names beforeOr, operand = .sectors names beforeOr → P (d.addFilter (.sectorOut (.ofList names))))
    (hnoted : ∀ names beforeOr reason, operand = .sectors names beforeOr →
      P (withoutOpposite { d with included := union d.included names } phrase reason symbol))
    (hbreakdown : ∀ e, operand = .breakdown e → P (d.stopped e))
    (hother : ∀ reason, P (d.withoutOpposite phrase reason symbol)) : P (d.addReversed phrase symbol operand) := by
  cases operand with
  | filter p =>
    unfold addReversed
    dsimp only
    split
    · next q hq => exact hfilter p q rfl hq
    · exact hstays
  | heuristic text p =>
    unfold addReversed
    dsimp only
    split
    · next q hq => exact hheuristic text p q rfl hq
    · exact hstays
  | sectors names beforeOr =>
    unfold addReversed
    dsimp only
    split
    · exact hsectors names beforeOr rfl
    · exact hnoted names beforeOr _ rfl
  | breakdown e => exact hbreakdown e rfl
  | mark | excludedSectors | order | limit | filler | skipped | reversed => exact hother _

theorem withoutOpposite_kept (d : Draft) (phrase reason : String) (symbol : Option String) :
    let d' := d.withoutOpposite phrase reason symbol
    d'.included = d.included ∧ d'.excluded = d.excluded ∧ d'.sort = d.sort ∧ d'.limit = d.limit ∧
      d'.fromBottom = d.fromBottom := by
  cases symbol <;> exact ⟨rfl, rfl, rfl, rfl, rfl⟩

theorem addReversed_kept (d : Draft) (phrase : String) (symbol : Option String) (h : operand.IsOperand) :
    let d' := d.addReversed phrase symbol operand
    d'.excluded = d.excluded ∧ d'.sort = d.sort ∧ d'.limit = d.limit ∧ d'.fromBottom = d.fromBottom := by
  have hw := fun (d : Draft) reason => (withoutOpposite_kept d phrase reason symbol).2
  cases operand with
  | filter p =>
    obtain ⟨q, hq, -⟩ := Predicate.negate_of_reversible h
    simp only [addReversed, hq]
    exact ⟨rfl, rfl, rfl, rfl⟩
  | heuristic _ p =>
    obtain ⟨q, hq, -⟩ := Predicate.negate_of_reversible h
    simp only [addReversed, hq]
    exact ⟨rfl, rfl, rfl, rfl⟩
  | sectors names beforeOr =>
    simp only [addReversed]
    split
    · exact ⟨rfl, rfl, rfl, rfl⟩
    · exact hw _ _
  | order o => exact hw d _
  | filler => exact hw d _
  | skipped s => exact hw d _
  | breakdown e => exact ⟨rfl, rfl, rfl, rfl⟩
  | mark _ | excludedSectors _ | limit _ _ | reversed _ _ _ => exact absurd h id

/-- Sectors are noted exactly for a list of them that would hold for the whole query. -/
theorem addReversed_included (d : Draft) (phrase : String) (symbol : Option String)
    (h : operand.IsOperand) :
    (∃ names, operand = .sectors names false ∧ d.joins = false ∧
      (d.addReversed phrase symbol operand).included = union d.included names) ∨
    ((∀ names, operand = .sectors names false → d.joins = true) ∧
      (d.addReversed phrase symbol operand).included = d.included) := by
  have hw := fun (d : Draft) reason => (withoutOpposite_kept d phrase reason symbol).1
  cases operand with
  | filter p =>
    obtain ⟨q, hq, -⟩ := Predicate.negate_of_reversible h
    exact .inr ⟨nofun, by simp only [addReversed, hq]; rfl⟩
  | heuristic _ p =>
    obtain ⟨q, hq, -⟩ := Predicate.negate_of_reversible h
    exact .inr ⟨nofun, by simp only [addReversed, hq]; rfl⟩
  | sectors names beforeOr =>
    simp only [addReversed]
    split
    · next hj =>
      refine .inr ⟨fun _ heq => ?_, rfl⟩
      cases heq
      simpa using hj
    · next hj =>
      simp only [Bool.or_eq_true, not_or, Bool.not_eq_true] at hj
      exact .inl ⟨names, by rw [hj.2], hj.1, hw _ _⟩
  | order o => exact .inr ⟨nofun, hw d _⟩
  | filler => exact .inr ⟨nofun, hw d _⟩
  | skipped s => exact .inr ⟨nofun, hw d _⟩
  | breakdown e => exact .inr ⟨nofun, rfl⟩
  | mark _ | excludedSectors _ | limit _ _ | reversed _ _ _ => exact absurd h id

end

/-! ## Names added to a list -/

theorem mem_union {names more : List String} {x : String} :
    x ∈ union names more ↔ x ∈ names ∨ x ∈ more := by
  unfold union
  induction more generalizing names with
  | nil => simp
  | cons n more ih =>
    rw [List.foldl_cons, ih]
    split
    · next h =>
      have hn : n ∈ names := by simpa using h
      constructor
      · rintro (hx | hx)
        · exact .inl hx
        · exact .inr (List.mem_cons_of_mem _ hx)
      · rintro (hx | hx)
        · exact .inl hx
        · rcases List.mem_cons.1 hx with rfl | hx
          · exact .inl hn
          · exact .inr hx
    · simp [or_assoc]

theorem union_eq_self_iff {names more : List String} :
    union names more = names ↔ ∀ n ∈ more, n ∈ names := by
  constructor
  · intro h n hn
    exact h ▸ mem_union.2 (.inr hn)
  · intro h
    unfold union
    induction more with
    | nil => rfl
    | cons n more ih =>
      have hn : names.contains n = true := by simpa using h n (List.mem_cons_self ..)
      rw [List.foldl_cons, if_pos hn]
      exact ih fun m hm => h m (List.mem_cons_of_mem _ hm)

/-! ## The outcome of an exclude word -/

section
variable {c : Catalog} {d : Draft} {t : Token} {ts : List Token}

/-- A word without a list of sectors after it adds its operand turned round, or is skipped. -/
theorem advance_exclude_eq (ht : t.content = .keyword .exclude)
    (hs : (Clause.sectorList ((t :: ts).drop (excludeLength (t :: ts))) true).1 = []) :
    d.advance c t ts = match operand? c (t :: ts) with
      | none => d.addSkipped ⟨exclusionText c (t :: ts), "nothing to exclude"⟩
      | some (u, operand, used) =>
        d.addReversed (exclusionText c (t :: ts)) (Clause.symbolOf? u used) operand := by
  unfold advance
  rw [Clause.clauses_of_exclude ht, Clause.exclude_eq hs, List.foldl_cons, List.foldl_nil]
  cases h : operand? c (t :: ts) with
  | none => simp [Clause.skip, add, exclusionText, h]
  | some o => rfl

theorem withoutOpposite_outcome {u : Token} {operand : Clause} {used : Nat} {reason : String}
    {d₁ : Draft} (ho : operand? c ts = some (u, operand, used))
    (hadd : (d.add operand).items = d.items) (hi : d₁.items = d.items)
    (hn : d₁.clauseCount = d.clauseCount) (hk : d₁.skipped = d.skipped)
    (hh : d₁.heuristics = d.heuristics) :
    let d' := d₁.withoutOpposite (exclusionText c ts) reason (Clause.symbolOf? u used)
    SymbolLeftOut c ts d d' ∨ Reported c ts d d' := by
  unfold Clause.symbolOf?
  split
  · next hsym =>
    simp only [Bool.and_eq_true, decide_eq_true_eq] at hsym
    obtain ⟨⟨rfl, hup⟩, -⟩ := hsym
    left
    refine ⟨u, operand, ho, hadd, hup, ?_, ?_, hk, hh⟩
    · simp only [withoutOpposite, addFilter, hi]
    · simp only [withoutOpposite, addFilter, counted, hn]
  · right
    exact ⟨hi, hn, hh, reason, by simp only [withoutOpposite, addSkipped, hk]⟩

theorem addReversed_outcome (d : Draft) {u : Token} {operand : Clause} {used : Nat}
    (ho : operand? c ts = some (u, operand, used)) (hop : operand.IsOperand) :
    let d' := d.addReversed (exclusionText c ts) (Clause.symbolOf? u used) operand
    d'.breakdown = none → Complemented c ts d d' ∨ SymbolLeftOut c ts d d' ∨ Reported c ts d d' := by
  intro d' hb
  cases operand with
  | filter p =>
    obtain ⟨q, hq, -⟩ := Predicate.negate_of_reversible hop
    refine .inl ⟨u, _, used, p, q, ho, rfl, hq, ?_⟩
    simp only [d', addReversed, hq]
    exact ⟨rfl, rfl, rfl, by simp [add, addFilter, counted]⟩
  | heuristic _ p =>
    obtain ⟨q, hq, -⟩ := Predicate.negate_of_reversible hop
    refine .inl ⟨u, _, used, p, q, ho, rfl, hq, ?_⟩
    simp only [d', addReversed, hq]
    exact ⟨rfl, rfl, rfl, by simp [add, addHeuristic, addFilter, counted]⟩
  | sectors names beforeOr =>
    by_cases hj : (d.joins || beforeOr) = true
    · refine .inl ⟨u, _, used, _, .sectorOut (.ofList names), ho,
        by rw [add, addSectors, if_pos hj]; rfl, rfl, ?_⟩
      simp only [d', addReversed, if_pos hj]
      exact ⟨rfl, rfl, rfl, by simp [add, addSectors, hj, addFilter, counted]⟩
    · simp only [d', addReversed, if_neg hj]
      refine .inr (withoutOpposite_outcome ho ?_ rfl rfl rfl rfl)
      rw [add, addSectors, if_neg hj]
      rfl
  | order o => exact .inr (withoutOpposite_outcome ho rfl rfl rfl rfl rfl)
  | filler => exact .inr (withoutOpposite_outcome ho rfl rfl rfl rfl rfl)
  | skipped s => exact .inr (withoutOpposite_outcome ho rfl rfl rfl rfl rfl)
  | breakdown e => exact absurd hb (by cases h : d.breakdown <;> simp [d', addReversed, stopped, h])
  | mark _ | excludedSectors _ | limit _ _ | reversed _ _ _ => exact absurd hop id

/-- **Excluding, with its one flaw.** At an exclude word that no list of sectors follows the sectors
to leave out, the order and the limit stay as they are; unless reading stops there, exactly one of
the three outcomes comes about; and the sectors that the query is about stay as they are exactly if
the operand is no list of sectors that would hold for the whole query and adds to them. -/
theorem advance_exclude (c : Catalog) (d : Draft) (t : Token) (ts : List Token)
    (ht : t.content = .keyword .exclude)
    (hs : (Clause.sectorList ((t :: ts).drop (excludeLength (t :: ts))) true).1 = []) :
    let d' := d.advance c t ts
    (d'.excluded = d.excluded ∧ d'.sort = d.sort ∧ d'.limit = d.limit ∧
      d'.fromBottom = d.fromBottom) ∧
    (d'.included = d.included ↔ ¬ LiftsSectors c (t :: ts) d) ∧
    (d'.breakdown = none →
      (Complemented c (t :: ts) d d' ∨ SymbolLeftOut c (t :: ts) d d' ∨ Reported c (t :: ts) d d') ∧
      ¬ (Complemented c (t :: ts) d d' ∧ SymbolLeftOut c (t :: ts) d d') ∧
      ¬ (Complemented c (t :: ts) d d' ∧ Reported c (t :: ts) d d') ∧
      ¬ (SymbolLeftOut c (t :: ts) d d' ∧ Reported c (t :: ts) d d')) := by
  intro d'
  have heq : d' = _ := advance_exclude_eq ht hs
  clear_value d'
  have hexcl := outcomes_exclusive c (t :: ts) d d'
  cases ho : operand? c (t :: ts) with
  | none =>
    simp only [ho] at heq
    subst heq
    refine ⟨⟨rfl, rfl, rfl, rfl⟩, ⟨fun _ => ?_, fun _ => rfl⟩, fun _ => ⟨.inr (.inr ?_), hexcl⟩⟩
    · rintro ⟨-, u, names, used, h, -⟩
      rw [ho] at h
      exact absurd h (by simp)
    · exact ⟨rfl, rfl, rfl, _, rfl⟩
  | some o =>
    obtain ⟨u, operand, used⟩ := o
    simp only [ho] at heq
    have hop := Clause.operand?_isOperand ho
    have hkept := addReversed_kept d (exclusionText c (t :: ts)) (Clause.symbolOf? u used) hop
    have hincluded := addReversed_included d (exclusionText c (t :: ts)) (Clause.symbolOf? u used) hop
    have hout := addReversed_outcome d ho hop
    rw [← heq] at hkept hincluded hout
    refine ⟨hkept, ?_, fun hb => ⟨hout hb, hexcl⟩⟩
    rcases hincluded with ⟨names, rfl, hj, hi⟩ | ⟨hno, hi⟩
    · rw [hi, union_eq_self_iff]
      constructor
      · rintro hall ⟨-, v, names', used', ho', n, hn, hnew⟩
        rw [ho] at ho'
        cases ho'
        exact hnew (hall n hn)
      · intro hlift n hn
        refine Decidable.byContradiction fun hnew => ?_
        exact hlift ⟨hj, u, names, used, ho, n, hn, hnew⟩
    · refine ⟨fun _ => ?_, fun _ => hi⟩
      rintro ⟨hj, v, names, used', ho', -⟩
      rw [ho] at ho'
      cases ho'
      exact absurd (hno names rfl) (by simp [hj])

/-- The general statement applies to "exclude any pharma" at the start of a query. -/
theorem advance_exclude_pharma :
    let t : Token := ⟨.keyword .exclude, "exclude", 0⟩
    let ts : List Token := [⟨.name, "any", 8⟩, ⟨.name, "pharma", 12⟩]
    t.content = .keyword .exclude ∧
      (Clause.sectorList ((t :: ts).drop (excludeLength (t :: ts))) true).1 = [] ∧
      ((advance Catalog.builtin {} t ts).included = ({} : Draft).included ↔
        ¬ LiftsSectors Catalog.builtin (t :: ts) {}) := by
  intro t ts
  have hs : (Clause.sectorList ((t :: ts).drop (excludeLength (t :: ts))) true).1 = [] := by
    decide +kernel
  exact ⟨rfl, hs, (advance_exclude Catalog.builtin {} t ts rfl hs).2.1⟩

end

/-! ## The flaw at work -/

/-- A word alone is no field if its name is none. -/
theorem fieldAt?_singleton {c : Catalog} {t : Token} (ht : t.isName = true)
    (h : Clause.fieldNamed? c t.word = none) : Clause.fieldAt? c [t] = none := by
  simp [Clause.fieldAt?, Clause.longest?, Clause.countdown, Clause.fieldWords, Clause.words?, ht, h]

theorem readWord_pharma (position : Nat) :
    let t : Token := ⟨.name, "pharma", position⟩
    Clause.readWord Catalog.builtin t [t] = (.sectors ["Pharma"] false, 1) := by
  intro t
  have hword : t.word = "pharma" := by show Text.lower "pharma" = _; decide +kernel
  have hfield : Clause.fieldAt? Catalog.builtin [t] = none := by
    refine fieldAt?_singleton rfl ?_
    rw [hword, Clause.fieldNamed?, Catalog.resolve?_pharma]
    rfl
  have hphrase : Clause.phrase? Catalog.builtin [t] = none := by
    have h : Vocabulary.phrase? (Clause.unhyphenated "pharma") = none := by decide +kernel
    simp [t, Clause.phrase?, Clause.longest?, Clause.countdown, Vocabulary.phraseWords, Clause.words?,
      Token.isName, hword, h]
  have hlist : Clause.sectorList [t] false = (["Pharma"], 1) := by
    have h : Sector.resolve? "pharma" false = some "Pharma" := by decide +kernel
    simp [t, Clause.sectorList, Clause.sectorsFrom, Clause.articleNext, Clause.sectorAt?,
      Clause.countdown, Clause.sectorWords, Clause.sectorTerm?, Token.isName, hword, h,
      Token.joinedText, Clause.anchorNext, Clause.separatorNext, Clause.sectorWord, Clause.nextIs]
  have hsuper : Vocabulary.superlatives.lookup "pharma" = none := by decide +kernel
  have hquality : Vocabulary.qualities.lookup "pharma" = none := by decide +kernel
  simp [Clause.readWord, hfield, hword, hsuper, hquality, hphrase, hlist, Clause.plainWord,
    Clause.sectorClause, Clause.orAhead, Clause.nextIs]

/-- An exclude word can change which sectors a query is about: "exclude any pharma", at the start of
a query, makes it one about pharma. -/
theorem not_forall_advance_exclude_included :
    ¬ ∀ (d : Draft) (t : Token) (ts : List Token), t.content = .keyword .exclude →
      (Clause.sectorList ((t :: ts).drop (excludeLength (t :: ts))) true).1 = [] →
      (d.advance Catalog.builtin t ts).included = d.included := by
  intro h
  let t : Token := ⟨.keyword .exclude, "exclude", 0⟩
  let ts : List Token := [⟨.name, "any", 8⟩, ⟨.name, "pharma", 12⟩]
  have hs : (Clause.sectorList ((t :: ts).drop (excludeLength (t :: ts))) true).1 = [] := by
    decide +kernel
  have hstart : (t :: ts).drop (operandStart (t :: ts)) = [⟨.name, "pharma", 12⟩] := by decide +kernel
  have ho : operand? Catalog.builtin (t :: ts) =
      some (⟨.name, "pharma", 12⟩, .sectors ["Pharma"] false, 1) := by
    unfold operand?
    rw [hstart]
    dsimp only [Token.isName]
    rw [readWord_pharma]
    rfl
  have hi := h {} t ts rfl hs
  rw [advance_exclude_eq rfl hs, ho] at hi
  have hsymbol : Clause.symbolOf? ⟨.name, "pharma", 12⟩ 1 = none := by decide +kernel
  simp only [hsymbol] at hi
  exact absurd hi (by decide +kernel)

end Draft
end EquityScreen
