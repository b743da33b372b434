/-
Which words an exclude word leaves out as symbols.

* `symbolLeftOut_iff`: exactly a word in capitals that stands alone, behind an exclude word that no list of sectors
  follows; so every unknown word in capitals, and many a known one.
* `outcome_of_not_symbol`: a word that is not left out as a symbol is turned round with its clause, or reported.
-/
import EquityScreen.Proofs.Clause.Standalone
import EquityScreen.Proofs.Draft.Excluded

namespace EquityScreen

open Clause (excludeLength operandStart sectorList StandsAlone)

/-- A word in capitals, of letters and digits. -/
def Token.Capital (t : Token) : Prop :=
  Text.isUpper t.text = true ∧ t.text.toList.all Text.isQueryAlnum = true

theorem Clause.symbolOf?_isSome {t : Token} {used : Nat} : (symbolOf? t used).isSome = true ↔ used = 1 ∧ t.Capital := by
  unfold symbolOf? Token.Capital
  split
  · next h => simpa [and_assoc] using h
  · next h => exact iff_of_false nofun (by simpa [and_assoc] using h)

namespace Draft

variable {c : Catalog} {d : Draft} {t u : Token} {ts more : List Token}

/-! ## Operands turned round -/

section
variable {operand : Clause} {phrase : String} {symbol : Option String}

/-- An operand that adds a filter, or at which reading stops, is not replaced by a symbol. -/
theorem items_of_acts (h : operand.Acts d.joins) :
    (d.add operand).items ≠ d.items ∨ (d.addReversed phrase symbol operand).items = d.items := by
  cases operand with
  | filter p => exact .inl (by simp [add, addFilter])
  | heuristic text p => exact .inl (by simp [add, addHeuristic, addFilter])
  | sectors names beforeOr =>
    replace h : (d.joins || beforeOr) = true := h
    exact .inl (by simp [add, addSectors, addFilter, h])
  | breakdown e => exact .inr rfl
  | mark | excludedSectors | order | limit | filler | skipped | reversed => exact absurd h id

/-- Any other operand adds no item, and has no opposite. -/
theorem addReversed_of_not_acts (hoperand : operand.IsOperand) (h : ¬ operand.Acts d.joins) (phrase : String)
    (symbol : Option String) : (d.add operand).items = d.items ∧ ∃ d₁ reason,
      d.addReversed phrase symbol operand = withoutOpposite d₁ phrase reason symbol ∧ d₁.items = d.items ∧
      d₁.clauseCount = d.clauseCount ∧ d₁.skipped = d.skipped ∧ d₁.heuristics = d.heuristics := by
  cases operand with
  | filter | heuristic | breakdown => exact absurd trivial h
  | sectors names beforeOr =>
    replace h : ¬ (d.joins || beforeOr) = true := h
    simp only [add, addSectors, addReversed, if_neg h]
    exact ⟨rfl, _, _, rfl, rfl, rfl, rfl, rfl⟩
  | order | filler | skipped => exact ⟨rfl, d, _, rfl, rfl, rfl, rfl, rfl⟩
  | mark | excludedSectors | limit | reversed => exact absurd hoperand id

/-- **The operand of an exclude word is left out as a symbol** exactly if it is one word in capitals and does nothing. -/
theorem symbolLeftOut_operand {used : Nat} (ho : Clause.operand? c ts = some (u, operand, used)) :
    SymbolLeftOut c ts d (d.addReversed (Clause.exclusionText c ts) (Clause.symbolOf? u used) operand) ↔
      used = 1 ∧ u.Capital ∧ ¬ operand.Acts d.joins := by
  have hoperand := Clause.operand?_isOperand ho
  rw [← and_assoc, ← Clause.symbolOf?_isSome]
  constructor
  · rintro ⟨u', operand', ho', hadd, -, hitems, -⟩
    obtain ⟨rfl, rfl, rfl⟩ : u = u' ∧ operand = operand' ∧ used = 1 := by simpa [ho] using ho'
    have hnew : (d.addReversed (Clause.exclusionText c ts) (Clause.symbolOf? u 1) operand).items ≠ d.items := by
      simp [hitems]
    have hidle : ¬ operand.Acts d.joins := fun h => (items_of_acts h).elim (· hadd) hnew
    refine ⟨?_, hidle⟩
    obtain ⟨-, d₁, reason, heq, hsame, -⟩ :=
      addReversed_of_not_acts hoperand hidle (Clause.exclusionText c ts) (Clause.symbolOf? u 1)
    cases hsymbol : Clause.symbolOf? u 1 with
    | some symbol => rfl
    | none =>
      rw [hsymbol] at heq hnew
      exact absurd ((congrArg items heq).trans hsame) hnew
  · rintro ⟨hsymbol, hidle⟩
    obtain ⟨hadd, d₁, reason, heq, hitems, hcount, hskipped, hheuristics⟩ :=
      addReversed_of_not_acts hoperand hidle (Clause.exclusionText c ts) (Clause.symbolOf? u used)
    rw [heq]
    refine (withoutOpposite_outcome ho hadd hitems hcount hskipped hheuristics).resolve_right fun hreported => ?_
    obtain ⟨symbol, hsymbol⟩ := Option.isSome_iff_exists.1 hsymbol
    have hnew := hreported.1
    rw [hsymbol] at hnew
    simp [withoutOpposite, addFilter, hitems] at hnew

end

/-! ## Exclude words -/

/-- An ordinary word is the operand of an exclude word that no list of sectors follows. -/
structure OperandAt (ts : List Token) (u : Token) (more : List Token) : Prop where
  noSectors : (sectorList (ts.drop (excludeLength ts)) true).1 = []
  here : ts.drop (operandStart ts) = u :: more
  word : u.content = .name

theorem OperandAt.operand? (h : OperandAt ts u more) :
    Clause.operand? c ts = some (u, Clause.readWord c u (u :: more)) := by
  rw [Clause.operand?, h.here]
  exact if_pos (by simp [Token.isName, h.word])

theorem operandAt_of_operand? {r : Clause × Nat} (hs : (sectorList (ts.drop (excludeLength ts)) true).1 = [])
    (ho : Clause.operand? c ts = some (u, r)) : ∃ more, OperandAt ts u more ∧ r = Clause.readWord c u (u :: more) := by
  unfold Clause.operand? at ho
  split at ho
  · exact absurd ho nofun
  · next v more hdrop =>
    split at ho
    · next hname =>
      obtain ⟨rfl, rfl⟩ := Prod.mk.inj (Option.some.inj ho)
      exact ⟨more, ⟨hs, hdrop, by simpa [Token.isName] using hname⟩, rfl⟩
    · exact absurd ho nofun

/-- Words without meaning are passed over in front of an operand. -/
theorem OperandAt.not_filler (h : OperandAt ts u more) : Clause.isFiller u = false := by
  have hrest : (ts.drop (excludeLength ts)).dropWhile Clause.isFiller = u :: more := by
    rw [← h.here, operandStart, ← List.drop_drop, Clause.drop_takeWhile_length]
  have hhead := List.head?_dropWhile_not Clause.isFiller (ts.drop (excludeLength ts))
  rwa [hrest] at hhead

theorem OperandAt.unique {u' : Token} {more' : List Token} (h : OperandAt ts u more) (h' : OperandAt ts u' more') :
    u = u' ∧ more = more' := List.cons.inj (h.here.symm.trans h'.here)

/-- **A word is left out as a symbol** exactly if it is in capitals and stands alone. -/
theorem symbolLeftOut_iff (ht : t.content = .keyword .exclude) :
    SymbolLeftOut c (t :: ts) d (d.advance c t ts) ↔
      ∃ u more, OperandAt (t :: ts) u more ∧ u.Capital ∧ StandsAlone c d.joins u more := by
  by_cases hs : (sectorList ((t :: ts).drop (excludeLength (t :: ts))) true).1 = []
  · rw [advance_exclude_eq ht hs]
    cases ho : Clause.operand? c (t :: ts) with
    | none =>
      refine iff_of_false (fun ⟨_, _, ho', _⟩ => absurd (ho.symm.trans ho') nofun) ?_
      rintro ⟨u, more, hat, -⟩
      exact absurd (ho.symm.trans hat.operand?) nofun
    | some found =>
      obtain ⟨u, operand, used⟩ := found
      obtain ⟨more, hat, hread⟩ := operandAt_of_operand? hs ho
      have halone := @Clause.standsAlone_iff c u more d.joins
      rw [← hread] at halone
      refine (symbolLeftOut_operand ho).trans ⟨fun ⟨hused, hcapital, hidle⟩ => ?_, ?_⟩
      · exact ⟨u, more, hat, hcapital, halone.2 ⟨hused, hidle⟩⟩
      · rintro ⟨u', more', hat', hcapital, hstands⟩
        obtain ⟨rfl, rfl⟩ := hat.unique hat'
        obtain ⟨hused, hidle⟩ := halone.1 hstands
        exact ⟨hused, hcapital, hidle⟩
  · refine iff_of_false ?_ fun ⟨_, _, hat, _⟩ => hs hat.noSectors
    rintro ⟨_, _, _, _, _, hitems, _⟩
    rw [advance, Clause.read_exclude ht hs] at hitems
    simp [add, counted] at hitems

/-- **The last word**, if it is in capitals and is no sector and no phrase, is left out as a symbol, also where it is the
name of a field. -/
theorem symbolLeftOut_last (ht : t.content = .keyword .exclude) (hat : OperandAt (t :: ts) u []) (hcapital : u.Capital)
    (hphrase : Clause.longest? Vocabulary.phraseWords (Vocabulary.phrase? <| Clause.unhyphenated ·) [u] = none)
    (hsector : (sectorList [u] false).1 = []) : SymbolLeftOut c (t :: ts) d (d.advance c t ts) :=
  (symbolLeftOut_iff ht).2 ⟨u, [], hat, hcapital, .of_last hphrase hsector⟩

/-- **Any other word** is turned round with its clause, or reported. -/
theorem outcome_of_not_symbol (ht : t.content = .keyword .exclude) (hat : OperandAt (t :: ts) u more)
    (hbreakdown : (d.advance c t ts).breakdown = none) (h : ¬ (u.Capital ∧ StandsAlone c d.joins u more)) :
    Complemented c (t :: ts) d (d.advance c t ts) ∨ Reported c (t :: ts) d (d.advance c t ts) := by
  have hnot : ¬ SymbolLeftOut c (t :: ts) d (d.advance c t ts) := by
    rw [symbolLeftOut_iff ht]
    rintro ⟨u', more', hat', hu⟩
    obtain ⟨rfl, rfl⟩ := hat.unique hat'
    exact h hu
  have hcases := ((advance_exclude c d t ts ht hat.noSectors).2.2 hbreakdown).1
  exact hcases.imp_right fun hrest => hrest.resolve_left hnot

end Draft
end EquityScreen
