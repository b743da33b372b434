/-
Which words a query leaves out as symbols.

Reading goes from clause to clause, with what was said so far (`Draft.Comes`). At an exclude word that no list of
sectors follows, the next word with a meaning is its operand.

* `ofTokens_symbols`: an operand in capitals that stands alone is left out as a symbol, and the filter of the plan says
  so; any other operand is turned round with its clause or reported. Unknown words stand alone.
* `not_forall_symbol_unknown`: known words are left out as symbols too.
-/
import EquityScreen.Proofs.Clause.Statement
import EquityScreen.Proofs.Draft.Symbols
import EquityScreen.Proofs.Query.Heuristics

namespace EquityScreen

open Clause (Known StandsAlone)

variable {c : Catalog} {d d' : Draft} {t u : Token} {ts rest more : List Token}

/-! ## From clause to clause -/

/-- Reading comes to what stands behind a statement and a comma. -/
theorem Draft.Comes.behind_statement (s : Clause.Statement) (ht : t.content = .comma) (rest : List Token) :
    ∃ d', Comes Catalog.builtin d' rest d (s.tokens ++ t :: rest) := by
  obtain ⟨u, more, htokens, -, hread⟩ := s.read
  have hvalueless : Clause.Valueless (t :: rest) := by
    rintro v ⟨⟩
    rw [Clause.isValue, ht]
  have hstatement : (Clause.read Catalog.builtin u (more ++ t :: rest)).used = s.tokens.length :=
    congrArg Reading.used (hread (t :: rest) hvalueless)
  have hcomma : (Clause.read Catalog.builtin t rest).used = 1 := by simp [Clause.read, ht]
  rw [htokens] at hstatement ⊢
  rw [List.cons_append]
  refine ⟨(d.advance Catalog.builtin u (more ++ t :: rest)).advance Catalog.builtin t rest, .later ?_⟩
  rw [hstatement, ← List.cons_append, List.drop_left]
  refine .later ?_
  rw [hcomma]
  exact .here

namespace Query

variable {tokens : List Token} {q : Query}

theorem breakdown_clauseTokens (h : ofTokens c tokens = .ok q) :
    (Draft.ofTokens c (clauseTokens tokens)).breakdown = none := by
  unfold clauseTokens
  rcases ofTokens_cases h with ⟨i, hi, -⟩ | ⟨hnone, d, rfl, ⟨e, -, h⟩ | ⟨-, -, h⟩ | ⟨hb, -, -⟩⟩
  · rw [hi]; rfl
  · exact absurd h nofun
  · exact absurd h nofun
  · rwa [hnone]

/-- **Which words are left out as symbols.** When tokens are read, and reading comes to an exclude word, its operand is
left out as a symbol exactly if it is in capitals and stands alone. It is no word without meaning; if it is unknown it
stands alone; left out as a symbol it is a part of the filter of the plan; and if it is not left out so, it is turned
round with its clause or reported. -/
theorem ofTokens_symbols (h : ofTokens c tokens = .ok q) (hcomes : Draft.Comes c d (t :: ts) {} (clauseTokens tokens))
    (ht : t.content = .keyword .exclude) :
    (Draft.SymbolLeftOut c (t :: ts) d (d.advance c t ts) ↔
      ∃ u more, Draft.OperandAt (t :: ts) u more ∧ u.Capital ∧ StandsAlone c d.joins u more) ∧
    ∀ u more, Draft.OperandAt (t :: ts) u more →
      Clause.isFiller u = false ∧ (¬ Known c u more → StandsAlone c d.joins u more) ∧
      (u.Capital → StandsAlone c d.joins u more →
        (Predicate.compare ⟨"symbol", .ne, .text (Text.upper (Text.trim u.text))⟩).Occurs q.plan.predicate) ∧
      (¬ (u.Capital ∧ StandsAlone c d.joins u more) →
        Draft.Complemented c (t :: ts) d (d.advance c t ts) ∨ Draft.Reported c (t :: ts) d (d.advance c t ts)) := by
  have hsymbol := @Draft.symbolLeftOut_iff c d t ts ht
  obtain ⟨left, hgather⟩ := hcomes.gather (Nat.le_refl _)
  refine ⟨hsymbol, fun u more hat => ⟨hat.not_filler, fun hknown => .of_unknown hknown hat.not_filler,
    fun hcapital halone => ?_, Draft.outcome_of_not_symbol ht hat ?_⟩⟩
  · obtain ⟨u', _, ho, -, -, hitems, -⟩ := hsymbol.2 ⟨u, more, hat, hcapital, halone⟩
    obtain rfl : u = u' := congrArg Prod.fst (Option.some.inj (hat.operand?.symm.trans ho))
    rw [(ofTokens_draft h).1]
    refine (Draft.ofTokens_narrow c (clauseTokens tokens)).occurs ?_
    rw [Draft.ofTokens, hgather]
    refine (Draft.continues_gather c left _ _).items.subset ?_
    rw [hitems]
    exact List.mem_append_right _ (List.mem_singleton_self _)
  · have hb := breakdown_clauseTokens h
    rw [Draft.ofTokens, hgather] at hb
    exact (Draft.continues_gather c left _ _).breakdown hb

/-! ## Queries that are read -/

/-- **A query that leaves out a symbol is read**, if none of its numbers is immense. -/
theorem ofTokens_of_symbol (hrequest : request? tokens = none) (hno : ¬ Clause.HasImmense (announced tokens).2)
    (hcomes : Draft.Comes c d (t :: ts) {} (clauseTokens tokens))
    (hsymbol : Draft.SymbolLeftOut c (t :: ts) d (d.advance c t ts)) : ∃ q, ofTokens c tokens = .ok q := by
  have hclauses : clauseTokens tokens = (announced tokens).2 := by rw [clauseTokens, hrequest]; rfl
  obtain ⟨left, hgather⟩ := hcomes.gather (Nat.le_refl _)
  have hcount : (Draft.ofTokens c (announced tokens).2).clauseCount ≠ 0 := by
    obtain ⟨-, -, -, -, -, -, hcounted, -⟩ := hsymbol
    have hle := (Draft.continues_gather c left ((t :: ts).drop (Clause.read c t ts).used) (d.advance c t ts)).clauseCount
    rw [← hclauses, Draft.ofTokens, hgather]
    omega
  rcases ofTokens_cases (r := ofTokens c tokens) rfl with ⟨i, hi, -⟩ | ⟨-, d', rfl, ⟨e, he, -⟩ | ⟨-, hzero, -⟩ | ⟨-, -, h⟩⟩
  · exact absurd (hrequest.symm.trans hi) (by simp)
  · exact absurd ((Draft.ofTokens_workable hno).symm.trans he) (by simp)
  · exact absurd hzero hcount
  · exact ⟨_, h⟩

/-- The tokens of "exclude TCS". -/
theorem ofTokens_symbols_tcs :
    let t : Token := ⟨.keyword .exclude, "exclude", 0⟩
    let u : Token := ⟨.name, "TCS", 8⟩
    ∃ q, ofTokens Catalog.builtin [t, u] = .ok q ∧ Draft.OperandAt [t, u] u [] ∧
      (Predicate.compare ⟨"symbol", .ne, .text "TCS"⟩).Occurs q.plan.predicate := by
  intro t u
  have hat : Draft.OperandAt [t, u] u [] := ⟨by decide +kernel, by decide +kernel, rfl⟩
  have hcapital : u.Capital := ⟨by decide +kernel, by decide +kernel⟩
  have hphrase : Clause.longest? Vocabulary.phraseWords (Vocabulary.phrase? <| Clause.unhyphenated ·) [u] = none := by
    decide +kernel
  have hsector : (Clause.sectorList [u] false).1 = [] := by decide +kernel
  have hclauses : clauseTokens [t, u] = [t, u] := by decide +kernel
  have hcomes : Draft.Comes Catalog.builtin {} [t, u] {} (clauseTokens [t, u]) := by rw [hclauses]; exact .here
  have hno : ¬ Clause.HasImmense (announced [t, u]).2 := by
    rintro ⟨v, hv, d, unit, currency, hcontent, -⟩
    obtain rfl | rfl : v = t ∨ v = u := by simpa [announced, t] using hv
    all_goals exact absurd hcontent nofun
  obtain ⟨q, hq⟩ := ofTokens_of_symbol (by decide +kernel) hno hcomes
    (Draft.symbolLeftOut_last rfl hat hcapital hphrase hsector)
  have htext : Text.upper (Text.trim u.text) = "TCS" := by decide +kernel
  exact ⟨q, hq, hat, htext ▸ ((ofTokens_symbols hq hcomes rfl).2 u [] hat).2.2.1 hcapital (.of_last hphrase hsector)⟩

/-- A known word can be left out as a symbol: "PE < 50, exclude ROE" leaves out the symbol ROE. -/
theorem not_forall_symbol_unknown :
    ¬ ∀ (tokens : List Token) (q : Query) (d : Draft) (t : Token) (ts : List Token) (u : Token) (more : List Token),
      ofTokens Catalog.builtin tokens = .ok q → Draft.Comes Catalog.builtin d (t :: ts) {} (clauseTokens tokens) →
      t.content = .keyword .exclude → Draft.SymbolLeftOut Catalog.builtin (t :: ts) d (d.advance Catalog.builtin t ts) →
      Draft.OperandAt (t :: ts) u more → ¬ Known Catalog.builtin u more := by
  intro h
  let name : Token := ⟨.name, "PE", 0⟩
  let sign : Token := ⟨.compare .lt, "<", 3⟩
  let amount : Token := ⟨.number ⟨false, 50, 0⟩ none false, "50", 5⟩
  let comma : Token := ⟨.comma, ",", 7⟩
  let t : Token := ⟨.keyword .exclude, "exclude", 9⟩
  let u : Token := ⟨.name, "ROE", 17⟩
  let tokens := [name, sign, amount, comma, t, u]
  have hclauses : clauseTokens tokens = tokens := by decide +kernel
  obtain ⟨d, hcomes⟩ : ∃ d, Draft.Comes Catalog.builtin d [t, u] {} (clauseTokens tokens) := by
    let pe : Field := Catalog.valuationFields[1]
    let s : Clause.Statement :=
      { field := pe, label := [name], sign := sign, op := .lt, amount := amount, value := ⟨false, 50, 0⟩, unit := none,
        currency := false, found := by decide +kernel, numeric := rfl, names := by simp [name, Token.isName],
        spelled := by decide +kernel, compares := rfl, single := by decide, counts := rfl }
    rw [hclauses]
    exact Draft.Comes.behind_statement s rfl [t, u]
  -- The word is the name of a field.
  obtain ⟨roe, hroe, hlabel⟩ : ∃ roe, Catalog.builtin.field? "roe" = some roe ∧ roe.label = "ROE" := by
    refine Option.map_eq_some_iff.1 (?_ : (Catalog.builtin.field? "roe").map (·.label) = some "ROE")
    decide +kernel
  have hwords : Clause.words? [u] [u].length = some ((Text.words roe.label).map Text.lower) := by
    rw [hlabel]
    decide +kernel
  have hfield : Clause.fieldAt? Catalog.builtin [u] = some (roe, [u].length) :=
    Clause.fieldAt?_label_words hroe (List.cons_ne_nil _ _) (by decide) hwords
  have hat : Draft.OperandAt [t, u] u [] := ⟨by decide +kernel, by decide +kernel, rfl⟩
  have hcapital : u.Capital := ⟨by decide +kernel, by decide +kernel⟩
  have hsymbol : Draft.SymbolLeftOut Catalog.builtin [t, u] d (d.advance Catalog.builtin t [u]) :=
    Draft.symbolLeftOut_last rfl hat hcapital (by decide +kernel) (by decide +kernel)
  have hno : ¬ Clause.HasImmense (announced tokens).2 := by
    rintro ⟨v, hv, value, unit, currency, hcontent, himmense⟩
    have hv : v ∈ tokens := hv
    obtain rfl : v = amount := by
      simp only [tokens, List.mem_cons, List.not_mem_nil, or_false] at hv
      rcases hv with rfl | rfl | rfl | rfl | rfl | rfl <;> first | rfl | exact absurd hcontent nofun
    obtain ⟨rfl, rfl, -⟩ := Content.number.inj hcontent
    rcases himmense with hlarge | ⟨mark, hmark⟩
    · exact absurd hlarge (by decide +kernel)
    · exact absurd hmark nofun
  obtain ⟨q, hq⟩ := ofTokens_of_symbol (by decide +kernel) hno hcomes hsymbol
  exact h tokens q d t [u] u [] hq hcomes rfl hsymbol hat (.field (by rw [hfield]; rfl))

end Query
end EquityScreen
