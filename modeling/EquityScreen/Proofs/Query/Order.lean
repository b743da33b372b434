/-
The order of a plan in words.

A sentence ends with the order of its plan, and with a limit where there is one (`Plan.sentence_ordered`), and what
stands in front of them is legible unless a text has a double quote in it (`Plan.WellFormed.legible_parts`). Cutting
the sentence therefore comes to stand before the order, unless it fails in front of it, and the order is read whatever
was read until then (`parse_ordered`). So a query for the sentence has the order of the plan, unless the order is by the
sector, whose label is a keyword, or the sentence can be taken for a call for help, or a text exposes what cannot be
read (`parse_order`).
-/
import EquityScreen.Proofs.Draft.Ordered
import EquityScreen.Proofs.Query.Sentence
import EquityScreen.Proofs.Token.Parting
import EquityScreen.Proofs.Wording.Legible

namespace EquityScreen

open Draft (orderedSaid orderedText)
open Scan (Spells Unclosing closingQuotes openingWords wordSaid)
open Text (joined)

variable {c : Catalog} {style : CurrencyStyle} {plan : Plan} {f : Field} {key : String} {direction : Direction}
  {limit : Option Nat} {fromBottom : Bool} {body text : String} {q : Query}

/-! ## What a sentence ends with -/

theorem Text.joined_append_cons (separator : String) {texts : List String} (h : texts ≠ []) (s : String) (more : List String) :
    joined separator (texts ++ s :: more) = joined separator texts ++ separator ++ joined separator (s :: more) := by
  refine String.toList_injective ?_
  rw [joined_append separator h, if_neg (List.cons_ne_nil _ _), String.toList_append, String.toList_append, List.append_assoc]

/-- **A sentence ends with the order** of its plan, and with a limit where there is one. -/
theorem Plan.sentence_ordered {o : Ranking} (hsort : plan.sort = some o) (hf : c.field? o.field = some f)
    (hlimit : plan.limit = limit.map Int.ofNat) (h : plan.sentence c style = .ok text) :
    ∃ texts, wordedAll c style (c.arranged (Outline.ofPredicate plan.predicate).rest) = .ok texts ∧
      let parts := filterPart texts ++ includedPart (Outline.ofPredicate plan.predicate).included ++
        excludedPart (Outline.ofPredicate plan.predicate).excluded
      text = opening ++ (joined ", " (if parts.isEmpty then [allSecurities] else parts) ++ ", " ++
        orderedText f o.direction limit plan.fromBottom) := by
  unfold sentence at h
  simp only [Except.bind_ok_iff, Except.pure_ok_iff] at h
  obtain ⟨texts, htexts, order, horder, rfl⟩ := h
  refine ⟨texts, htexts, ?_⟩
  intro parts
  have hne : (if parts.isEmpty then [allSecurities] else parts) ≠ [] := by
    split
    · exact List.cons_ne_nil _ _
    · next hparts => simpa using hparts
  simp only [hsort, orderPart, Catalog.named, hf, Except.map, Except.ok.injEq] at horder
  rw [← horder, List.append_assoc, List.singleton_append, Text.joined_append_cons ", " hne, hlimit]
  rfl

/-- Filters and sectors of a well-formed plan in words are legible, unless a text has a double quote in it. -/
theorem Plan.WellFormed.legible_parts (h : plan.WellFormed Catalog.builtin) (hquote : plan.predicate.Every Comparison.Unquoted)
    {texts : List String}
    (hw : wordedAll Catalog.builtin style (Catalog.builtin.arranged (Outline.ofPredicate plan.predicate).rest) = .ok texts) :
    let parts := filterPart texts ++ includedPart (Outline.ofPredicate plan.predicate).included ++
      excludedPart (Outline.ofPredicate plan.predicate).excluded
    Legible (joined ", " (if parts.isEmpty then [allSecurities] else parts)) :=
  .parts ((Outline.wellFormed_ofPredicate h.predicate).legible_parts (Outline.every_rest.2 hquote) hw)

theorem unclosing_append {s t : String} (hs : Unclosing s.toList) (ht : Unclosing t.toList) : Unclosing (s ++ t).toList := by
  rw [String.toList_append]
  exact List.forall_mem_append.2 ⟨hs, ht⟩

/-- Nothing in an order or a limit closes a quote. -/
theorem unclosing_ordered (hf : f ∈ Catalog.builtinFields) : Unclosing (orderedText f direction limit fromBottom).toList := by
  have hlabels : ∀ f ∈ Catalog.builtinFields, Unclosing f.label.toList := by decide +kernel
  have hdirection : Unclosing direction.word.toList := by cases direction <;> decide
  have horder : Unclosing ("sorted by " ++ f.label ++ " " ++ direction.word).toList :=
    unclosing_append (unclosing_append (unclosing_append (by decide) (hlabels f hf)) (by decide)) hdirection
  cases limit with
  | none => exact horder
  | some n =>
    have hcount : Unclosing (toString (n : Int)).toList := fun c hc => by
      have hchars : (toString (n : Int)).toList = Nat.toDigits 10 n := by
        show (Nat.repr n).toList = _
        rw [Nat.repr, String.toList_ofList]
      have hdigit := Decimal.digits_toDigits n c (hchars ▸ hc)
      have hno : ∀ c ∈ closingQuotes, c.isDigit = false := by simp [closingQuotes]
      exact fun hclosing => absurd (hdigit.symm.trans (hno c hclosing)) (by decide)
    have hend : Unclosing (Draft.endWord fromBottom).toList := by cases fromBottom <;> decide
    exact unclosing_append (unclosing_append horder (by decide)) (unclosing_append (unclosing_append (unclosing_append
      (by decide) hend) (by decide)) hcount)

namespace Query

/-- The plan of a query is well-formed, unless it is that of a request. -/
theorem parse_wellFormed (hc : c.Regular) (h : parse c text = .ok q) : q.plan = {} ∨ q.plan.WellFormed c := by
  rcases parse_cases h with h | h | ⟨e, -, h⟩ | ⟨ts, -, ⟨q', hq', h⟩ | ⟨e, -, h⟩⟩
  · exact .inl (by rw [Except.ok.inj h])
  · exact .inl (by rw [Except.ok.inj h])
  · exact absurd h (by simp)
  · rw [Except.ok.inj h]
    rcases ofTokens_cases hq' with ⟨i, -, h⟩ | ⟨-, d, rfl, ⟨e, -, h⟩ | ⟨-, -, h⟩ | ⟨-, hcount, h⟩⟩
    · exact .inl (by rw [Except.ok.inj h])
    · exact absurd h (by simp)
    · exact absurd h (by simp)
    · rw [Except.ok.inj h]
      exact .inr ((Draft.ofTokens_sound hc _).plan_wellFormed hcount)
  · exact absurd h (by simp)

section Ordered

variable (hf : Catalog.builtin.field? key = some f) (hk : f.kind ≠ .sector) (hlimit : ∀ n ∈ limit, n ≠ 0)
include hf hk hlimit

/-- **A sentence whose tokens end with an order** is read with the order, unless a number in front of it cannot be
worked out. -/
theorem parse_ordered {pre ts : List Token} {comma : Token} (hhelp : asksForHelp (opening ++ body).toList = false)
    (ht : tokenize (opening ++ body) = .ok (pre ++ comma :: ts)) (hcomma : comma.content = .comma)
    (hts : ts.map Token.said = orderedSaid f direction limit fromBottom) :
    (∃ q, parse Catalog.builtin (opening ++ body) = .ok q ∧ q.intent = .newScreen ∧ q.plan.sort = some ⟨key, direction⟩) ∨
      (∃ e, parse Catalog.builtin (opening ++ body) = .error (.lex e)) ∧ Clause.HasImmense pre := by
  obtain ⟨hsort, hcount, hworkable⟩ := Draft.ofTokens_ordered hf hk hlimit hcomma hts
  have hparse := parse_tokens (c := Catalog.builtin) hhelp (asksToClear_sentence body) ht
  have hannounced := announced_sentence ht
  have hrequest : request? (pre ++ comma :: ts) = none := by
    obtain ⟨us, vs, rfl, hus, -⟩ := List.map_eq_append_iff.1 hts
    obtain ⟨t, more, rfl, ht, -⟩ := Draft.read_order hf hk hus
    exact request?_of_mem (t := t) (by simp) (by simp [Clause.isFiller, Token.isName, ht]) (by simp [Token.isKeyword, ht])
      (by simp [Token.isKeyword, ht])
  cases hbreakdown : (Draft.ofTokens Catalog.builtin (pre ++ comma :: ts)).breakdown with
  | none =>
    have htokens := ofTokens_announced hrequest hannounced rfl hbreakdown hcount
    exact .inl ⟨_, by rw [hparse, htokens]; rfl, rfl, hsort⟩
  | some e =>
    refine .inr ⟨⟨.breakdown e, ?_⟩, Classical.byContradiction fun hno => ?_⟩
    · have htokens : ofTokens Catalog.builtin (pre ++ comma :: ts) = .error (.lex (.breakdown e)) := by
        unfold ofTokens
        simp only [hrequest, hannounced, hbreakdown]
      rw [hparse, htokens]
      rfl
    · exact absurd (hbreakdown.symm.trans (hworkable hno)) (by simp)

/-- Behind legible text, the order is read. -/
theorem parse_legible_ordered {front : String} (hfront : Legible front)
    (hhelp : asksForHelp (opening ++ (front ++ ", " ++ orderedText f direction limit fromBottom)).toList = false) :
    ∃ q, parse Catalog.builtin (opening ++ (front ++ ", " ++ orderedText f direction limit fromBottom)) = .ok q ∧
      q.intent = .newScreen ∧ q.plan.sort = some ⟨key, direction⟩ := by
  obtain ⟨said, hsaid, hmild⟩ := hfront
  have hspells := hsaid.comma (Draft.spells_ordered hf hk direction limit fromBottom)
  have hchars : (front ++ ", " ++ orderedText f direction limit fromBottom).toList =
      front.toList ++ ',' :: ' ' :: (orderedText f direction limit fromBottom).toList := by
    rw [String.toList_append, String.toList_append, List.append_assoc]
    rfl
  rw [← hchars] at hspells
  obtain ⟨tokens, htokens, hsaid⟩ := tokenize_sentence hspells
  rw [← List.append_assoc] at hsaid
  obtain ⟨pre, us, rfl, hpre, hus⟩ := List.map_eq_append_iff.1 hsaid
  obtain ⟨comma, ts, rfl, hcomma, hts⟩ := List.map_eq_cons_iff.1 hus
  refine (parse_ordered hf hk hlimit hhelp htokens (Prod.mk.inj hcomma).1 hts).resolve_right fun hbroken => ?_
  obtain ⟨-, t, hmem, d, unit, currency, hcontent, himmense⟩ := hbroken
  have hall : ∀ x ∈ openingWords.map wordSaid ++ said, Scan.Mild x := List.forall_mem_append.2 ⟨Scan.mild_words _, hmild⟩
  exact hall t.said (hpre ▸ List.mem_map_of_mem hmem) d unit currency hcontent himmense

/-- Behind any text, the order is read unless what stands in front of it cannot be. -/
theorem parse_any_ordered (front : String)
    (hhelp : asksForHelp (opening ++ (front ++ ", " ++ orderedText f direction limit fromBottom)).toList = false) :
    (∃ q, parse Catalog.builtin (opening ++ (front ++ ", " ++ orderedText f direction limit fromBottom)) = .ok q ∧
      q.intent = .newScreen ∧ q.plan.sort = some ⟨key, direction⟩) ∨
      ∃ e, parse Catalog.builtin (opening ++ (front ++ ", " ++ orderedText f direction limit fromBottom)) = .error (.lex e) := by
  have hspells := Draft.spells_ordered hf hk direction limit fromBottom
  have hmem : f ∈ Catalog.builtinFields := Catalog.fields_ofFields Catalog.builtinFields ▸ Catalog.mem_fields_of_field? hf
  generalize hbody : front ++ ", " ++ orderedText f direction limit fromBottom = body at *
  have hfollowing : (opening ++ body).toList = (opening.toList ++ front.toList) ++ ',' :: ' ' ::
      (orderedText f direction limit fromBottom).toList := by
    rw [← hbody]
    simp
  rcases Scan.Place.tokens_parted (p := ⟨none, 0, (opening ++ body).toList⟩) (unclosing_ordered hmem) hspells hfollowing with
    ⟨e, he⟩ | ⟨pre, comma, ts, htokens, hcomma, hts⟩
  · refine .inr ⟨.spelling e, ?_⟩
    simp only [parse, hhelp, asksToClear_sentence, (tokenize_opening body).trans he, Bool.false_eq_true, if_false]
  · exact (parse_ordered hf hk hlimit hhelp ((tokenize_opening body).trans htokens) hcomma hts).imp_right And.left

end Ordered

/-- **The order of a plan survives** its being put into words: a query for the sentence has the same order, unless it
is by the sector or the sentence can be taken for a call for help. Only where a text in the plan has a double quote in
it can the sentence fail to be read. -/
theorem parse_order (h : parse Catalog.builtin text = .ok q) {o : Ranking} (hsort : q.plan.sort = some o) {d : String}
    (hd : q.plan.sentence Catalog.builtin style = .ok d) (hsector : o.field ≠ "sector")
    (hhelp : asksForHelp d.toList = false) :
    (∃ q', parse Catalog.builtin d = .ok q' ∧ q'.intent = .newScreen ∧ q'.plan.sort = some o) ∨
      (∃ e, parse Catalog.builtin d = .error (.lex e)) ∧ ¬ q.plan.predicate.Every Comparison.Unquoted := by
  have hplan : q.plan.WellFormed Catalog.builtin := (parse_wellFormed regular_builtin h).resolve_left fun hempty => by
    rw [hempty] at hsort
    exact absurd hsort (by simp)
  obtain ⟨f, hf⟩ := Option.isSome_iff_exists.1 (hplan.sort o hsort)
  have hk : f.kind ≠ .sector := fun hk => hsector <| by
    rw [← Catalog.key_of_field? hf]
    exact (regular_builtin.sector f (Catalog.mem_fields_of_field? hf)).1 hk
  obtain ⟨limit, hlimit, hpositive⟩ : ∃ limit : Option Nat, q.plan.limit = limit.map Int.ofNat ∧ ∀ n ∈ limit, n ≠ 0 := by
    refine ⟨q.plan.limit.map Int.toNat, ?_, fun n hn => ?_⟩
    · cases hl : q.plan.limit with
      | none => rfl
      | some n => exact congrArg some (Int.toNat_of_nonneg (Int.le_of_lt (hplan.limit n hl))).symm
    · obtain ⟨m, hm, rfl⟩ := Option.map_eq_some_iff.1 hn
      have := hplan.limit m hm
      omega
  obtain ⟨texts, htexts, rfl⟩ := Plan.sentence_ordered hsort hf hlimit hd
  by_cases hquote : q.plan.predicate.Every Comparison.Unquoted
  · exact .inl (parse_legible_ordered hf hk hpositive (hplan.legible_parts hquote htexts) hhelp)
  · exact (parse_any_ordered hf hk hpositive _ hhelp).imp_right fun he => ⟨he, hquote⟩

/-- Companies of some size by return on equity. -/
theorem parse_order_roe :
    let text := "Mcap > 5B sorted by ROE"
    let d := "Screening for: Mcap > 5B, sorted by ROE descending"
    ∃ q, parse Catalog.builtin text = .ok q ∧ q.plan.sort = some ⟨"roe", .descending⟩ ∧
      q.plan.sentence Catalog.builtin .western = .ok d ∧ asksForHelp d.toList = false ∧
      ∃ q', parse Catalog.builtin d = .ok q' ∧ q'.intent = .newScreen ∧ q'.plan.sort = some ⟨"roe", .descending⟩ := by
  intro text d
  let cmp : Comparison := ⟨"mcap", .gt, .number (.int 5000000000)⟩
  let plan : Plan := { predicate := .compare cmp, sort := some ⟨"roe", .descending⟩ }
  have hread : (parse Catalog.builtin text).toOption.map (·.plan) = some plan := by decide +kernel
  obtain ⟨q, hq, hplan⟩ := Option.map_eq_some_iff.1 hread
  have hq := Except.toOption_eq_some.1 hq
  have hsort : q.plan.sort = some ⟨"roe", .descending⟩ := by rw [hplan]
  have hd : q.plan.sentence Catalog.builtin .western = .ok d := by
    have hamount : Comparison.worded Catalog.builtin .western cmp = .ok "Mcap > 5B" :=
      Except.toOption_eq_some.1 (by decide +kernel)
    have horder : orderPart Catalog.builtin plan.sort = .ok ["sorted by ROE descending"] :=
      Except.toOption_eq_some.1 (by decide +kernel)
    have houtline : Outline.ofPredicate plan.predicate = { rest := [.compare cmp] } := rfl
    have hwords : wordedAll Catalog.builtin .western [.compare cmp] = .ok ["Mcap > 5B"] := by
      rw [wordedAll, List.mapM_cons, List.mapM_nil, Predicate.worded, hamount]
      rfl
    rw [hplan, Plan.sentence, houtline]
    dsimp only
    rw [Catalog.arranged, List.mergeSort_singleton, hwords, horder]
    rfl
  have hhelp : asksForHelp d.toList = false := by decide +kernel
  have hunquoted : q.plan.predicate.Every Comparison.Unquoted := by
    rw [hplan, Predicate.every_compare]
    exact fun s hs => Value.noConfusion hs
  rcases parse_order hq hsort hd (by decide) hhelp with hsame | ⟨-, hquoted⟩
  · exact ⟨q, hq, hsort, hd, hhelp, hsame⟩
  · exact absurd hunquoted hquoted

/-- The label of the sector is a keyword, so nothing is understood of an order by it. -/
theorem parse_sector_order (q : Query) :
    parse Catalog.builtin "Screening for: all securities, sorted by Sector descending" ≠ .ok q := by
  let framing : List Token := [⟨.name, "Screening", 0⟩, ⟨.name, "for", 10⟩, ⟨.name, "all", 15⟩, ⟨.name, "securities", 19⟩]
  let ordered : List Token := [⟨.comma, ",", 29⟩, ⟨.keyword .sort, "sorted", 31⟩, ⟨.keyword .by, "by", 38⟩,
    ⟨.keyword .sector, "Sector", 41⟩, ⟨.keyword .descending, "descending", 48⟩]
  have htokens : tokenize "Screening for: all securities, sorted by Sector descending" = .ok (framing ++ ordered) :=
    Except.toOption_eq_some.1 (by decide +kernel)
  have hdraft : Draft.ofTokens Catalog.builtin (framing ++ ordered) = Draft.gather Catalog.builtin ordered.length ordered {} :=
    Draft.gather_framing (by decide : ∀ w ∈ ["Screening", "for", "all", "securities"], w ∈ Catalog.framing)
      (by decide) {} ordered ordered.length
  have hcount : (Draft.gather Catalog.builtin ordered.length ordered {}).clauseCount = 0 := by decide +kernel
  have hrequest : request? (framing ++ ordered) = none := by decide +kernel
  intro h
  rw [parse_tokens (by decide +kernel) (by decide +kernel) htokens] at h
  obtain ⟨q', hq', -⟩ := Except.map_ok_iff.1 h
  rcases ofTokens_cases hq' with ⟨i, hi, -⟩ | ⟨-, d, hd, ⟨e, -, h⟩ | ⟨-, -, h⟩ | ⟨-, hne, -⟩⟩
  · exact absurd (hrequest.symm.trans hi) (by simp)
  · exact absurd h (by simp)
  · exact absurd h (by simp)
  · exact hne (hd ▸ hdraft ▸ hcount)

/-- A text whose order does not survive. -/
theorem not_forall_parse_order :
    ¬ ∀ (text : String) (q : Query) (o : Ranking) (style : CurrencyStyle) (d : String), parse Catalog.builtin text = .ok q →
      q.plan.sort = some o → q.plan.sentence Catalog.builtin style = .ok d →
      ∃ q', parse Catalog.builtin d = .ok q' ∧ q'.plan.sort = some o := by
  intro h
  let plan : Plan := { sort := some ⟨"sector", .descending⟩ }
  have hread : (parse Catalog.builtin "sorted by sect").toOption.map (·.plan) = some plan := by decide +kernel
  obtain ⟨q, hq, hplan⟩ := Option.map_eq_some_iff.1 hread
  have hd : plan.sentence Catalog.builtin .western = .ok "Screening for: all securities, sorted by Sector descending" := by
    have horder : orderPart Catalog.builtin plan.sort = .ok ["sorted by Sector descending"] :=
      Except.toOption_eq_some.1 (by decide +kernel)
    have houtline : Outline.ofPredicate plan.predicate = {} := rfl
    rw [Plan.sentence, houtline]
    dsimp only
    rw [Catalog.arranged, List.mergeSort_nil, horder]
    rfl
  obtain ⟨q', hq', -⟩ := h _ q ⟨"sector", .descending⟩ .western _ (Except.toOption_eq_some.1 hq) (by rw [hplan])
    (by rw [hplan]; exact hd)
  exact parse_sector_order q' hq'

end Query

end EquityScreen
