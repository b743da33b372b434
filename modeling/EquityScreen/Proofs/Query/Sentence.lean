/-
A plan in words is a query for the plan.

The frame of a sentence is cut into words without effect (`Scan.Spells.opening`, `tokenize_preface`), and what
stands in it adds up to the plan (`Plan.Writable.adds`). So the sentence is read as the plan, without loss and
without a guess, and with the preface of a refinement it is read as that refinement
(`Plan.Writable.parse_sentence`).
-/
import EquityScreen.Proofs.Draft.Sentence
import EquityScreen.Proofs.Token.Crossing
import EquityScreen.Proofs.Wording.Sentence

namespace EquityScreen

open Text (joined)

/-! ## Cutting the frame -/

namespace Scan

variable {rest : List Char} {said : List (Content × String)}

/-- Words in front of what stops them. -/
theorem Cuts.words (h : Cuts rest said) (hrest : Stops rest) (ws : List String) (hne : ws ≠ [])
    (hws : ∀ w ∈ ws, isSpelled w.toList = true) :
    Cuts ((joined " " ws).toList ++ rest) (ws.map wordSaid ++ said) :=
  (Crosses.words ws hne hws hrest).cuts h

/-- No piece begins with a colon. -/
theorem piece?_colon (before : Option Char) (rest : List Char) : piece? before (':' :: rest) = none := by
  have hword : word? (':' :: rest) = none := by
    rw [word?, if_neg (by decide)]
  rw [piece?_of_punctuation (by decide), sign?_eq_none (by decide), phrase?_of_sign (by decide), hword]
  rfl

/-- A colon is passed over. -/
theorem Cuts.colon (h : Cuts rest said) : Cuts (':' :: rest) said := h.skip fun before => piece?_colon before rest

/-- A full stop before a blank is passed over. -/
theorem Cuts.stop (h : Cuts (' ' :: rest) said) : Cuts ('.' :: ' ' :: rest) said := h.idle (by decide) rfl

/-- The words that a sentence begins with. -/
def openingWords : List String := ["Screening", "for"]

/-- The words in the preface of a refinement. -/
def prefaceWords : List String := ["refinement", "of", "previous", "results"]

/-- **What a sentence begins with** is cut into its words. -/
theorem Spells.opening {body : String} (h : Spells body.toList said) :
    Cuts (opening ++ body).toList (openingWords.map wordSaid ++ said) := by
  have hbody : Cuts (':' :: ' ' :: body.toList) said := by
    have hall := h.all
    rw [← List.append_nil body.toList] at hall ⊢
    exact (hall.blank_visible h.visible).colon
  have hwords := hbody.words (stops_cons (by decide)) openingWords (List.cons_ne_nil _ _) (by decide)
  have hchars : (EquityScreen.opening ++ body).toList = (joined " " openingWords).toList ++ ':' :: ' ' :: body.toList := by
    rw [String.toList_append]
    rfl
  rwa [hchars]

/-- A refinement mark before a blank. -/
theorem refinement?_of_digits {ds : List Char} (hds : Digits ds) (hne : ds ≠ []) (rest : List Char) :
    ∃ t, refinement? ('+' :: (ds ++ ' ' :: rest)) = some (t, ' ' :: rest) ∧ t.content = .refinement (Text.digitsValue ds) := by
  have hdigits : ∀ c ∈ ds, Text.isDigit c = true := fun c hc => (figure_of_isDigit (hds c hc)).digit
  have htake : (ds ++ ' ' :: rest).takeWhile Text.isDigit = ds := by
    rw [List.takeWhile_append_of_pos hdigits, List.takeWhile_cons_of_neg (by decide), List.append_nil]
  have hdrop : (ds ++ ' ' :: rest).dropWhile Text.isDigit = ' ' :: rest := by
    rw [List.dropWhile_append_of_pos hdigits, List.dropWhile_cons_of_neg (by decide)]
  rw [refinement?, List.dropWhile_cons_of_neg (by decide)]
  simp only [htake, hdrop]
  rw [if_neg (by simp [hne, pauses]; decide)]
  exact ⟨_, rfl, rfl⟩

end Scan

open Scan (Spells Cuts wordSaid openingWords prefaceWords)

/-- The tokens of a text that is cut after a refinement mark. -/
theorem tokenize_of_refinement {text : String} {ds rest : List Char} {said : List (Content × String)} (hds : Scan.Digits ds)
    (hne : ds ≠ []) (htext : text.toList = '+' :: (ds ++ ' ' :: rest)) (h : Cuts (' ' :: rest) said) :
    ∃ t ts, tokenize text = .ok (t :: ts) ∧ t.content = .refinement (Text.digitsValue ds) ∧ ts.map Token.said = said := by
  obtain ⟨t, ht, hcontent⟩ := Scan.refinement?_of_digits hds hne rest
  obtain ⟨ts, hts, hsaid⟩ := h (' ' :: rest).length t.text.toList.getLast? (text.toList.length - (' ' :: rest).length)
    (Nat.le_refl _)
  refine ⟨t, ts, ?_, hcontent, hsaid⟩
  unfold tokenize
  dsimp only
  rw [htext, ht]
  dsimp only
  rw [← htext, hts]
  rfl

variable {said : List (Content × String)} {body : String}

/-- The tokens of a sentence. -/
theorem tokenize_sentence (h : Spells body.toList said) :
    ∃ ts, tokenize (opening ++ body) = .ok ts ∧ ts.map Token.said = openingWords.map wordSaid ++ said := by
  refine tokenize_of_cuts rfl h.opening ?_
  rw [String.toList_append]
  rfl

/-- A sentence is cut from its first character on. -/
theorem tokenize_opening (body : String) :
    tokenize (opening ++ body) = (⟨none, 0, (opening ++ body).toList⟩ : Scan.Place).tokens := by
  have hstart : Scan.start (opening ++ body) = ([], ⟨none, 0, (opening ++ body).toList⟩) := by
    rw [Scan.start, String.toList_append]
    rfl
  rw [tokenize_eq, hstart]
  exact congrFun Except.map_id _

/-- The preface of a refinement, character by character. -/
theorem toList_preface (n : Nat) (text : String) :
    ((Intent.refinement (some n)).preface ++ text).toList =
      '+' :: (Nat.toDigits 10 n ++ ' ' :: ((joined " " prefaceWords).toList ++ '.' :: ' ' :: text.toList)) := by
  have hnumber : (refinementNumber (some n)).toList = Nat.toDigits 10 n := by
    show (Nat.repr n).toList = _
    rw [Nat.repr, String.toList_ofList]
  have hpreface : (Intent.refinement (some n)).preface =
      "+" ++ refinementNumber (some n) ++ (" " ++ joined " " prefaceWords ++ ". ") := by
    have hwords : " " ++ joined " " prefaceWords ++ ". " = " refinement of previous results. " := by decide
    rw [hwords]
    rfl
  rw [hpreface]
  simp only [String.toList_append, hnumber]
  simp

/-- **The tokens of a sentence after the preface of a refinement.** -/
theorem tokenize_preface (h : Spells body.toList said) (n : Nat) :
    ∃ t ts, tokenize ((Intent.refinement (some n)).preface ++ (opening ++ body)) = .ok (t :: ts) ∧
      t.content = .refinement n ∧ ts.map Token.said = (prefaceWords ++ openingWords).map wordSaid ++ said := by
  have hsentence : Cuts (' ' :: (opening ++ body).toList) (openingWords.map wordSaid ++ said) := by
    have hall := h.opening
    rw [String.toList_append] at hall ⊢
    exact hall.blank (by decide)
  have hwords := hsentence.stop.words (Scan.stops_cons (by decide)) prefaceWords (List.cons_ne_nil _ _) (by decide)
  have hblank := Cuts.blank_visible hwords (Scan.spells_words (List.cons_ne_nil _ _) (by decide)).visible
  obtain ⟨t, ts, hts, hcontent, hsaid⟩ := tokenize_of_refinement (Decimal.digits_toDigits n) Nat.toDigits_ne_nil
    (toList_preface n _) hblank
  refine ⟨t, ts, hts, ?_, ?_⟩
  · rw [hcontent, Text.digitsValue_toDigits]
  · rw [hsaid, List.map_append, List.append_assoc]

/-! ## Requests -/

namespace Query

/-- Tokens without a request make none. -/
theorem request?_eq_none {ts : List Token} (h : ∀ t ∈ ts, t.content ≠ .keyword .help ∧ t.content ≠ .keyword .clear) :
    request? ts = none := by
  unfold request?
  split
  · next t heq =>
    have hmem : t ∈ ts.filter (!Clause.isFiller ·) := heq ▸ List.mem_cons_self
    obtain ⟨hhelp, hclear⟩ := h t (List.mem_filter.1 hmem).1
    rw [if_neg (by simpa [Token.isKeyword] using hhelp), if_neg (by simpa [Token.isKeyword] using hclear)]
  · rfl

/-- No call for help begins with another letter. -/
theorem asksHow_of_initial {c : Char} (hc : Text.foldLetter c ≠ 'h') (before : Option Char) (cs : List Char) :
    asksHow before (c :: cs) = false := by
  have hread : ∀ p ∈ ["how do i", "how to"], Text.readWord? p.toList (c :: cs) = none := fun p hp =>
    Scan.readWord?_of_initial (show Text.foldLetter c ∉ ['h'] by simpa using hc)
      (List.all_eq_true.1 (show ["how do i", "how to"].all (·.toList.head?.any ['h'].contains) = true by decide) p hp)
  simp only [asksHow, List.any_cons, List.any_nil, hread, List.mem_cons, true_or, or_true]
  simp

theorem asksHowFrom_append {pre : List Char} (hpre : ∀ c ∈ pre, Text.foldLetter c ≠ 'h') {c : Char}
    (hc : Text.foldLetter c ≠ 'h') (cs : List Char) (before before' : Option Char) :
    asksHowFrom before (pre ++ c :: cs) = asksHowFrom before' (c :: cs) := by
  induction pre generalizing before with
  | nil => rw [List.nil_append, asksHowFrom, asksHowFrom, asksHow_of_initial hc, asksHow_of_initial hc]
  | cons d pre ih =>
    rw [List.forall_mem_cons] at hpre
    rw [List.cons_append, asksHowFrom, asksHow_of_initial hpre.1, Bool.false_or]
    exact ih hpre.2 _

/-- A sentence is no request for a fresh start. -/
theorem asksToClear_sentence (body : String) : asksToClear (opening ++ body).toList = false := by
  rw [String.toList_append]
  rfl

/-- A sentence announces nothing. -/
theorem announced_sentence {body : String} {ts : List Token} (h : tokenize (opening ++ body) = .ok ts) :
    announced ts = (.newScreen, ts) := by
  have hchars : (opening ++ body).toList = "Screening".toList ++ ' ' :: ("for: ".toList ++ body.toList) := by
    rw [String.toList_append]
    rfl
  have hpiece : (⟨none, 0, (opening ++ body).toList⟩ : Scan.Place).piece? =
      some (.ok ⟨some (Scan.wordContent "Screening".toList), ' ' :: ("for: ".toList ++ body.toList)⟩) := by
    rw [hchars]
    exact (Scan.begins_spelled (by decide) (Scan.stops_cons (by decide))).2 none
  rw [tokenize_opening, Scan.Place.tokens_after hpiece] at h
  obtain ⟨more, -, rfl⟩ := Except.map_ok_iff.1 h
  rfl

/-- **The preface of a refinement** makes no sentence a request. -/
theorem asks_preface (n : Nat) {body : String} (h : asksForHelp (opening ++ body).toList = false) :
    asksForHelp ((Intent.refinement (some n)).preface ++ (opening ++ body)).toList = false ∧
      asksToClear ((Intent.refinement (some n)).preface ++ (opening ++ body)).toList = false := by
  rw [toList_preface]
  refine ⟨?_, rfl⟩
  obtain ⟨cs, hcs⟩ : ∃ cs, (opening ++ body).toList = 'S' :: cs := ⟨_, by rw [String.toList_append]; rfl⟩
  rw [hcs] at h ⊢
  rw [asksForHelp, Bool.or_eq_false_iff] at h ⊢
  refine ⟨rfl, ?_⟩
  have hdigits : ∀ c ∈ Nat.toDigits 10 n, Text.foldLetter c ≠ 'h' := fun c hc => by
    have hc := Decimal.digits_toDigits n c hc
    have hall := Scan.of_ascii (p := fun c => !c.isDigit || Text.foldLetter c != 'h') (by decide +kernel)
      (Scan.toNat_lt_of_isAlphanum (Scan.figure_of_isDigit hc).alphanum)
    simpa [hc] using hall
  have hwords : ∀ c ∈ (joined " " prefaceWords).toList, Text.foldLetter c ≠ 'h' := fun c hc => by
    have hall : (joined " " prefaceWords).toList.all (Text.foldLetter · != 'h') = true := by decide
    simpa using List.all_eq_true.1 hall c hc
  have hpre : ∀ c ∈ '+' :: (Nat.toDigits 10 n ++ ' ' :: ((joined " " prefaceWords).toList ++ ['.', ' '])),
      Text.foldLetter c ≠ 'h' := by
    simp only [List.forall_mem_cons, List.forall_mem_append]
    exact ⟨by decide, hdigits, by decide, hwords, by decide, by decide, nofun⟩
  have hhow := asksHowFrom_append hpre (c := 'S') (by decide) cs none none
  rw [← h.2, ← hhow]
  simp only [List.cons_append, List.append_assoc, List.nil_append]

/-! ## Reading -/

/-- The text is read as the plan under the intent, with nothing left out and nothing guessed. -/
def ReadsAs (text : String) (intent : Intent) (plan : Plan) : Prop :=
  ∃ q, parse Catalog.builtin text = .ok q ∧ q.intent = intent ∧ q.skipped = [] ∧ q.heuristics = [] ∧
    q.plan.equivalent plan = true

/-- A text is read as what its tokens amount to. -/
theorem ReadsAs.of_draft {text : String} {ts rest : List Token} {intent : Intent} {d : Draft} {plan : Plan}
    (hhelp : asksForHelp text.toList = false) (hclear : asksToClear text.toList = false) (ht : tokenize text = .ok ts)
    (hrequest : request? ts = none) (hannounced : announced ts = (intent, rest))
    (hd : Draft.ofTokens Catalog.builtin rest = d) (h : d.Amounts plan) : ReadsAs text intent plan := by
  have htokens := ofTokens_announced hrequest hannounced hd h.breakdown h.counted
  have hparse : parse Catalog.builtin text = .ok { intent, plan := d.plan, skipped := d.skipped,
                                                   heuristics := d.heuristics, clauseCount := d.clauseCount, text } := by
    rw [parse_tokens hhelp hclear ht, htokens]
    rfl
  exact ⟨_, hparse, rfl, h.skipped, h.heuristics, h.equivalent⟩

end Query

/-- Words that frame a text leave its effect as it is. -/
theorem Draft.Adds.framed {g : Draft → Draft} (h : Draft.Adds body g) :
    ∃ said, Spells body.toList said ∧ ∀ ws : List String, (∀ w ∈ ws, w ∈ Catalog.framing) → ∀ ts,
      ts.map Token.said = ws.map wordSaid ++ said → Draft.ofTokens Catalog.builtin ts = g {} := by
  obtain ⟨said, n, hspells, hn, -, hgather⟩ := h
  refine ⟨said, hspells, fun ws hws ts hts => ?_⟩
  obtain ⟨us, vs, rfl, hus, hvs⟩ := List.map_eq_append_iff.1 hts
  have hlength : us.length = ws.length ∧ vs.length = said.length := by
    constructor
    · simpa using congrArg List.length hus
    · simpa using congrArg List.length hvs
  obtain ⟨k, hk⟩ : ∃ k, (us ++ vs).length = ws.length + (n + k) := ⟨said.length - n, by rw [List.length_append]; omega⟩
  have hread := hgather vs hvs {} rfl [] nofun k
  rw [List.append_nil] at hread
  rw [Draft.ofTokens, hk, Draft.gather_framing hws hus, hread]
  cases k <;> rfl

/-- The words of a frame and the tokens of a text make no request. -/
theorem no_request {ws : List String} (hws : ∀ w ∈ ws, Scan.isSpelled w.toList = true) (h : Spells body.toList said)
    {ts : List Token} (hts : ts.map Token.said = ws.map wordSaid ++ said) :
    ∀ t ∈ ts, t.content ≠ .keyword .help ∧ t.content ≠ .keyword .clear := by
  intro t ht
  have hmem : t.said ∈ ws.map wordSaid ++ said := hts ▸ List.mem_map_of_mem ht
  have hplain : Scan.Plainly t.said := by
    rcases List.mem_append.1 hmem with hmem | hmem
    · obtain ⟨w, hw, heq⟩ := List.mem_map.1 hmem
      rw [← heq]
      exact Scan.plainly_of_isSpelled (hws w hw)
    · exact h.plainly _ hmem
  exact ⟨hplain.no_help, hplain.no_clear⟩

variable {plan : Plan}

/-- **A plan in words is a query for the plan**, unless it can be taken for a call for help: the sentence is read
as the plan, without loss and without a guess, and so is the account that is given of it as a refinement. -/
theorem Plan.Writable.parse_sentence (h : plan.Writable) (hplan : plan.isEmpty = false) (config : Config) :
    ∃ text, plan.sentence Catalog.builtin config.style = .ok text ∧ (Query.asksForHelp text.toList = false →
      Query.ReadsAs text .newScreen plan ∧
      ∀ (n : Nat) (matchCount : Int) (skipped : List Skipped) (heuristics : List Heuristic) (clauses : List Selectivity),
        (∀ x ∈ heuristics, ∃ note, x.note Catalog.builtin config.style = .ok note) →
        (∀ x ∈ clauses, x.clause ∈ plan.predicate.conjuncts) →
        ∃ account, Account.of Catalog.builtin config plan (.refinement (some n)) matchCount skipped heuristics clauses =
            .ok account ∧ Query.ReadsAs account.interpretation (.refinement (some n)) plan) := by
  obtain ⟨body, g, hsentence, hadds, hamounts⟩ := h.adds hplan config.style
  obtain ⟨said, hspells, hdraft⟩ := hadds.framed
  have hframing : ∀ w ∈ prefaceWords ++ openingWords, w ∈ Catalog.framing := by decide
  have hspelled : ∀ w ∈ prefaceWords ++ openingWords, Scan.isSpelled w.toList = true := by decide
  obtain ⟨-, hopening⟩ := List.forall_mem_append.1 hframing
  refine ⟨_, hsentence, fun hhelp => ⟨?_, fun n matchCount skipped heuristics clauses hnotes hclauses => ?_⟩⟩
  · obtain ⟨ts, ht, hts⟩ := tokenize_sentence hspells
    have hrequest := Query.request?_eq_none (no_request (List.forall_mem_append.1 hspelled).2 hspells hts)
    have hannounced := Query.announced_sentence ht
    exact .of_draft hhelp (Query.asksToClear_sentence body) ht hrequest hannounced (hdraft openingWords hopening ts hts) hamounts
  · obtain ⟨hhelp, hclear⟩ := Query.asks_preface n hhelp
    obtain ⟨t, ts, ht, hcontent, hts⟩ := tokenize_preface hspells n
    have hrequest : Query.request? (t :: ts) = none := Query.request?_eq_none
      (List.forall_mem_cons.2 ⟨by simp [hcontent], no_request hspelled hspells hts⟩)
    have hannounced : Query.announced (t :: ts) = (.refinement (some n), ts) := by simp only [Query.announced, hcontent]
    have hreads := Query.ReadsAs.of_draft hhelp hclear ht hrequest hannounced (hdraft _ hframing ts hts) hamounts
    obtain ⟨hwordable, hsort⟩ := Plan.sentence_ok_iff.1 ⟨_, hsentence⟩
    have hhint : ∃ hint, countHint Catalog.builtin config plan matchCount clauses = .ok hint :=
      countHint_ok hwordable hclauses fun _ _ => rankField_or_sort_named regular_builtin hsort
    obtain ⟨account, haccount⟩ := Account.of_ok_iff.2 ⟨⟨_, hsentence⟩, hhint, hnotes⟩
    exact ⟨account, haccount, by rw [account.interpretation_eq haccount hsentence]; exact hreads⟩

/-- An alternative without banks, the five with the highest return on equity. -/
theorem Plan.Writable.parse_sentence_alternative :
    let plan : Plan :=
      { predicate := .and (.or (.compare ⟨"mcap", .gt, .number (.int 5000000000)⟩) (.sectorIn (.ofList ["IT", "Pharma"])))
          (.sectorOut (.ofList ["Banking"]))
        sort := some ⟨"roe", .descending⟩
        limit := some 5 }
    let text := "Screening for: (Mcap > 5B or sector = IT or sector = Pharma), excluding Banking sector, " ++
      "sorted by ROE descending, limited to top 5"
    plan.Writable ∧ plan.isEmpty = false ∧ plan.sentence Catalog.builtin .western = .ok text ∧
      Query.asksForHelp text.toList = false ∧ Query.ReadsAs text .newScreen plan ∧
      ∃ account, Account.of Catalog.builtin {} plan (.refinement (some 2)) 7 [] [] [] = .ok account ∧
        Query.ReadsAs account.interpretation (.refinement (some 2)) plan := by
  intro plan text
  obtain ⟨f, hf, hkind, hop⟩ : ∃ f, Catalog.builtin.field? "mcap" = some f ∧ f.kind = .currency ∧ Operator.gt ∈ f.operators :=
    ⟨(Catalog.builtin.field? "mcap").get (by decide +kernel), by simp, by decide +kernel, by decide +kernel⟩
  have hvalue : f.Canonical (.number (.int 5000000000)) := by
    unfold Field.Canonical
    rw [hkind]
    show (5000000000 : Int).natAbs < 10 ^ 28
    decide
  have hplan : plan.Writable := by
    refine ⟨.inr ⟨⟨⟨f, hf, by rw [hkind]; decide, hop, by decide, hvalue⟩, ?_⟩, ?_⟩, ?_, ?_, ?_⟩
    · exact Sector.listed_ofList.2 ⟨by decide, by decide⟩
    · exact Sector.listed_ofList.2 ⟨by decide, by decide⟩
    · rintro o ⟨⟩
      exact ⟨by decide +kernel, by decide⟩
    · rintro n ⟨⟩
      decide
    · intro hlimit
      exact absurd hlimit (by decide)
  have hsentence : plan.sentence Catalog.builtin .western = .ok text := by
    have hnames : Sector.sorted (SectorSet.ofList ["IT", "Pharma"]).names = ["IT", "Pharma"] :=
      List.mergeSort_of_pairwise (by decide)
    have hbank : Sector.sorted ["Banking"] = ["Banking"] := List.mergeSort_singleton _
    have hamount : Comparison.worded Catalog.builtin .western ⟨"mcap", .gt, .number (.int 5000000000)⟩ = .ok "Mcap > 5B" :=
      Except.toOption_eq_some.1 (by decide +kernel)
    have horder : orderPart Catalog.builtin plan.sort = .ok ["sorted by ROE descending"] :=
      Except.toOption_eq_some.1 (by decide +kernel)
    have houtline : Outline.ofPredicate plan.predicate =
        { rest := [.or (.compare ⟨"mcap", .gt, .number (.int 5000000000)⟩) (.sectorIn (.ofList ["IT", "Pharma"]))]
          excluded := ["Banking"] } := by
      show (⟨[_], none, (Sector.sorted ["Banking"]).filter _⟩ : Outline) = _
      rw [hbank]
      rfl
    have hwords : wordedAll Catalog.builtin .western
        [.or (.compare ⟨"mcap", .gt, .number (.int 5000000000)⟩) (.sectorIn (.ofList ["IT", "Pharma"]))] =
          .ok ["(Mcap > 5B or sector = IT or sector = Pharma)"] := by
      rw [wordedAll, List.mapM_cons, List.mapM_nil]
      simp only [Predicate.worded, hamount, hnames]
      rfl
    have hexcluded : excludedPart ["Banking"] = ["excluding Banking sector"] := by
      rw [excludedPart, sectorPhrase, hbank]
      rfl
    rw [Plan.sentence, houtline]
    dsimp only
    rw [Catalog.arranged, List.mergeSort_singleton, hwords, horder, hexcluded]
    rfl
  have hhelp : Query.asksForHelp text.toList = false := by decide +kernel
  obtain ⟨text', htext', hreads⟩ := Plan.Writable.parse_sentence hplan (by decide) {}
  cases hsentence.symm.trans htext'
  obtain ⟨hscreen, hrefinement⟩ := hreads hhelp
  exact ⟨hplan, by decide, hsentence, hhelp, hscreen, hrefinement 2 7 [] [] []
    (fun _ hx => absurd hx List.not_mem_nil) fun _ hx => absurd hx List.not_mem_nil⟩

end EquityScreen
