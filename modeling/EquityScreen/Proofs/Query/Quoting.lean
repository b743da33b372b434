/-
Texts in words, and how they read back.

A comparison with a text is put into words with the text between double quotes, and nothing shields a double quote in
the text itself. Whatever the text is, it is read up to the first double quote in it (`mem_comparisons_of_parse`). So the
sentence reads back as the comparison exactly if the text has no double quote in it and the sentence cannot be taken for
a call for help (`parse_quoted_text`).
-/
import EquityScreen.Proofs.Draft.Reading
import EquityScreen.Proofs.Grouping.Blocks
import EquityScreen.Proofs.Query.Sentence
import EquityScreen.Proofs.Token.Crossing

namespace EquityScreen

/-! ## Comparisons noted down -/

theorem Predicate.BuiltFrom.comparisons {p : Predicate} {ps : List Predicate} (h : p.BuiltFrom ps) :
    p.comparisons = ps.flatMap Predicate.comparisons := by
  induction h with
  | block p => simp
  | and _ _ ihl ihr | or _ _ ihl ihr => rw [Predicate.comparisons, ihl, ihr, List.flatMap_append]

/-- A comparison noted down is one of the plan. -/
theorem Draft.Sound.mem_comparisons {c : Catalog} {d : Draft} (h : d.Sound c) {cmp : Comparison}
    (hcmp : .filter (.compare cmp) ∈ d.items) : cmp ∈ d.plan.predicate.comparisons := by
  have hitems : ∀ i ∈ d.items, i ≠ .filter .all := by
    rintro i hi rfl
    exact (h.items _ hi).ne_all rfl
  have hfilter : .compare cmp ∈ Item.filters d.items := Item.mem_filters.2 hcmp
  have hbuilt := (Predicate.builtFrom_ofItems hitems).resolve_right fun hnone => List.ne_nil_of_mem hfilter hnone.1
  rw [plan, Draft.predicate_eq, Predicate.comparisons_conjoin, Predicate.comparisons_conjoin, hbuilt.comparisons]
  refine List.mem_append_left _ (List.mem_append_left _ (List.mem_flatMap.2 ⟨_, hfilter, ?_⟩))
  exact List.mem_singleton_self cmp

/-! ## The sentence -/

open Scan (Crosses openingWords wordSaid)

variable {f : Field} {key v : String} {op : Operator} {style : CurrencyStyle}

/-- What stands in front of a text in quotes. -/
def leadIn (f : Field) (op : Operator) : String := f.label ++ " " ++ op.sign ++ " "

/-- **A comparison with a text in words.** -/
theorem Plan.sentence_text (hf : Catalog.builtin.field? key = some f) (hk : f.kind = .text) :
    Plan.sentence Catalog.builtin style { predicate := .compare ⟨key, op, .text v⟩ } =
      .ok (opening ++ (leadIn f op ++ ("\x22" ++ v ++ "\x22"))) := by
  have houtline : Outline.ofPredicate (.compare ⟨key, op, .text v⟩) = { rest := [.compare ⟨key, op, .text v⟩] } := rfl
  have hwords : wordedAll Catalog.builtin style [.compare ⟨key, op, .text v⟩] =
      .ok [leadIn f op ++ ("\x22" ++ v ++ "\x22")] := by
    rw [wordedAll, List.mapM_cons, List.mapM_nil, Predicate.worded, Comparison.worded, Catalog.named, hf]
    dsimp only
    rw [hk]
    rfl
  rw [Plan.sentence, houtline]
  dsimp only
  rw [Catalog.arranged, List.mergeSort_singleton, hwords]
  rfl

/-- What a sentence with a text in quotes says up to the quote that closes the text. -/
def quotedSaid (f : Field) (op : Operator) (inner : List Char) : List (Content × String) :=
  openingWords.map wordSaid ++ ((Text.words f.label).map wordSaid ++
    [(.compare op, op.sign), (.quoted (String.ofList (Text.trimChars inner)), String.ofList ('\x22' :: (inner ++ ['\x22'])))])

/-- **A text is cut off at the first quote in it**, whatever comes next. -/
theorem Scan.crosses_quoted (hf : f ∈ Catalog.builtinFields) (hk : f.kind = .text) (hop : op ≠ .between) {inner : List Char}
    (hinner : '\x22' ∉ inner) (rest : List Char) :
    Crosses ((opening ++ leadIn f op).toList ++ '\x22' :: (inner ++ ['\x22'])) rest (quotedSaid f op inner) := by
  obtain ⟨hlabel, ⟨w, ws, hwords, -⟩, hspelled, -⟩ := Catalog.spelled_of_label hf (by rw [hk]; decide)
  have hne : Text.words f.label ≠ [] := by rw [hwords]; exact List.cons_ne_nil _ _
  have hquoted : Crosses ('\x22' :: (inner ++ ['\x22'])) rest
      [(.quoted (String.ofList (Text.trimChars inner)), String.ofList ('\x22' :: (inner ++ ['\x22'])))] :=
    Crosses.of_begins (begins_quoted hinner)
  have hvalue := (Crosses.blank ⟨'\x22', inner ++ ['\x22'] ++ rest, rfl, by decide⟩).append hquoted
  have hsign : Crosses op.sign.toList ([' '] ++ '\x22' :: (inner ++ ['\x22']) ++ rest) [(.compare op, op.sign)] := by
    have h : Begins op.sign.toList (' ' :: ('\x22' :: (inner ++ ['\x22']) ++ rest)) (some (.compare op)) := begins_sign hop
    have hcrosses := Crosses.of_begins h
    rwa [String.ofList_toList] at hcrosses
  have hvisible : Visible (op.sign.toList ++ ([' '] ++ '\x22' :: (inner ++ ['\x22'])) ++ rest) := by
    cases op with
    | between => exact absurd rfl hop
    | _ => exact ⟨_, _, rfl, by decide⟩
  have hcompared := (Crosses.blank hvisible).append (hsign.append hvalue)
  have hnames := (Crosses.words _ hne hspelled (Scan.stops_cons (by decide))).append hcompared
  have hspace := (Crosses.blank (((Scan.spells_words hne hspelled).visible.append _).append _)).append hnames
  have hcolon := (Crosses.skip fun before => piece?_colon before _).append hspace
  have hopening := (Crosses.words openingWords (List.cons_ne_nil _ _) (by decide) (Scan.stops_cons (by decide))).append hcolon
  have hchars : (opening ++ leadIn f op).toList ++ '\x22' :: (inner ++ ['\x22']) =
      (Text.joined " " openingWords).toList ++ ([':'] ++ ([' '] ++ ((Text.joined " " (Text.words f.label)).toList ++
        ([' '] ++ (op.sign.toList ++ ([' '] ++ '\x22' :: (inner ++ ['\x22']))))))) := by
    rw [hlabel, leadIn]
    simp only [String.toList_append, List.append_assoc]
    rfl
  rw [hchars]
  exact hopening

/-! ## Reading -/

/-- A quoted text is a value as it stands, without blanks at its ends. -/
theorem Clause.readFilter_quoted (hf : Catalog.builtin.field? key = some f) (hk : f.kind = .text) (hkey : key ≠ "symbol")
    (hop : op ∈ f.operators) (hbetween : op ≠ .between) {t : Token} {s : String} (ht : t.content = .quoted s)
    (rest : List Token) : readFilter f op (t :: rest) = .ok (.compare ⟨key, op, .text (Text.trim s)⟩, 1) := by
  obtain rfl : f.key = key := Catalog.key_of_field? hf
  have hsymbol : (f.key == "symbol") = false := by simpa using hkey
  have hsector : (f.key == "sector") = false := by
    have hno : f.key ≠ "sector" := fun h => by
      rw [(regular_builtin.sector f (Catalog.mem_fields_of_field? hf)).2 h] at hk
      exact absurd hk (by decide)
    simpa using hno
  have hvalue : readValue f (t :: rest) = .ok (.text (Text.trim s), 1) := by
    simp only [readValue, hk, ht, reduceCtorEq, if_false, if_true, Catalog.coerceOn, Catalog.coerceText, hsymbol]
    rfl
  rw [readFilter, if_neg hbetween, hvalue]
  simp only [bind, Except.bind, pure, Except.pure, List.contains_iff_mem.2 hop, if_true, comparison, hsector,
    Bool.false_eq_true, if_false]

/-- **The front of the sentence is read as a comparison**, whatever comes next. -/
theorem Draft.ofTokens_quoted (hf : Catalog.builtin.field? key = some f) (hk : f.kind = .text) (hkey : key ≠ "symbol")
    (hop : op ∈ f.operators) (hbetween : op ≠ .between) {inner : List Char} {ts : List Token}
    (hts : ts.map Token.said = quotedSaid f op inner) (rest : List Token) :
    ofTokens Catalog.builtin (ts ++ rest) = gather Catalog.builtin (rest.length + (Text.words f.label).length + 1) rest
      (addFilter {} (.compare ⟨key, op, .text (Text.trim (String.ofList (Text.trimChars inner)))⟩)) := by
  have hsector : f.kind ≠ .sector := by rw [hk]; decide
  obtain ⟨framing, more, rfl, hframing, hmore⟩ := List.map_eq_append_iff.1 hts
  obtain ⟨label, more, rfl, hlabel, hmore⟩ := List.map_eq_append_iff.1 hmore
  obtain ⟨sign, more, rfl, hsign, hmore⟩ := List.map_eq_cons_iff.1 hmore
  obtain ⟨phrase, more, rfl, hphrase, hmore⟩ := List.map_eq_cons_iff.1 hmore
  rw [List.map_eq_nil_iff.1 hmore]
  obtain ⟨u, us, rfl, -, hread⟩ := Clause.read_comparison (Clause.fieldAt?_label hf hsector hlabel) (Prod.mk.inj hsign).1
  have hlengths : framing.length = openingWords.length ∧ us.length + 1 = (Text.words f.label).length := by
    constructor
    · simpa using congrArg List.length hframing
    · simpa using congrArg List.length hlabel
  have hclause : Clause.read Catalog.builtin u (us ++ [sign, phrase] ++ rest) =
      ⟨[.filter (.compare ⟨key, op, .text (Text.trim (String.ofList (Text.trimChars inner)))⟩)],
        (u :: us ++ [sign, phrase]).length⟩ := by
    rw [List.append_assoc, show [sign, phrase] ++ rest = sign :: phrase :: rest from rfl, hread, Clause.readComparison,
      Clause.drop_names, Clause.readFilter_quoted hf hk hkey hop hbetween (Prod.mk.inj hphrase).1]
    simp
  have hfuel : (framing ++ (u :: us ++ [sign, phrase]) ++ rest).length =
      openingWords.length + (rest.length + (Text.words f.label).length + 1 + 1) := by
    simp only [List.length_append, List.length_cons, List.length_nil]
    omega
  rw [ofTokens, hfuel, List.append_assoc, Draft.gather_framing (by decide) hframing]
  have htokens : u :: us ++ [sign, phrase] = u :: (us ++ [sign, phrase]) := rfl
  exact gather_read htokens hclause

namespace Query

section Quoted

variable (hf : Catalog.builtin.field? key = some f) (hk : f.kind = .text) (hbetween : op ≠ .between)
  {inner rest : List Char} (hsplit : v.toList ++ ['\x22'] = inner ++ '\x22' :: rest) (hinner : '\x22' ∉ inner)
include hf hk hbetween hsplit hinner

/-- The tokens of the sentence are those up to the first quote in the text, and those from behind it. -/
theorem tokenize_quoted : ∃ (ts : List Token) (p : Scan.Place), ts.map Token.said = quotedSaid f op inner ∧
    p.following = rest ∧ tokenize (opening ++ (leadIn f op ++ ("\x22" ++ v ++ "\x22"))) = p.tokens.map (ts ++ ·) := by
  have hmem : f ∈ Catalog.builtinFields := Catalog.fields_ofFields Catalog.builtinFields ▸ Catalog.mem_fields_of_field? hf
  have hchars : (opening ++ (leadIn f op ++ ("\x22" ++ v ++ "\x22"))).toList =
      (opening ++ leadIn f op).toList ++ '\x22' :: (inner ++ ['\x22']) ++ rest := by
    have hsplit' : '\x22' :: (inner ++ ['\x22']) ++ rest = '\x22' :: (v.toList ++ ['\x22']) := by simp [hsplit]
    rw [List.append_assoc, hsplit']
    simp only [String.toList_append, List.append_assoc]
    rfl
  rw [tokenize_opening]
  exact (Scan.crosses_quoted hmem hk hbetween hinner rest).tokens hchars

/-- **The text up to the first quote in it** is a comparison of the query, whatever comes next. -/
theorem mem_comparisons_of_parse (hkey : key ≠ "symbol") (hop : op ∈ f.operators) {q : Query}
    (h : parse Catalog.builtin (opening ++ (leadIn f op ++ ("\x22" ++ v ++ "\x22"))) = .ok q) (hi : q.intent = .newScreen) :
    ⟨key, op, .text (Text.trim (String.ofList (Text.trimChars inner)))⟩ ∈ q.plan.predicate.comparisons := by
  obtain ⟨ts, hts, -, hplan, -⟩ := parse_plan h (.inl hi)
  rw [announced_sentence hts] at hplan
  obtain ⟨us, p, hus, -, htokens⟩ := tokenize_quoted hf hk hbetween hsplit hinner
  rw [htokens] at hts
  obtain ⟨vs, -, rfl⟩ := Except.map_ok_iff.1 hts
  rw [hplan]
  refine (Draft.ofTokens_sound regular_builtin (us ++ vs)).mem_comparisons ?_
  rw [Draft.ofTokens_quoted hf hk hkey hop hbetween hus]
  exact (Draft.continues_gather ..).items.subset (List.mem_singleton_self _)

end Quoted

/-- Only the text can make the sentence a call for help. -/
theorem asksForHelp_quoted (h : (leadIn f op).toList.all (Text.foldLetter · != 'h') = true) :
    asksForHelp (opening ++ (leadIn f op ++ ("\x22" ++ v ++ "\x22"))).toList = asksForHelp ("\x22" ++ v ++ "\x22").toList := by
  have hfront : ∀ c ∈ opening.toList ++ (leadIn f op).toList, Text.foldLetter c ≠ 'h' := fun c hc => by
    have hopening : opening.toList.all (Text.foldLetter · != 'h') = true := by decide
    have hall := List.all_append.trans (Bool.and_eq_true_iff.2 ⟨hopening, h⟩)
    simpa using List.all_eq_true.1 hall c hc
  have hquoted : ("\x22" ++ v ++ "\x22").toList = '\x22' :: (v.toList ++ ['\x22']) := by
    simp only [String.toList_append]
    rfl
  have hhow := asksHowFrom_append hfront (c := '\x22') (by decide) (v.toList ++ ['\x22']) none none
  rw [String.toList_append, String.toList_append, hquoted, asksForHelp, asksForHelp, ← List.append_assoc, hhow]
  rfl

/-- **A text without a double quote** is read as the comparison with it, and nothing else, unless it calls for help. -/
theorem parse_unquoted (hf : Catalog.builtin.field? key = some f) (hk : f.kind = .text) (hkey : key ≠ "symbol")
    (hop : op ∈ f.operators) (hbetween : op ≠ .between) (hv : Text.trim v = v) (hquote : '\x22' ∉ v.toList)
    (hhelp : asksForHelp (opening ++ (leadIn f op ++ ("\x22" ++ v ++ "\x22"))).toList = false) :
    parse Catalog.builtin (opening ++ (leadIn f op ++ ("\x22" ++ v ++ "\x22"))) =
      .ok { intent := .newScreen, plan := { predicate := .compare ⟨key, op, .text v⟩ }, clauseCount := 1,
            text := opening ++ (leadIn f op ++ ("\x22" ++ v ++ "\x22")) } := by
  have hall : v.toList ++ ['\x22'] = v.toList ++ '\x22' :: [] := rfl
  obtain ⟨ts, p, hts, hp, htokens⟩ := tokenize_quoted hf hk hbetween hall hquote
  rw [Scan.Place.tokens_nil hp, Except.map, List.append_nil] at htokens
  have hrequest : request? ts = none := by
    have hmem : (.compare op, op.sign) ∈ ts.map Token.said := hts ▸ (by simp [quotedSaid])
    obtain ⟨sign, hsign, hsaid⟩ := List.mem_map.1 hmem
    have hcontent : sign.content = .compare op := (Prod.mk.inj hsaid).1
    exact request?_of_mem hsign (by simp [Clause.isFiller, Token.isName, hcontent]) (by simp [Token.isKeyword, hcontent])
      (by simp [Token.isKeyword, hcontent])
  have hvalue : Text.trim (String.ofList (Text.trimChars v.toList)) = v := by
    rw [show String.ofList (Text.trimChars v.toList) = v from hv, hv]
  have hdraft := Draft.ofTokens_quoted hf hk hkey hop hbetween hts []
  rw [List.append_nil, hvalue] at hdraft
  rw [parse_tokens hhelp (asksToClear_sentence _) htokens,
    ofTokens_announced hrequest (announced_sentence htokens) hdraft rfl (Nat.succ_ne_zero 0)]
  rfl

/-- A text that reads back as the comparison with it has no double quote in it. -/
theorem unquoted_of_parse (hf : Catalog.builtin.field? key = some f) (hk : f.kind = .text) (hkey : key ≠ "symbol")
    (hop : op ∈ f.operators) (hbetween : op ≠ .between) {q : Query}
    (h : parse Catalog.builtin (opening ++ (leadIn f op ++ ("\x22" ++ v ++ "\x22"))) = .ok q) (hi : q.intent = .newScreen)
    (hplan : q.plan = { predicate := .compare ⟨key, op, .text v⟩ }) : '\x22' ∉ v.toList := by
  intro hquote
  obtain ⟨inner, rest, hsplit, hinner⟩ := List.eq_append_cons_of_mem (List.mem_append_left ['\x22'] hquote)
  have hmem := mem_comparisons_of_parse hf hk hbetween hsplit hinner hkey hop h hi
  rw [hplan] at hmem
  have hvalue : Text.trim (String.ofList (Text.trimChars inner)) = v := by simpa [Predicate.comparisons] using hmem
  rw [← hvalue, Text.trim, String.toList_ofList, String.toList_ofList] at hquote
  exact hinner (Text.trimChars_subset _ (Text.trimChars_subset _ hquote))

/-- **A text in words reads back** as the comparison with it, unless the text has a double quote in it or calls for help:
then it never does. -/
theorem parse_quoted_text (hkey : key = "name" ∨ key = "industry") (hop : op = .eq ∨ op = .ne) (hv : Text.trim v = v)
    (style : CurrencyStyle) :
    let plan : Plan := { predicate := .compare ⟨key, op, .text v⟩ }
    ∃ d, plan.sentence Catalog.builtin style = .ok d ∧
      ('\x22' ∉ v.toList → asksForHelp ("\x22" ++ v ++ "\x22").toList = false →
        parse Catalog.builtin d = .ok { intent := .newScreen, plan, clauseCount := 1, text := d }) ∧
      ∀ q, parse Catalog.builtin d = .ok q → q.intent = .newScreen → q.plan = plan →
        '\x22' ∉ v.toList ∧ asksForHelp ("\x22" ++ v ++ "\x22").toList = false := by
  intro plan
  obtain ⟨f, hf, hk, hoperators, hletters⟩ : ∃ f, Catalog.builtin.field? key = some f ∧ f.kind = .text ∧ op ∈ f.operators ∧
      (leadIn f op).toList.all (Text.foldLetter · != 'h') = true := by
    rcases hkey with rfl | rfl
    · refine ⟨(Catalog.builtin.field? "name").get (by decide +kernel), by simp, by decide +kernel, ?_⟩
      rcases hop with rfl | rfl <;> exact ⟨by decide +kernel, by decide +kernel⟩
    · refine ⟨(Catalog.builtin.field? "industry").get (by decide +kernel), by simp, by decide +kernel, ?_⟩
      rcases hop with rfl | rfl <;> exact ⟨by decide +kernel, by decide +kernel⟩
  have hsymbol : key ≠ "symbol" := by rcases hkey with rfl | rfl <;> decide
  have hbetween : op ≠ .between := by rcases hop with rfl | rfl <;> decide
  have hhelp := asksForHelp_quoted (v := v) hletters
  refine ⟨_, Plan.sentence_text hf hk, fun hquote hasks => ?_, fun q hq hi hplan => ⟨?_, ?_⟩⟩
  · exact parse_unquoted hf hk hsymbol hoperators hbetween hv hquote (hhelp.trans hasks)
  · exact unquoted_of_parse hf hk hsymbol hoperators hbetween hq hi hplan
  · rw [← hhelp, ← Bool.not_eq_true]
    intro hasks
    rw [parse, if_pos hasks] at hq
    rw [← Except.ok.inj hq] at hi
    exact absurd hi (by simp)

/-- A company by its name. -/
theorem parse_quoted_text_company :
    let plan : Plan := { predicate := .compare ⟨"name", .eq, .text "Tata Motors"⟩ }
    let d := "Screening for: Name = \x22Tata Motors\x22"
    plan.sentence Catalog.builtin .western = .ok d ∧
      parse Catalog.builtin d = .ok { intent := .newScreen, plan, clauseCount := 1, text := d } := by
  intro plan d
  obtain ⟨d', hd', hread, -⟩ := parse_quoted_text (.inl (rfl : "name" = "name")) (.inl (rfl : Operator.eq = .eq))
    (show Text.trim "Tata Motors" = "Tata Motors" by decide) .western
  have hd : plan.sentence Catalog.builtin .western = .ok d := by
    obtain ⟨f, hf, hk, hlabel⟩ : ∃ f, Catalog.builtin.field? "name" = some f ∧ f.kind = .text ∧ f.label = "Name" :=
      ⟨(Catalog.builtin.field? "name").get (by decide +kernel), by simp, by decide +kernel, by decide +kernel⟩
    rw [Plan.sentence_text hf hk, leadIn, hlabel]
    rfl
  rw [← Except.ok.inj (hd'.symm.trans hd)]
  exact ⟨hd', hread (by decide) (by decide +kernel)⟩

/-- A text with a double quote in it, which is read up to there. -/
theorem not_forall_parse_quoted_text :
    ¬ ∀ (key : String) (op : Operator) (v : String) (style : CurrencyStyle), (key = "name" ∨ key = "industry") →
      (op = .eq ∨ op = .ne) → Text.trim v = v → ∃ d q,
        Plan.sentence Catalog.builtin style { predicate := .compare ⟨key, op, .text v⟩ } = .ok d ∧
          parse Catalog.builtin d = .ok q ∧ q.intent = .newScreen ∧ q.plan = { predicate := .compare ⟨key, op, .text v⟩ } := by
  intro h
  obtain ⟨d, q, hd, hq, hi, hplan⟩ := h "name" .eq "a\x22b" .western (.inl rfl) (.inl rfl) (by decide)
  obtain ⟨f, hf, hk, hop⟩ : ∃ f, Catalog.builtin.field? "name" = some f ∧ f.kind = .text ∧ .eq ∈ f.operators :=
    ⟨(Catalog.builtin.field? "name").get (by decide +kernel), by simp, by decide +kernel, by decide +kernel⟩
  rw [← Except.ok.inj ((Plan.sentence_text hf hk).symm.trans hd)] at hq
  exact unquoted_of_parse hf hk (by decide) hop (by decide) hq hi hplan (by decide)

end Query
end EquityScreen
