/-
What reading the tokens of a text comes to.

The tokens are refused for saying nothing, or they are read; a plan that is read is well-formed and can
be run. There is one more outcome: a number with its magnitude may be too large to be calculated with,
and then nothing is returned at all (`ofTokens_wellFormed`).
-/
import EquityScreen.Proofs.Draft.Expression
import EquityScreen.Proofs.Screening.Total
import EquityScreen.Proofs.Token.Contents
import EquityScreen.Proofs.Token.Numbers

namespace EquityScreen

namespace Query

/-! ## What is read -/

/-- **Tokens are refused, or read as a plan that is well-formed** and can be run, unless reading breaks
down at a number beyond the greatest power of ten. -/
theorem ofTokens_wellFormed {text : String} {ts : List Token} (ht : tokenize text = .ok ts) :
    ((∃ t, ofTokens Catalog.builtin ts = .error (.empty t)) ∨ (∃ q, ofTokens Catalog.builtin ts = .ok q) ∨
      (∃ e, ofTokens Catalog.builtin ts = .error (.lex (.breakdown e))) ∧
        ∃ t ∈ ts, ∃ d unit currency, t.content = .number d unit currency ∧
          Decimal.greatestPower ≤ d.leading + 12) ∧
    ∀ q, ofTokens Catalog.builtin ts = .ok q → (q.intent = .newScreen ∨ ∃ n, q.intent = .refinement n) →
      q.plan.WellFormed Catalog.builtin ∧ q.plan.check Catalog.builtin = .ok () := by
  constructor
  · rcases ofTokens_cases rfl with ⟨i, -, h⟩ | ⟨-, d, rfl, ⟨e, he, h⟩ | ⟨-, -, h⟩ | ⟨-, -, h⟩⟩
    · exact .inr (.inl ⟨_, h⟩)
    · obtain ⟨t, hmem, d, unit, currency, hcontent, himmense⟩ : Clause.HasImmense ts := by
        refine Classical.byContradiction fun hno => ?_
        have hworkable := Draft.ofTokens_workable (c := Catalog.builtin) fun himmense =>
          hno (himmense.of_suffix (announced_suffix ts))
        exact absurd (hworkable.symm.trans he) (by simp)
      exact .inr (.inr ⟨⟨e, h⟩, t, hmem, d, unit, currency, hcontent,
        himmense.resolve_right fun ⟨mark, hmark⟩ => tokenize_units ht t hmem d unit currency hcontent mark hmark⟩)
    · exact .inl ⟨_, h⟩
    · exact .inr (.inl ⟨_, h⟩)
  · intro q hq hintent
    have hd := Draft.ofTokens_sound regular_builtin (announced ts).2
    rcases ofTokens_cases hq with ⟨i, hi, h⟩ | ⟨-, d, rfl, ⟨e, -, h⟩ | ⟨-, -, h⟩ | ⟨-, hcount, h⟩⟩
    · have hi := request?_cases hi
      rw [Except.ok.inj h] at hintent
      rcases hi with rfl | rfl <;> simp at hintent
    · exact absurd h (by simp)
    · exact absurd h (by simp)
    · have hplan := hd.plan_wellFormed hcount
      rw [Except.ok.inj h]
      exact ⟨hplan, hplan.sound.check_ok⟩

/-- The plan of a refinement with a sector and a limit. -/
theorem ofTokens_wellFormed_refinement :
    ∃ ts q, tokenize "+1 in Pharma, top 5" = .ok ts ∧ ofTokens Catalog.builtin ts = .ok q ∧
      q.intent = .refinement (some 1) ∧ q.plan.limit = some 5 ∧
      q.plan.WellFormed Catalog.builtin ∧ q.plan.check Catalog.builtin = .ok () := by
  have hread : ((tokenize "+1 in Pharma, top 5").toOption.bind fun ts =>
      (ofTokens Catalog.builtin ts).toOption.map fun q => (q.intent, q.plan.limit)) =
      some (.refinement (some 1), some 5) := by decide +kernel
  obtain ⟨ts, hts, hread⟩ := Option.bind_eq_some_iff.1 hread
  obtain ⟨q, hq, hsame⟩ := Option.map_eq_some_iff.1 hread
  have hts := Except.toOption_eq_some.1 hts
  have hq := Except.toOption_eq_some.1 hq
  obtain ⟨hintent, hlimit⟩ := Prod.mk.inj hsame
  exact ⟨ts, q, hts, hq, hintent, hlimit, (ofTokens_wellFormed hts).2 q hq (.inr ⟨_, hintent⟩)⟩


/-! ## A number too large -/

/-- A comparison with so many trillions as one and a number of zeros write. -/
def trillionsText (zeros : Nat) : String :=
  String.ofList ("Mcap".toList ++ (' ' :: (">".toList ++ (' ' :: ('1' :: List.replicate zeros '0' ++ ['T'])))))

theorem digitsValue_power (zeros : Nat) : Text.digitsValue ('1' :: List.replicate zeros '0') = 10 ^ zeros := by
  have hzeros : ∀ n, Text.appendDigits n (List.replicate zeros '0') = n * 10 ^ zeros := by
    induction zeros with
    | zero => intro n; simp [Text.appendDigits]
    | succ zeros ih =>
      intro n
      have hstep : Text.appendDigits n (List.replicate (zeros + 1) '0') =
          Text.appendDigits (10 * n) (List.replicate zeros '0') := by
        rw [List.replicate_succ]
        rfl
      rw [hstep, ih, Nat.pow_succ]
      grind
  have hone : Text.appendDigits 0 ('1' :: List.replicate zeros '0') =
      Text.appendDigits 1 (List.replicate zeros '0') := rfl
  rw [Text.digitsValue_eq, hone, hzeros, Nat.one_mul]

/-- The tokens of such a comparison. -/
theorem tokenize_trillions (zeros : Nat) :
    ∃ field sign amount, tokenize (trillionsText zeros) = .ok [field, sign, amount] ∧
      field.said = (.name, "Mcap") ∧ sign.content = .compare .gt ∧
      amount.content = .number ⟨false, 10 ^ zeros, 0⟩ (some (.magnitude .trillion)) false := by
  have hdigits : Scan.Digits ('1' :: List.replicate zeros '0') := fun c hc => by
    rcases List.mem_cons.1 hc with rfl | hc
    · rfl
    · rw [(List.mem_replicate.1 hc).2]
      rfl
  have hchars : '1' :: List.replicate zeros '0' ++ ['T'] =
      Scan.numeralChars false ('1' :: List.replicate zeros '0') [] ++
        Scan.markChars (some (.magnitude .trillion)) ++ [] := by
    simp [Scan.numeralChars, Scan.fractionChars, Decimal.signChars, Scan.markChars, UnitMark.spelling, Magnitude.mark]
  have hcuts := Scan.cuts_nil.cons
    (Scan.begins_number false hdigits (List.cons_ne_nil _ _) Scan.digits_nil (u := some (.magnitude .trillion)) (by simp) .nil)
  rw [← hchars] at hcuts
  have hgt : Operator.gt ≠ .between := by decide
  have hname : Scan.wordContent "Mcap".toList = .name := by decide +kernel
  have hcuts := (((hcuts.blank (by decide)).sign hgt).blank (by decide)).word (by decide +kernel)
    (Scan.stops_cons (by decide)) hname
  obtain ⟨ts, hts, hsaid⟩ := tokenize_of_cuts (String.toList_ofList : (trillionsText zeros).toList = _) hcuts rfl
  obtain ⟨field, ts, rfl, hfield, hts'⟩ := List.map_eq_cons_iff.1 hsaid
  obtain ⟨sign, ts, rfl, hsign, hts''⟩ := List.map_eq_cons_iff.1 hts'
  obtain ⟨amount, ts, rfl, hamount, hnil⟩ := List.map_eq_cons_iff.1 hts''
  cases List.map_eq_nil_iff.1 hnil
  have hvalue := (Prod.mk.inj hamount).1
  rw [List.append_nil, digitsValue_power] at hvalue
  exact ⟨field, sign, amount, hts, hfield, (Prod.mk.inj hsign).1, hvalue⟩

/-- The field that such a comparison is about. -/
def mcapField : Field := Catalog.valuationFields[0]

variable {zeros : Nat} {field sign amount : Token}

/-- So many trillions are no value of the field. -/
theorem readFilter_trillions (hzeros : Decimal.greatestPower < zeros + 12)
    (hamount : amount.content = .number ⟨false, 10 ^ zeros, 0⟩ (some (.magnitude .trillion)) false) :
    Clause.readFilter mcapField .gt [amount] = .error (.coercion (.fault .tooLarge)) := by
  have hcoerce := Catalog.coerceOn_trillions (f := mcapField) rfl rfl hzeros
  have hkind : mcapField.kind ≠ .sector := by decide
  simp only [Clause.readFilter, Clause.readValue, if_neg hkind, hamount, hcoerce]
  rfl

/-- The clause of such a comparison. -/
theorem read_trillions (hzeros : Decimal.greatestPower < zeros + 12)
    (hfield : field.said = (.name, "Mcap")) (hsign : sign.content = .compare .gt)
    (hamount : amount.content = .number ⟨false, 10 ^ zeros, 0⟩ (some (.magnitude .trillion)) false) :
    Clause.read Catalog.builtin field [sign, amount] = ⟨[.breakdown (.fault .tooLarge)], 3⟩ := by
  have hname : Clause.fieldAt? Catalog.builtin [field] = some (mcapField, 1) := by
    have hsaid : [field].map Token.said = [⟨.name, "Mcap", 0⟩].map Token.said := by rw [List.map_singleton, hfield]; rfl
    exact (Clause.fieldAt?_said hsaid).trans (by decide +kernel)
  obtain ⟨u, more, hu, -, hread⟩ := Clause.read_comparison hname hsign
  obtain ⟨rfl, rfl⟩ := List.cons.inj hu
  have hvalue : Clause.badValueLength [amount] = 1 := by simp [Clause.badValueLength, hamount]
  rw [show [sign, amount] = [] ++ sign :: [amount] from rfl, hread, Clause.readComparison, Clause.drop_names,
    readFilter_trillions hzeros hamount, hvalue]
  rfl

/-- **Reading breaks down** at so many trillions. -/
theorem ofTokens_trillions (hzeros : Decimal.greatestPower < zeros + 12)
    (hfield : field.said = (.name, "Mcap")) (hsign : sign.content = .compare .gt)
    (hamount : amount.content = .number ⟨false, 10 ^ zeros, 0⟩ (some (.magnitude .trillion)) false) :
    ofTokens Catalog.builtin [field, sign, amount] = .error (.lex (.breakdown (.fault .tooLarge))) := by
  obtain ⟨hcontent, htext⟩ := Prod.mk.inj hfield
  have hrequest : request? [field, sign, amount] = none := by
    have hmcap : Vocabulary.fillers.contains (Text.lower "Mcap") = false := by decide +kernel
    have hfield' : Clause.isFiller field = false := by rw [Clause.isFiller, Token.word, htext, hmcap, Bool.and_false]
    have hsign' : Clause.isFiller sign = false := by simp [Clause.isFiller, Token.isName, hsign]
    have hamount' : Clause.isFiller amount = false := by simp [Clause.isFiller, Token.isName, hamount]
    simp [request?, hfield', hsign', hamount']
  have hannounced : announced [field, sign, amount] = (.newScreen, [field, sign, amount]) := by
    unfold announced
    simp only [hcontent]
  have hgather : Draft.ofTokens Catalog.builtin [field, sign, amount] =
      Draft.gather Catalog.builtin 2 [] (Draft.add {} (.breakdown (.fault .tooLarge))) := by
    have hread : Clause.read Catalog.builtin field ([sign, amount] ++ []) =
        ⟨[.breakdown (.fault .tooLarge)], [field, sign, amount].length⟩ := read_trillions hzeros hfield hsign hamount
    have hgather : Draft.gather Catalog.builtin (2 + 1) ([field, sign, amount] ++ []) {} =
        Draft.gather Catalog.builtin 2 [] ([Clause.breakdown (.fault .tooLarge)].foldl Draft.add {}) :=
      Draft.gather_read rfl hread
    exact hgather
  unfold ofTokens
  rw [hrequest]
  dsimp only
  rw [hannounced, hgather]
  rfl

/-- A text whose tokens are neither read nor refused for saying nothing. -/
theorem not_forall_ofTokens_returns :
    ¬ ∀ (text : String) (ts : List Token), tokenize text = .ok ts →
      (∃ q, ofTokens Catalog.builtin ts = .ok q) ∨ ∃ t, ofTokens Catalog.builtin ts = .error (.empty t) := by
  intro h
  obtain ⟨field, sign, amount, ht, hfield, hsign, hamount⟩ := tokenize_trillions 999988
  have hbreaks := ofTokens_trillions (by decide) hfield hsign hamount
  rcases h _ _ ht with ⟨q, hq⟩ | ⟨t, ht⟩
  · exact absurd (hbreaks.symm.trans hq) (by simp)
  · exact absurd (hbreaks.symm.trans ht) (by simp)

end Query
end EquityScreen
