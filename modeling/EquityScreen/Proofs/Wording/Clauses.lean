/-
Comparisons and sectors in words are read as what they say.

A canonical value is written as one token that is worth it on its field (`Field.Canonical.written`), so a
comparison in words is read as the comparison with a value that is the same (`Comparison.Sayable.worded`).
A sector in words is read as the set of that sector alone (`Clause.filters_sector`).
-/
import EquityScreen.Proofs.Clause.Labels
import EquityScreen.Proofs.Wording.Value
import EquityScreen.Wording.Sentence

namespace EquityScreen

open Clause (Filters readFilter readValue)

/-- The token goes by its own word, and is no request. -/
def Token.Plain (t : Token) : Prop := Scan.Plainly t.said

/-- The comparison is on a field of the built-in catalog that is not the sector, by one of its operators other
than `between`, and with a value of the field. -/
def Comparison.Sayable (cmp : Comparison) : Prop :=
  ∃ f, Catalog.builtin.field? cmp.field = some f ∧ f.kind ≠ .sector ∧ cmp.op ∈ f.operators ∧ cmp.op ≠ .between ∧
    f.Canonical cmp.value

variable {f : Field} {v : Value} {cmp : Comparison}

/-- **A value is written as one token** that is worth the value on its field. -/
theorem Field.Canonical.written (h : f.Canonical v) (hk : f.kind ≠ .sector) (style : CurrencyStyle) :
    ∃ text content v', v.worded f.kind style = .ok text ∧ Scan.Spells text.toList [(content, text)] ∧
      v'.same v = true ∧ ∀ t rest, t.content = content → readValue f (t :: rest) = .ok (v', 1) := by
  by_cases htext : f.kind = .text
  · obtain ⟨s, rfl, hworded, htrim, hquote, hcoerce⟩ := h.quoted htext style
    have hchars : ("\x22" ++ s ++ "\x22").toList = '\x22' :: (s.toList ++ ['\x22']) := by simp
    have hspells := Scan.spells_quoted hquote
    rw [← hchars, String.ofList_toList, ← Text.trim, htrim] at hspells
    refine ⟨_, _, .text s, hworded, hspells, by simp [Value.same], fun t rest ht => ?_⟩
    simp only [readValue, if_neg hk, ht, if_pos htext, hcoerce]
    rfl
  · obtain ⟨w, hworded, v', hv', hsame⟩ := h.figures htext style
    have hspells := Scan.spells_number w.negative w.whole_digits w.whole_nonempty w.fraction_digits w.mark_known
    refine ⟨_, .number w.value w.mark false, v', hworded, ?_, hsame, fun t rest ht => ?_⟩
    · rw [String.toList_ofList]
      exact hspells
    · simp only [readValue, if_neg hk, ht, hv']
      rfl

/-- A field, a sign and a value in words. -/
theorem Scan.spells_comparison (hf : f ∈ Catalog.builtin.fields) (hk : f.kind ≠ .sector) {op : Operator} (hop : op ≠ .between)
    {value : String} {said : List (Content × String)} (h : Spells value.toList said) :
    Spells (f.label ++ " " ++ op.sign ++ " " ++ value).toList
      ((Text.words f.label).map wordSaid ++ (.compare op, op.sign) :: said) := by
  have hbuiltin : f ∈ Catalog.builtinFields := Catalog.fields_ofFields Catalog.builtinFields ▸ hf
  obtain ⟨hlabel, ⟨w, ws, hwords, -⟩, hspelled, -⟩ := Catalog.spelled_of_label hbuiltin hk
  have hall := (h.cons_sign hop).append_words (hwords ▸ List.cons_ne_nil _ _) hspelled
  rw [hlabel] at hall
  simpa using hall

/-- **A comparison in words** is read as a comparison with a value that is the same. -/
theorem Comparison.Sayable.worded (h : cmp.Sayable) (style : CurrencyStyle) :
    ∃ text said v, cmp.worded Catalog.builtin style = .ok text ∧ v.same cmp.value = true ∧ Scan.Spells text.toList said ∧
      ∀ ts, ts.map Token.said = said → Filters Catalog.builtin Token.Plain ts (.compare { cmp with value := v }) := by
  obtain ⟨f, hf, hk, hop, hbetween, hvalue⟩ := h
  have hmem := Catalog.mem_fields_of_field? hf
  obtain ⟨value, content, v, hworded, hspells, hsame, hread⟩ := hvalue.written hk style
  have hkey : f.key ≠ "sector" := fun hkey => hk ((regular_builtin.sector f hmem).2 hkey)
  refine ⟨f.label ++ " " ++ cmp.op.sign ++ " " ++ value,
    (Text.words f.label).map Scan.wordSaid ++ (.compare cmp.op, cmp.op.sign) :: [(content, value)], v, ?_, hsame,
    Scan.spells_comparison hmem hk hbetween hspells, ?_⟩
  · rw [Comparison.worded, Catalog.named, hf]
    dsimp only
    rw [hworded]
    rfl
  · intro ts hts
    obtain ⟨names, values, rfl, hnames, hvalues⟩ := List.map_eq_append_iff.1 hts
    obtain ⟨sign, values, rfl, hsign, hvalues⟩ := List.map_eq_cons_iff.1 hvalues
    obtain ⟨t, values, rfl, ht, hnil⟩ := List.map_eq_cons_iff.1 hvalues
    rw [List.map_eq_nil_iff.1 hnil]
    refine Clause.filters_of_values (Clause.fieldAt?_label hf hk hnames) (Prod.mk.inj hsign).1 fun rest _ _ => ?_
    have hcomparison : Clause.comparison f cmp.op v = .compare { cmp with value := v } := by
      rw [Clause.comparison, if_neg (by simpa using hkey), Catalog.key_of_field? hf]
    simp only [readFilter, if_neg hbetween, List.cons_append, List.nil_append, hread t rest (Prod.mk.inj ht).1, bind,
      Except.bind, List.contains_iff_mem.2 hop, if_true, hcomparison]
    rfl

/-! ## Sectors -/

namespace Clause

/-- The set that a sector is compared with. -/
def sectorFilter (op : Operator) (name : String) : Predicate :=
  if op = .ne then .sectorOut (.ofList [name]) else .sectorIn (.ofList [name])

/-- What the tokens of a comparison with a sector say. -/
def sectorSaid (op : Operator) (name : String) : List (Content × String) :=
  Scan.wordSaid "sector" :: (.compare op, op.sign) :: (Text.words name).map Scan.wordSaid

/-- A comparison with a sector in words. -/
theorem spells_sector {op : Operator} (hop : op ≠ .between) {name : String} (h : name ∈ Sector.listed) :
    Scan.Spells ("sector " ++ op.sign ++ " " ++ name).toList (sectorSaid op name) := by
  obtain ⟨hjoined, hne, hspelled, -⟩ := Sector.spelled_of_listed h
  have hall := ((Scan.spells_words hne hspelled).cons_sign hop).cons_word (w := "sector") (by decide)
  rw [hjoined] at hall
  simpa [sectorSaid] using hall

/-- **A sector in words** is read as a set of its own. -/
theorem filters_sector {op : Operator} (hop : op = .eq ∨ op = .ne) {name : String} (h : name ∈ Sector.listed) :
    ∃ said, Scan.Spells ("sector " ++ op.sign ++ " " ++ name).toList said ∧
      ∀ ts, ts.map Token.said = said → Filters Catalog.builtin Token.Plain ts (sectorFilter op name) := by
  obtain ⟨-, hne, -⟩ := Sector.spelled_of_listed h
  have hbetween : op ≠ .between := by rcases hop with rfl | rfl <;> decide
  refine ⟨sectorSaid op name, spells_sector hbetween h, fun ts hts => ?_⟩
  obtain ⟨t, ts, rfl, ht, hts⟩ := List.map_eq_cons_iff.1 hts
  obtain ⟨sign, names, rfl, hsign, hnames⟩ := List.map_eq_cons_iff.1 hts
  refine ⟨t, sign :: names, rfl, fun rest hends hrest => ?_⟩
  have hat : sectorAt? (names ++ rest) true = some (name, names.length) :=
    EndsPlainly.sectorAt? ⟨hends, hrest⟩ h hnames
  obtain ⟨f, hf, hkind, hkey, hoperators⟩ : ∃ f, Catalog.builtin.field? "sector" = some f ∧ f.kind = .sector ∧
      f.key = "sector" ∧ f.operators = [.eq, .ne] := ⟨Catalog.identityFields[2], by decide +kernel, rfl, rfl, rfl⟩
  have hvalue : readValue f (names ++ rest) = .ok (.text name, names.length) := by
    cases names with
    | nil => exact absurd (List.map_eq_nil_iff.1 hnames.symm) hne
    | cons u names => simp only [readValue, List.cons_append, if_pos hkind] at hat ⊢; rw [hat]
  have hfilter : readFilter f op (names ++ rest) = .ok (sectorFilter op name, names.length) := by
    have hcontains : f.operators.contains op = true := by rw [hoperators]; rcases hop with rfl | rfl <;> decide
    simp only [readFilter, if_neg hbetween, hvalue, bind, Except.bind, hcontains, if_true, comparison, hkey]
    rfl
  have hcontent : t.content = .keyword .sector := (Prod.mk.inj ht).1
  have hcompare : sign.content = .compare op := (Prod.mk.inj hsign).1
  have hread : readComparison f 1 op (t :: sign :: (names ++ rest)) = (.filter (sectorFilter op name), 1 + 1 + names.length) := by
    simp only [readComparison, List.drop_succ_cons, List.drop_zero, hfilter]
  rw [read.eq_def, List.cons_append]
  simp only [hcontent, readKeyword, List.drop_succ_cons, List.drop_zero, hcompare, hf, readKeyword.single, hread,
    List.length_cons]
  congr 1
  omega

end Clause
end EquityScreen
