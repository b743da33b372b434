/-
Words that can be cut into tokens.

A text is legible when it is cut into tokens and none of them is a number that cannot be worked out. Words are,
and what is put together from legible texts with connectives, parentheses and commas (`Legible.joined`). A value
of a field is, whatever it is: no number is written with so many digits that it is immense, and an infinite one is
written as a word with a fraction behind it; only a text must not hold the quote that it stands between
(`Value.legible_worded`). So filters in words are legible (`Predicate.legible_worded`).
-/
import EquityScreen.Proofs.Draft.Parts
import EquityScreen.Proofs.Wording.Sentence

namespace EquityScreen

open Decimal (digitCount leastPower greatestPower)
open Scan (Spells wordSaid)
open Text (joined)

namespace Scan

/-- Not an immense number. -/
def Mild (x : Content × String) : Prop := ∀ d unit currency, x.1 = .number d unit currency → ¬ Catalog.Immense d unit

theorem mild_wordSaid (w : String) : Mild (wordSaid w) := by
  intro d unit currency h
  unfold wordSaid wordContent at h
  split at h <;> exact Content.noConfusion h

theorem mild_comma {text : String} : Mild (.comma, text) := fun _ _ _ h => Content.noConfusion h

theorem mild_openParen {text : String} : Mild (.openParen, text) := fun _ _ _ h => Content.noConfusion h

theorem mild_closeParen {text : String} : Mild (.closeParen, text) := fun _ _ _ h => Content.noConfusion h

theorem mild_compare {op : Operator} {text : String} : Mild (.compare op, text) := fun _ _ _ h => Content.noConfusion h

theorem mild_quoted {phrase text : String} : Mild (.quoted phrase, text) := fun _ _ _ h => Content.noConfusion h

theorem mild_words (ws : List String) : ∀ x ∈ ws.map wordSaid, Mild x := fun x hx => by
  obtain ⟨w, -, rfl⟩ := List.mem_map.1 hx
  exact mild_wordSaid w

/-- A number whose first digit stands at an ordinary power of ten. -/
theorem mild_number {d : Decimal} {unit : Option UnitMark} {text : String} (hd : d.leading < 3000)
    (hunit : ∀ s, unit ≠ some (.other s)) : Mild (.number d unit false, text) := by
  have hgreat : greatestPower = 999999 := rfl
  rintro _ _ _ ⟨⟩ (hlarge | ⟨s, hs⟩)
  · omega
  · exact hunit s hs

end Scan

/-- The text is cut into tokens, and no number among them is immense. -/
def Legible (text : String) : Prop := ∃ said, Spells text.toList said ∧ ∀ x ∈ said, Scan.Mild x

/-! ## Texts put together -/

namespace Legible

variable {s t text : String} {texts : List String}

theorem words {ws : List String} (hne : ws ≠ []) (hws : ∀ w ∈ ws, Scan.isSpelled w.toList = true) :
    Legible (joined " " ws) :=
  ⟨_, Scan.spells_words hne hws, Scan.mild_words ws⟩

/-- Two texts with a connective between them. -/
theorem connected (k : Connective) (hs : Legible s) (ht : Legible t) : Legible (s ++ (" " ++ k.word ++ " ") ++ t) := by
  obtain ⟨said, hsaid, hmild⟩ := hs
  obtain ⟨said', hsaid', hmild'⟩ := ht
  refine ⟨said ++ wordSaid k.word :: said', ?_,
    List.forall_mem_append.2 ⟨hmild, List.forall_mem_cons.2 ⟨Scan.mild_wordSaid _, hmild'⟩⟩⟩
  have hword := hsaid'.cons_word (w := k.word) (by cases k <;> decide)
  have hall := hsaid.space hword (by cases k <;> simp [Connective.word] <;> decide)
  simpa using hall

theorem grouped (h : Legible text) (b : Bool) : Legible (EquityScreen.grouped b text) := by
  cases b with
  | false => exact h
  | true =>
    obtain ⟨said, hsaid, hmild⟩ := h
    refine ⟨(.openParen, "(") :: (said ++ [(.closeParen, ")")]), ?_, List.forall_mem_cons.2 ⟨Scan.mild_openParen,
      List.forall_mem_append.2 ⟨hmild, List.forall_mem_singleton.2 Scan.mild_closeParen⟩⟩⟩
    have hall := hsaid.parens
    simpa [EquityScreen.grouped] using hall

theorem comma (hs : Legible s) (ht : Legible t) : Legible (s ++ ", " ++ t) := by
  obtain ⟨said, hsaid, hmild⟩ := hs
  obtain ⟨said', hsaid', hmild'⟩ := ht
  refine ⟨said ++ (.comma, ",") :: said', ?_,
    List.forall_mem_append.2 ⟨hmild, List.forall_mem_cons.2 ⟨Scan.mild_comma, hmild'⟩⟩⟩
  have hall := hsaid.comma hsaid'
  simpa using hall

/-- **Legible texts in a row** are legible where two of them are. -/
theorem joined {separator : String} (hpair : ∀ {s t}, Legible s → Legible t → Legible (s ++ separator ++ t))
    (hne : texts ≠ []) (h : ∀ text ∈ texts, Legible text) : Legible (Text.joined separator texts) := by
  induction texts with
  | nil => exact absurd rfl hne
  | cons text texts ih =>
    rw [List.forall_mem_cons] at h
    cases texts with
    | nil => exact h.1
    | cons => exact hpair h.1 (ih (List.cons_ne_nil _ _) h.2)

/-- The names of sectors after a word. -/
theorem sectors {names : List String} (h : Sector.Listed names) {w : String} (hw : Scan.isSpelled w.toList = true) :
    Legible (w ++ " " ++ sectorPhrase names) := by
  obtain ⟨said, noun, hspells, hworded, -⟩ := Draft.spells_sectors h hw
  have hmild : ∀ x ∈ said, Scan.Mild x := fun x hx => by
    rcases hworded x hx with hcomma | ⟨w, rfl⟩
    · intro d unit currency hnumber
      exact absurd (hcomma.symm.trans hnumber) Content.noConfusion
    · exact Scan.mild_wordSaid w
  exact ⟨_, hspells, List.forall_mem_cons.2 ⟨Scan.mild_wordSaid _,
    List.forall_mem_append.2 ⟨hmild, List.forall_mem_singleton.2 (Scan.mild_wordSaid _)⟩⟩⟩

end Legible

/-! ## Numbers -/

/-- The first digit of the decimal stands at an ordinary power of ten, unless it is zero. -/
def Decimal.Modest (d : Decimal) : Prop := d.coefficient ≠ 0 → d.leading < 3000

/-- A modest decimal is legible when it is trimmed, with whatever mark. -/
theorem Decimal.Modest.legible {d : Decimal} (h : d.Modest) (places : Nat) (mark : Option UnitMark)
    (hmark : ∀ s, mark ≠ some (.other s)) : Legible (d.trimmed places ++ (mark.map UnitMark.spelling).getD "") := by
  obtain ⟨w, rfl, hchars, halike⟩ := d.trimmed_figures places mark hmark
  rw [← hchars]
  refine ⟨[(.number w.value w.mark false, String.ofList w.chars)], ?_,
    List.forall_mem_singleton.2 (Scan.mild_number ?_ w.mark_known)⟩
  · rw [String.toList_ofList]
    exact Scan.spells_number w.negative w.whole_digits w.whole_nonempty w.fraction_digits w.mark_known
  · by_cases hc : d.coefficient = 0
    · have hzero : digitCount 0 = 1 := by decide
      have hexponent : w.value.exponent ≤ 0 := show -(w.fraction.length : Int) ≤ 0 by omega
      unfold leading
      rw [halike.coefficient_eq_zero.1 hc, hzero]
      omega
    · rw [← halike.leading hc]
      exact h hc

/-- **An amount that can be abbreviated** is legible. -/
theorem Decimal.legible_abbreviated {d : Decimal} (he : leastPower + 12 ≤ d.exponent) {ms : List Magnitude} {text : String}
    (hd : ms = [] → d.Modest) (h : d.abbreviated ms = .ok text) : Legible text := by
  induction ms with
  | nil =>
    have hlegible := (hd rfl).legible 0 none (by simp)
    rw [← Except.ok.inj h]
    rwa [Option.map_none, Option.getD_none, String.append_empty] at hlegible
  | cons m ms ih =>
    have hm := places_le_twelve m
    by_cases hc : d.coefficient = 0
    · have hfitted : d.fitted = some { d with exponent := max leastPower (min greatestPower d.exponent) } := if_pos hc
      simp only [abbreviated, hfitted, AmountError.result, bind, Except.bind, reaches, hc, bne_self_eq_false,
        Bool.false_and, Bool.false_eq_true, if_false] at h
      exact ih (fun _ hne => absurd hc hne) h
    · cases hr : d.fitted with
      | none => simp [abbreviated, hr, AmountError.result, bind, Except.bind] at h
      | some r =>
        obtain ⟨hrc, -, hlead⟩ := fitted_some hc (by omega) hr
        have hs := shift_fitted hc m.places (by omega) hr
        simp only [abbreviated, hr, hs, AmountError.result, bind, Except.bind] at h
        split at h
        · split at h
          · exact absurd h (by simp)
          · next hshort =>
            -- What leaves two places at most has no more than 26 digits in front of them.
            have hscaled : ({ r with exponent := r.exponent - m.places } : Decimal).leading < 26 := by
              have hprecision : precision = 28 := rfl
              have hfits : ¬ ((precision : Int) < _ + 1 + (2 : Nat)) := fun hlong => hshort (decide_eq_true hlong)
              omega
            split at h
            · have hmodest : ({ r with exponent := r.exponent - m.places } : Decimal).Modest := fun _ => by omega
              rw [← Except.ok.inj h]
              exact hmodest.legible 0 (some (.magnitude m)) (by simp)
            · refine ih (fun _ _ => ?_) h
              unfold leading at hlead hscaled ⊢
              dsimp only at hscaled
              omega
        · next hreach =>
          refine ih (fun _ _ => ?_) h
          simp only [reaches, Bool.and_eq_true, bne_iff_ne, decide_eq_true_eq, not_and] at hreach
          have hbelow := hreach hrc
          omega

namespace Scan

/-- Infinity with a fraction behind it is a word and a number. -/
theorem spells_infinity (negative : Bool) {fs : List Char} (hfs : Digits fs) (hne : fs ≠ []) {u : Option UnitMark}
    (hu : ∀ s, u ≠ some (.other s)) :
    Spells (Decimal.signChars negative ++ ("Infinity".toList ++ ('.' :: fs ++ markChars u)))
      [wordSaid "Infinity", (.number ⟨false, Text.digitsValue fs, -(fs.length : Int)⟩ u false,
        String.ofList ('.' :: fs ++ markChars u))] := by
  have hspelled : isSpelled "Infinity".toList = true := by decide
  refine ⟨?_, List.forall_mem_cons.2 ⟨plainly_of_isSpelled hspelled, List.forall_mem_singleton.2 ⟨nofun, nofun, nofun⟩⟩,
    fun {rest more} hrest hcuts => ?_⟩
  · cases negative with
    | true => exact ⟨'-', _, rfl, by decide⟩
    | false => exact (visible_of_isSpelled hspelled).append _
  · have hfraction := hcuts.cons (begins_fraction hfs hne hu hrest)
    have hword := hfraction.cons (begins_spelled hspelled (stops_cons (by decide)))
    rw [String.ofList_toList] at hword
    rw [List.append_assoc, List.append_assoc]
    cases negative with
    | true => exact hword.idle (by decide) rfl
    | false => exact hword

end Scan

/-- An infinite quantity is legible when it is trimmed, with whatever mark. -/
theorem Quantity.legible_infinite (negative : Bool) {places : Nat} (hplaces : places ≠ 0) (mark : Option UnitMark)
    (hmark : ∀ s, mark ≠ some (.other s)) :
    Legible ((Quantity.infinite negative).trimmed places ++ (mark.map UnitMark.spelling).getD "") := by
  have hchars : trimmedChars places (Quantity.infinite negative).text.toList =
      Decimal.signChars negative ++ ("Infinity".toList ++ '.' :: List.replicate places '0') := by
    obtain ⟨places, rfl⟩ := Nat.exists_eq_succ_of_ne_zero hplaces
    cases negative <;> rfl
  have hspells := Scan.spells_infinity negative (Decimal.digits_zeros places) (by simpa using hplaces) hmark
  have htext : ((Quantity.infinite negative).trimmed places ++ (mark.map UnitMark.spelling).getD "").toList =
      Decimal.signChars negative ++ ("Infinity".toList ++ ('.' :: List.replicate places '0' ++ Scan.markChars mark)) := by
    rw [String.toList_append, Quantity.trimmed, hchars, String.toList_ofList, Scan.markChars]
    · simp
    · simp
  have hleading : (⟨false, Text.digitsValue (List.replicate places '0'), -((List.replicate places '0').length : Int)⟩ :
      Decimal).leading < 3000 := by
    have hzero : digitCount 0 = 1 := by decide
    have hdigits := Text.digitsValue_append_zeros [] places
    rw [List.nil_append] at hdigits
    unfold Decimal.leading
    dsimp only
    rw [hdigits, show Text.digitsValue [] = 0 from rfl, Nat.zero_mul, hzero]
    omega
  rw [← htext] at hspells
  exact ⟨_, hspells, List.forall_mem_cons.2 ⟨Scan.mild_wordSaid _,
    List.forall_mem_singleton.2 (Scan.mild_number hleading hmark)⟩⟩

/-! ## Values -/

/-- No text in the comparison holds a double quote. -/
def Comparison.Unquoted (cmp : Comparison) : Prop := ∀ s, cmp.value = .text s → '\x22' ∉ s.toList

variable {style : CurrencyStyle} {text : String}

theorem Double.modest_toDecimal (negative : Bool) {steps : Nat} (below : steps < stepLimit) (places : Int) (h : places ≤ 2) :
    Decimal.Modest { toDecimal negative steps with exponent := (toDecimal negative steps).exponent + places } := by
  have hhigh := (ordinary_toDecimal negative below).high
  unfold Decimal.leading at hhigh
  intro _
  unfold Decimal.leading
  dsimp only
  omega

/-- A double as a percentage is legible. -/
theorem Double.legible_percentage {x : Double} (hx : x ≠ .nan)
    (h : (Number.double x).toQuantity.worded .percentage style = .ok text) : Legible text := by
  cases x with
  | nan => exact absurd rfl hx
  | infinite negative =>
    simp only [Number.toQuantity, Quantity.worded, Quantity.shift] at h
    obtain rfl := Except.ok.inj h
    exact Quantity.legible_infinite negative (show 1 ≠ 0 by decide) (some .percent) (by simp)
  | finite negative steps below fits =>
    have hshift := (ordinary_toDecimal negative below).shift 2 (by decide) (by decide)
    have hmodest := modest_toDecimal negative below 2 (by decide)
    simp only [Number.toQuantity, Quantity.worded, Quantity.shift, hshift, Quantity.ofResult] at h
    generalize toDecimal negative steps = d at h hmodest
    obtain rfl := Except.ok.inj h
    exact hmodest.legible 1 (some .percent) (by simp)

/-- A double as a multiple is legible. -/
theorem Double.legible_ratio {x : Double} (hx : x ≠ .nan)
    (h : (Number.double x).toQuantity.worded .ratio style = .ok text) : Legible text := by
  cases x with
  | nan => exact absurd rfl hx
  | infinite negative =>
    have hlegible := Quantity.legible_infinite negative (show 2 ≠ 0 by decide) none nofun
    simp only [Number.toQuantity, Quantity.worded] at h
    obtain rfl := Except.ok.inj h
    rwa [Option.map_none, Option.getD_none, String.append_empty] at hlegible
  | finite negative steps below fits =>
    have hmodest := modest_toDecimal negative below 0 (by decide)
    simp only [Number.toQuantity, Quantity.worded] at h
    generalize toDecimal negative steps = d at h hmodest
    obtain rfl := Except.ok.inj h
    rw [Int.add_zero] at hmodest
    have hlegible := hmodest.legible 2 none nofun
    rwa [Option.map_none, Option.getD_none, String.append_empty] at hlegible

/-- An amount is legible, abbreviated or not. -/
theorem Number.legible_amount {n : Number} {k : Kind} (hk : k = .currency ∨ k = .numeric)
    (h : n.toQuantity.worded k style = .ok text) : Legible text := by
  cases hq : n.toQuantity with
  | finite d =>
    have hne : style.magnitudes ≠ [] := by cases style <;> exact List.cons_ne_nil _ _
    have habbreviated : d.abbreviated style.magnitudes = .ok text := by
      rw [hq] at h
      rcases hk with rfl | rfl <;> exact h
    exact Decimal.legible_abbreviated (toQuantity_exponent hq) (fun hnil => absurd hnil hne) habbreviated
  | infinite | nan =>
    rw [hq] at h
    rcases hk with rfl | rfl <;> simp [Quantity.worded] at h

/-- **A value in words** is legible unless it is a text with a double quote. -/
theorem Value.legible_worded {k : Kind} {v : Value} (hv : k.Takes v) (hquote : ∀ s, v = .text s → '\x22' ∉ s.toList)
    (h : v.worded k style = .ok text) : Legible text := by
  have hquantity : ∀ {n : Number} {k : Kind}, k ≠ .text → k ≠ .sector → (Value.number n).worded k style = .ok text →
      n.toQuantity.worded k style = .ok text := fun {n k} _ _ hw => by
    cases k <;> first | contradiction | simpa only [worded, quantity?, Except.mapError_ok_iff] using hw
  unfold Kind.Takes at hv
  split at hv
  · next s =>
    have hspells := Scan.spells_quoted (hquote s rfl)
    have hchars : ("\x22" ++ s ++ "\x22").toList = '\x22' :: (s.toList ++ ['\x22']) := by simp
    rw [← hchars] at hspells
    rw [← Except.ok.inj h]
    exact ⟨_, hspells, List.forall_mem_singleton.2 Scan.mild_quoted⟩
  · exact Double.legible_percentage hv (hquantity (by decide) (by decide) h)
  · exact Double.legible_ratio hv (hquantity (by decide) (by decide) h)
  · exact Number.legible_amount (.inl rfl) (hquantity (by decide) (by decide) h)
  · exact Number.legible_amount (.inr rfl) (hquantity (by decide) (by decide) h)
  · exact absurd hv id

/-! ## Filters -/

/-- A comparison in words is legible. -/
theorem Comparison.legible_worded {cmp : Comparison} (h : cmp.Fits Catalog.builtin) (hquote : cmp.Unquoted)
    (hw : cmp.worded Catalog.builtin style = .ok text) : Legible text := by
  obtain ⟨f, hf, hop, -, htakes⟩ := h
  have hk : f.kind ≠ .sector := fun hk => by rw [hk] at htakes; exact htakes
  simp only [Comparison.worded, Catalog.named, hf] at hw
  obtain ⟨value, hvalue, rfl⟩ := Except.map_ok_iff.1 hw
  obtain ⟨said, hspells, hmild⟩ := Value.legible_worded htakes hquote hvalue
  exact ⟨_, Scan.spells_comparison (Catalog.mem_fields_of_field? hf) hk hop hspells,
    List.forall_mem_append.2 ⟨Scan.mild_words _, List.forall_mem_cons.2 ⟨Scan.mild_compare, hmild⟩⟩⟩

/-- Comparisons with sectors in a row are legible. -/
theorem Legible.sector_row (k : Connective) {op : Operator} (hop : op ≠ .between) {names : List String} (hne : names ≠ [])
    (h : ∀ name ∈ names, name ∈ Sector.listed) :
    Legible (Text.joined (" " ++ k.word ++ " ") (names.map ("sector " ++ op.sign ++ " " ++ ·))) := by
  refine .joined (.connected k) (by simpa using hne) (List.forall_mem_map.2 fun name hname => ?_)
  exact ⟨_, Clause.spells_sector hop (h name hname), List.forall_mem_cons.2 ⟨Scan.mild_wordSaid _,
    List.forall_mem_cons.2 ⟨Scan.mild_compare, Scan.mild_words _⟩⟩⟩

namespace Predicate

variable {p : Predicate} {under : Connective}

/-- **A filter in words** is legible. -/
theorem legible_worded (h : p.WellFormed Catalog.builtin) (hquote : p.Every Comparison.Unquoted)
    (hw : p.worded Catalog.builtin style under = .ok text) : Legible text := by
  induction p generalizing under text with
  | all => exact absurd h id
  | compare cmp => exact Comparison.legible_worded h.fits (every_compare.1 hquote) hw
  | sectorIn s =>
    have hsorted := Draft.sorted_listed h
    rw [← Except.ok.inj hw]
    exact (Legible.sector_row .or (show Operator.eq ≠ .between by decide) hsorted.1 hsorted.2).grouped _
  | sectorOut s =>
    have hsorted := Draft.sorted_listed h
    rw [← Except.ok.inj hw]
    exact (Legible.sector_row .and (show Operator.ne ≠ .between by decide) hsorted.1 hsorted.2).grouped _
  | and l r ihl ihr =>
    obtain ⟨hl, hr⟩ := every_and.1 hquote
    obtain ⟨⟨s, hs⟩, t, ht⟩ := wordedPair_ok_iff.1 ⟨text, hw⟩
    rw [worded, hs, ht] at hw
    rw [← Except.ok.inj hw]
    exact (ihl h.1 hl hs).connected .and (ihr h.2 hr ht)
  | or l r ihl ihr =>
    obtain ⟨hl, hr⟩ := every_or.1 hquote
    rw [worded] at hw
    obtain ⟨pair, hpair, rfl⟩ := Except.map_ok_iff.1 hw
    obtain ⟨⟨s, hs⟩, t, ht⟩ := wordedPair_ok_iff.1 ⟨pair, hpair⟩
    rw [hs, ht] at hpair
    rw [← Except.ok.inj hpair]
    exact ((ihl h.1 hl hs).connected .or (ihr h.2 hr ht)).grouped _

end Predicate

/-! ## The parts of a sentence -/

theorem Predicate.WellFormed.conjuncts {c : Catalog} {p : Predicate} (h : p.WellFormed c) :
    ∀ q ∈ p.conjuncts, q.WellFormed c :=
  forall_conjuncts (fun _ _ h => h) h

namespace Outline

variable {c : Catalog} {o : Outline} {p : Predicate} {texts : List String}

/-- Everything in the outline is well-formed. -/
structure WellFormed (c : Catalog) (o : Outline) : Prop where
  rest : ∀ p ∈ o.rest, p.WellFormed c
  included : ∀ s ∈ o.included, Sector.Listed s.names
  excluded : ∀ name ∈ o.excluded, name ∈ Sector.listed

/-- A conjunct more is sorted out. -/
theorem WellFormed.add (h : o.WellFormed c) (hp : p.WellFormed c) : (o.add p).WellFormed c := by
  unfold Outline.add
  split
  · exact ⟨h.rest, fun s hs => Option.some.inj hs ▸ hp, h.excluded⟩
  · refine ⟨h.rest, h.included, List.forall_mem_append.2 ⟨h.excluded, fun name hname => ?_⟩⟩
    exact hp.2 name (Predicate.mem_sorted.1 (List.mem_filter.1 hname).1)
  · exact ⟨List.forall_mem_append.2 ⟨h.rest, List.forall_mem_singleton.2 hp⟩, h.included, h.excluded⟩

/-- The outline of a well-formed filter. -/
theorem wellFormed_ofPredicate (h : p = .all ∨ p.WellFormed c) : (ofPredicate p).WellFormed c := by
  have hfold : ∀ (ps : List Predicate) (o : Outline), (∀ q ∈ ps, q.WellFormed c) → o.WellFormed c →
      (ps.foldl Outline.add o).WellFormed c := by
    intro ps
    induction ps with
    | nil => exact fun o _ ho => ho
    | cons q ps ih =>
      intro o hps ho
      rw [List.forall_mem_cons] at hps
      exact ih _ hps.2 (ho.add hps.1)
  refine hfold _ {} ?_ ⟨nofun, nofun, nofun⟩
  rcases h with rfl | h
  · exact fun q hq => absurd hq List.not_mem_nil
  · exact h.conjuncts

/-- **Each part about filters and sectors** is legible. -/
theorem WellFormed.legible_parts (h : o.WellFormed Catalog.builtin) (hquote : ∀ q ∈ o.rest, q.Every Comparison.Unquoted)
    (hw : wordedAll Catalog.builtin style (Catalog.builtin.arranged o.rest) = .ok texts) :
    ∀ part ∈ filterPart texts ++ includedPart o.included ++ excludedPart o.excluded, Legible part := by
  refine List.forall_mem_append.2 ⟨List.forall_mem_append.2 ⟨fun part hpart => ?_, fun part hpart => ?_⟩, fun part hpart => ?_⟩
  · unfold filterPart at hpart
    split at hpart
    · exact absurd hpart List.not_mem_nil
    · next hne =>
      rw [List.mem_singleton.1 hpart]
      refine .joined (.connected .and) (by simpa using hne) fun text htext => ?_
      obtain ⟨q, hq, hworded⟩ := Except.exists_of_mem_mapM hw text htext
      have hmem : q ∈ o.rest := List.mem_mergeSort.1 hq
      exact Predicate.legible_worded (h.rest q hmem) (hquote q hmem) hworded
  · obtain ⟨s, hs, rfl⟩ := Option.map_eq_some_iff.1 (Option.mem_toList.1 hpart)
    exact .sectors (h.included s hs) (w := "in") (by decide)
  · unfold excludedPart at hpart
    split at hpart
    · exact absurd hpart List.not_mem_nil
    · next hne =>
      rw [List.mem_singleton.1 hpart]
      exact .sectors ⟨by simpa using hne, h.excluded⟩ (w := "excluding") (by decide)

end Outline

/-- Parts about filters and sectors in a row are legible, and so is what stands where there are none. -/
theorem Legible.parts {parts : List String} (h : ∀ part ∈ parts, Legible part) :
    Legible (Text.joined ", " (if parts.isEmpty then [allSecurities] else parts)) := by
  split
  · exact .words (List.cons_ne_nil "all" ["securities"]) (by decide)
  · next hne => exact .joined .comma (by simpa using hne) h

end EquityScreen
