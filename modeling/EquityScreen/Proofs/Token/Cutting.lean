/-
How a text that was put together from words, numbers and signs is cut into tokens.

What a place is cut into depends on what stands there and on the character after it. A text is taken
apart from its front (`Cuts`): a word that begins no number and no comparison in words
(`begins_word`), a comparison sign (`begins_sign`), a blank (`begins_blank`).
-/
import EquityScreen.Token.Scan

namespace EquityScreen

/-- What counts of a token in reading: what it says, and its text. -/
def Token.said (t : Token) : Content × String := (t.content, t.text)

namespace Scan

open Text

/-! ## Characters -/

/-- The characters after which a word or a number is complete. -/
def stops : List Char := [' ', ',', ')', '.', ':']

/-- A text that stands after a complete word. -/
def Stops (rest : List Char) : Prop := ∀ c ∈ rest.head?, c ∈ stops

theorem stops_nil : Stops [] := nofun

theorem stops_cons {c : Char} {rest : List Char} (h : c ∈ stops) : Stops (c :: rest) :=
  fun _ hc => Option.some.inj hc ▸ h

theorem isNameTail_of_mem_stops {c : Char} (h : c ∈ stops) : isNameTail c = false := by
  simpa using List.all_eq_true.1 (show stops.all (!isNameTail ·) = true by decide) c h

theorem isWordChar_of_mem_stops {c : Char} (h : c ∈ stops) : isWordChar c = false := by
  simpa using List.all_eq_true.1 (show stops.all (!isWordChar ·) = true by decide +kernel) c h

theorem isNameChar_of_mem_stops {c : Char} (h : c ∈ stops) : isNameChar c = false := by
  simpa using List.all_eq_true.1 (show stops.all (!isNameChar ·) = true by decide) c h

theorem foldLetter_of_mem_stops {c : Char} (h : c ∈ stops) : foldLetter c = c := by
  simpa using List.all_eq_true.1 (show stops.all (fun d => foldLetter d == d) = true by decide) c h

theorem isDigit_of_mem_stops {c : Char} (h : c ∈ stops) : isDigit c = false := by
  simpa using List.all_eq_true.1 (show stops.all (!isDigit ·) = true by decide) c h

theorem nameEnds_of_stops {rest : List Char} (h : Stops rest) : Numeral.nameEnds rest = true := by
  cases rest with
  | nil => rfl
  | cons c rest => simp [Numeral.nameEnds, isNameChar_of_mem_stops (h c rfl)]

theorem wordEnds_of_stops {rest : List Char} (h : Stops rest) : wordEnds rest = true := by
  cases rest with
  | nil => rfl
  | cons c rest => simp [wordEnds, isWordChar_of_mem_stops (h c rfl)]

theorem takeWhile_isNameTail {w rest : List Char} (hw : w.all isNameTail = true) (h : Stops rest) :
    (w ++ rest).takeWhile isNameTail = w := by
  rw [List.takeWhile_append_of_pos (List.all_eq_true.1 hw)]
  cases rest with
  | nil => simp
  | cons c rest => simp [isNameTail_of_mem_stops (h c rfl)]

theorem dropWhile_isNameTail {w rest : List Char} (hw : w.all isNameTail = true) (h : Stops rest) :
    (w ++ rest).dropWhile isNameTail = rest := by
  rw [List.dropWhile_append_of_pos (List.all_eq_true.1 hw)]
  cases rest with
  | nil => rfl
  | cons c rest => simp [isNameTail_of_mem_stops (h c rfl)]

/-! ## Words of the language at the front of a text -/

theorem readWord?_append {p w r : List Char} (h : readWord? p w = some r) (rest : List Char) :
    readWord? p (w ++ rest) = some (r ++ rest) := by
  induction p generalizing w with
  | nil =>
    rw [← Option.some.inj h]
    rfl
  | cons x p ih =>
    cases w with
    | nil => exact absurd h (by simp [readWord?])
    | cons c w =>
      simp only [readWord?, List.cons_append] at h ⊢
      split at h
      · next hc => rw [if_pos hc, ih h]
      · exact absurd h (by simp)

/-- A word that is not at the front of a complete word is not at the front of the text either. -/
theorem readWord?_append_none {p w rest : List Char} (hp : p.all (!stops.contains ·) = true)
    (h : readWord? p w = none) (hrest : Stops rest) : readWord? p (w ++ rest) = none := by
  induction p generalizing w with
  | nil => exact absurd h (by simp [readWord?])
  | cons x p ih =>
    rw [List.all_cons, Bool.and_eq_true] at hp
    cases w with
    | nil =>
      cases rest with
      | nil => exact h
      | cons c rest =>
        have hc := hrest c rfl
        have hne : ¬ (c == x) = true := by
          rw [beq_iff_eq]
          rintro rfl
          simpa [hc] using hp.1
        simp only [List.nil_append, readWord?, foldLetter_of_mem_stops hc, if_neg hne]
    | cons c w =>
      simp only [readWord?, List.cons_append] at h ⊢
      split at h
      · next hc => rw [if_pos hc, ih hp.2 h]
      · next hc => rw [if_neg hc]

/-! ## Letters and digits -/

/-- A list of characters is part of another. -/
theorem mem_of_all {l l' : List Char} (h : l.all l'.contains = true) {c : Char} (hc : c ∈ l) : c ∈ l' :=
  List.contains_iff_mem.1 (List.all_eq_true.1 h c hc)

/-- A property of the first 128 characters. -/
theorem of_ascii {p : Char → Bool} (h : ∀ n < 128, p (Char.ofNat n) = true) {c : Char} (hc : c.toNat < 128) :
    p c = true := by
  rw [← Char.ofNat_toNat c]
  exact h c.toNat hc

/-- The signs that a piece other than a word can begin with. -/
def openers : List Char :=
  ['\x22', '“', '\x27', '$', '₹', '+', '-', '.', ',', '%', '&', '(', ')', '<', '>', '=', '!', '≥', '≤', '≠']

/-- What a character that a word begins with is not. -/
structure Initial (c : Char) : Prop where
  name : isNameChar c = true
  blank : isBlank c = false
  opener : c ∉ openers

theorem toNat_lt_of_isAlphanum {c : Char} (h : c.isAlphanum = true) : c.toNat < 128 := by
  have hrange : (c.isUpper || c.isLower || c.isDigit) = true := h
  rcases Bool.or_eq_true_iff.1 hrange with hletter | hdigit
  · rcases Bool.or_eq_true_iff.1 hletter with hupper | hlower
    · have hbounds : 'A'.val ≤ c.val ∧ c.val ≤ 'Z'.val := of_decide_eq_true hupper
      exact Nat.lt_of_le_of_lt (UInt32.le_iff_toNat_le.1 hbounds.2) (by decide)
    · have hlast : c.val ≤ 'z'.val := of_decide_eq_true (Bool.and_eq_true_iff.1 hlower).2
      exact Nat.lt_of_le_of_lt (UInt32.le_iff_toNat_le.1 hlast) (by decide)
  · have hlast : c.val ≤ '9'.val := of_decide_eq_true (Bool.and_eq_true_iff.1 hdigit).2
    exact Nat.lt_of_le_of_lt (UInt32.le_iff_toNat_le.1 hlast) (by decide)

theorem initial_of_isAlphanum {c : Char} (h : c.isAlphanum = true) : Initial c := by
  have hall := of_ascii (p := fun c => !c.isAlphanum || (isNameChar c && !isBlank c && !openers.contains c))
    (by decide +kernel) (toNat_lt_of_isAlphanum h)
  simp only [h, Bool.not_true, Bool.false_or, Bool.and_eq_true, Bool.not_eq_true'] at hall
  exact ⟨hall.1.1, hall.1.2, by simpa using hall.2⟩

/-- A letter is no digit. -/
theorem isDigit_of_isAlpha {c : Char} (h : c.isAlpha = true) : isDigit c = false := by
  have halphanum : c.isAlphanum = true := by simp [Char.isAlphanum, h]
  have hall := of_ascii (p := fun c => !c.isAlpha || !isDigit c) (by decide +kernel) (toNat_lt_of_isAlphanum halphanum)
  simpa [h] using hall

/-! ## Numbers -/

/-- No number begins with a character that is neither a digit, a sign nor a point. -/
theorem afterNumeral_eq_nil {c : Char} {cs : List Char} (hd : isDigit c = false) (hc : c ∉ ['+', '-', '.']) :
    Numeral.afterNumeral (c :: cs) = [] := by
  simp only [List.mem_cons, List.not_mem_nil, or_false, not_or] at hc
  have hsign : Numeral.dropSign (c :: cs) = c :: cs := by
    unfold Numeral.dropSign
    split
    · next h => exact absurd (List.cons.inj h).1 hc.1
    · next h => exact absurd (List.cons.inj h).1 hc.2.1
    · rfl
  have hwhole : Numeral.afterWhole (c :: cs) = [] := by
    simp [Numeral.afterWhole, Numeral.dropDigits?, Numeral.afterDigits, hd]
  unfold Numeral.afterNumeral
  rw [hsign]
  dsimp only
  rw [hwhole]
  split
  · next h => exact absurd (List.cons.inj h).1 hc.2.2
  · rfl

/-- The letters that a mark begins with. -/
def markInitials : List Char := ['k', 'l', 'm', 'b', 't', 'x', 'c', 'p']

theorem readWord?_of_initial {c : Char} {cs p : List Char} {marks : List Char} (hc : foldLetter c ∉ marks)
    (hp : p.head?.any marks.contains = true) : readWord? p (c :: cs) = none := by
  cases p with
  | nil => exact absurd hp (by simp)
  | cons x p =>
    have hx : x ∈ marks := by simpa using hp
    have hne : ¬ (foldLetter c == x) = true := by
      rw [beq_iff_eq]
      rintro rfl
      exact hc hx
    simp only [readWord?, if_neg hne]

/-- None of the words is at the front of a text that begins with no letter that one of them does. -/
theorem filterMap_readSuffix? {c : Char} {cs : List Char} (hc : foldLetter c ∉ markInitials) {words : List String}
    (hwords : words.all (fun w => w.toList.head?.any markInitials.contains) = true) :
    words.filterMap (Numeral.readSuffix? (c :: cs)) = [] := by
  refine List.filterMap_eq_nil_iff.2 fun w hw => ?_
  rw [Numeral.readSuffix?, readWord?_of_initial hc (List.all_eq_true.1 hwords w hw)]

/-- No mark stands at the front of a text that begins with no letter that one does. -/
theorem afterSuffix_eq {c : Char} {cs : List Char} (hb : isBlank c = false) (hp : c ≠ '%')
    (hc : foldLetter c ∉ markInitials) : Numeral.afterSuffix (c :: cs) = [(none, c :: cs)] := by
  have hpercent : Numeral.afterPercent (c :: cs) = [] := by
    unfold Numeral.afterPercent
    rw [List.dropWhile_cons_of_neg (by simp [hb])]
    dsimp only
    rw [filterMap_readSuffix? hc (by decide +kernel)]
    split
    · next h => exact absurd (List.cons.inj h).1 hp
    · rfl
  have hletter : Numeral.afterLetter (c :: cs) = [] := by
    have hno : Numeral.suffixLetters.contains (foldLetter c) = false := by
      simpa using fun h => hc (mem_of_all (by decide) h)
    rw [Numeral.afterLetter, hno]
    rfl
  have hmagnitude : Numeral.afterMagnitude (c :: cs) = [] := by
    simp only [Numeral.afterMagnitude, Numeral.afterBlank, hb, Bool.false_eq_true, if_false, List.flatMap_singleton]
    rw [filterMap_readSuffix? hc (by decide +kernel), List.map_nil]
  rw [Numeral.afterSuffix, hpercent, hletter, hmagnitude]
  rfl

/-- Only the numeral of what may be a number, when nothing that may follow one does. -/
theorem find?_eq_none {cs : List Char}
    (hcurrency : ∀ r ∈ Numeral.afterCurrency cs, ∃ c r', r = c :: r' ∧ isDigit c = false ∧ c ∉ ['+', '-', '.'])
    (hnumeral : ∀ r ∈ Numeral.afterNumeral cs, ∃ c r', r = c :: r' ∧ isNameChar c = true ∧ isBlank c = false ∧
      c ≠ '%' ∧ foldLetter c ∉ markInitials) :
    Numeral.find? cs = none := by
  refine List.findSome?_eq_none_iff.2 fun start hstart => List.findSome?_eq_none_iff.2 fun r hr => ?_
  rcases List.mem_append.1 hstart with h | h
  · obtain ⟨start', hmem, rfl⟩ := List.mem_map.1 h
    obtain ⟨c, r', rfl, hd, hc⟩ := hcurrency start' hmem
    rw [afterNumeral_eq_nil hd hc] at hr
    exact absurd hr (by simp)
  · rw [List.mem_singleton.1 h] at hr
    obtain ⟨c, r', rfl, hname, hblank, hpercent, hinitial⟩ := hnumeral r hr
    rw [afterSuffix_eq hblank hpercent hinitial]
    simp [Numeral.nameEnds, hname]

/-! ## Cutting -/

/-- Wherever it stands, the text is cut into tokens that say this. -/
def Cuts (cs : List Char) (said : List (Content × String)) : Prop :=
  ∀ (fuel : Nat) (before : Option Char) (position : Nat), cs.length ≤ fuel →
    ∃ ts, tokensFrom fuel before position cs = .ok ts ∧ ts.map Token.said = said

/-- Wherever it stands, the text begins with this piece. -/
def Begins (w rest : List Char) (content : Option Content) : Prop :=
  w ≠ [] ∧ ∀ before, piece? before (w ++ rest) = some (.ok ⟨content, rest⟩)

variable {w rest : List Char} {c : Char} {said : List (Content × String)}

theorem cuts_nil : Cuts [] [] := fun fuel _ _ _ => ⟨[], by cases fuel <;> rfl, rfl⟩

/-- What is cut off a text is a token, unless it has no content. -/
theorem Cuts.cons {content : Option Content} (h : Cuts rest said) (hw : Begins w rest content) :
    Cuts (w ++ rest) ((content.map fun x => (x, String.ofList w)).toList ++ said) := by
  intro fuel before position hfuel
  obtain ⟨hne, hpiece⟩ := hw
  obtain ⟨c, cs, rfl⟩ := List.exists_cons_of_ne_nil hne
  cases fuel with
  | zero => simp at hfuel
  | succ fuel =>
    have hslice : (c :: (cs ++ rest)).take ((cs ++ rest).length + 1 - rest.length) = c :: cs := by
      rw [← List.cons_append, List.take_left' (by simp only [List.length_cons, List.length_append]; omega)]
    have hpiece := hpiece before
    rw [List.cons_append] at hpiece ⊢
    unfold tokensFrom
    simp only [hpiece, hslice]
    have hrest : rest.length ≤ fuel := by
      simp only [List.length_append, List.length_cons] at hfuel
      omega
    obtain ⟨ts, hts, hsaid⟩ := h fuel (c :: cs).getLast? (position + (c :: cs).length) hrest
    cases content with
    | none => exact ⟨ts, hts, hsaid⟩
    | some content => exact ⟨_, by rw [hts]; rfl, congrArg _ hsaid⟩

/-- A character that begins no piece is passed over. -/
theorem Cuts.skip (h : Cuts rest said) (hc : ∀ before, piece? before (c :: rest) = none) : Cuts (c :: rest) said := by
  intro fuel before position hfuel
  cases fuel with
  | zero => simp at hfuel
  | succ fuel =>
    unfold tokensFrom
    simp only [hc before]
    exact h fuel (some c) (position + 1) (Nat.le_of_succ_le_succ hfuel)

/-! ## Blanks, signs and punctuation -/

theorem begins_blank (hrest : ∀ d ∈ rest.head?, isBlank d = false) : Begins [' '] rest none := by
  refine ⟨by simp, fun before => ?_⟩
  have hdrop : rest.dropWhile isBlank = rest := by
    cases rest with
    | nil => rfl
    | cons d rest => rw [List.dropWhile_cons_of_neg (by simp [hrest d rfl])]
  have hblanks : blanks? (' ' :: rest) = some (.ok ⟨none, rest⟩) := by
    rw [blanks?, if_pos (by decide), hdrop]
  rw [List.singleton_append, piece?, hblanks]
  rfl

theorem Cuts.blank (h : Cuts (c :: rest) said) (hc : isBlank c = false) : Cuts (' ' :: c :: rest) said :=
  h.cons (begins_blank fun _ hd => Option.some.inj hd ▸ hc)

/-- No currency begins with a sign or a letter that none does. -/
theorem afterCurrency_eq_nil {cs : List Char} (hc : c ∉ ['$', '₹']) (hletter : foldLetter c ∉ ['r', 'i']) :
    Numeral.afterCurrency (c :: cs) = [] := by
  simp only [List.mem_cons, List.not_mem_nil, or_false, not_or] at hc
  have hsign : ¬ (c == '$' || c == '₹') = true := by simp [hc]
  rw [Numeral.afterCurrency, readWord?_of_initial hletter (by decide), readWord?_of_initial hletter (by decide)]
  simp only [if_neg hsign, List.append_nil]

/-- No number begins with a sign that is neither a number's nor a currency's. -/
theorem find?_of_opener {cs : List Char} (hd : isDigit c = false) (hc : c ∉ ['+', '-', '.', '$', '₹'])
    (hletter : foldLetter c ∉ ['r', 'i']) : Numeral.find? (c :: cs) = none := by
  have hcurrency : Numeral.afterCurrency (c :: cs) = [] :=
    afterCurrency_eq_nil (fun h => hc (List.mem_append_right ['+', '-', '.'] h)) hletter
  have hnumeral : Numeral.afterNumeral (c :: cs) = [] :=
    afterNumeral_eq_nil hd fun h => hc (List.mem_append_left ['$', '₹'] h)
  exact find?_eq_none (by simp [hcurrency]) (by simp [hnumeral])

theorem quoted?_eq_none {before : Option Char} {cs : List Char} (hc : c ∉ ['\x22', '“', '\x27']) :
    quoted? before (c :: cs) = none := by
  simp only [List.mem_cons, List.not_mem_nil, or_false, not_or] at hc
  unfold quoted?
  split
  · next h => exact absurd (List.cons.inj h).1 hc.1
  · next h => exact absurd (List.cons.inj h).1 hc.2.1
  · next h => exact absurd (List.cons.inj h).1 hc.2.2
  · rfl

/-- What a place is cut into where there is no blank, no quote and no number. -/
theorem piece?_of_opener {before : Option Char} {cs : List Char} (hblank : isBlank c = false)
    (hquote : c ∉ ['\x22', '“', '\x27']) (hnumber : Numeral.find? (c :: cs) = none) :
    piece? before (c :: cs) =
      (sign? (c :: cs) <|> phrase? (c :: cs) <|> word? (c :: cs) <|> punctuation? (c :: cs)) := by
  have hblanks : blanks? (c :: cs) = none := by simp [blanks?, hblank]
  rw [piece?, hblanks, quoted?_eq_none hquote, number?, hnumber]
  rfl

/-- No blank, no quoted text and no number begins with the character. -/
def opensNothing (c : Char) : Bool :=
  !isBlank c && !isDigit c && !(['\x22', '“', '\x27', '+', '-', '.', '$', '₹'].contains c) &&
    !(['r', 'i'].contains (foldLetter c))

theorem piece?_of_opensNothing {before : Option Char} {cs : List Char} (hc : opensNothing c = true) :
    piece? before (c :: cs) =
      (sign? (c :: cs) <|> phrase? (c :: cs) <|> word? (c :: cs) <|> punctuation? (c :: cs)) := by
  simp only [opensNothing, Bool.and_eq_true, Bool.not_eq_true', List.contains_eq_mem, decide_eq_false_iff_not] at hc
  obtain ⟨⟨⟨hblank, hd⟩, hsign⟩, hletter⟩ := hc
  exact piece?_of_opener hblank (fun h => hsign (mem_of_all (by decide) h))
    (find?_of_opener hd (fun h => hsign (mem_of_all (by decide) h)) hletter)

/-- The signs and the punctuation that no number begins with. -/
def punctuation : List Char := ['<', '>', '=', '!', '(', ')', ',', '&', ':']

theorem piece?_of_punctuation {before : Option Char} {cs : List Char} (hc : c ∈ punctuation) :
    piece? before (c :: cs) =
      (sign? (c :: cs) <|> phrase? (c :: cs) <|> word? (c :: cs) <|> punctuation? (c :: cs)) :=
  piece?_of_opensNothing (List.all_eq_true.1 (show punctuation.all opensNothing = true by decide) c hc)

/-- A comparison sign before a blank. -/
theorem begins_sign {op : Operator} (hop : op ≠ .between) :
    Begins op.sign.toList (' ' :: rest) (some (.compare op)) := by
  have hsign : sign? (op.sign.toList ++ ' ' :: rest) = some (.ok ⟨some (.compare op), ' ' :: rest⟩) := by
    cases op with
    | between => exact absurd rfl hop
    | _ => simp [sign?, Operator.signs, Operator.sign]; rfl
  obtain ⟨c, cs, hcs, hc⟩ : ∃ c cs, op.sign.toList = c :: cs ∧ c ∈ punctuation := by
    cases op with
    | between => exact absurd rfl hop
    | _ => exact ⟨_, _, by simp only [Operator.sign]; rfl, by decide⟩
  rw [hcs, List.cons_append] at hsign
  rw [hcs]
  refine ⟨List.cons_ne_nil _ _, fun before => ?_⟩
  rw [List.cons_append, piece?_of_punctuation hc, hsign]
  rfl

theorem Cuts.sign (h : Cuts (' ' :: rest) said) {op : Operator} (hop : op ≠ .between) :
    Cuts (op.sign.toList ++ ' ' :: rest) ((.compare op, op.sign) :: said) := by
  have hcuts := h.cons (begins_sign hop)
  rwa [String.ofList_toList] at hcuts

/-- The characters that a comparison sign begins with. -/
def signInitials : List Char := ['<', '>', '=', '!', '≥', '≤', '≠']

theorem sign?_eq_none {cs : List Char} (hc : c ∉ signInitials) : sign? (c :: cs) = none := by
  refine List.findSome?_eq_none_iff.2 fun p hp => ?_
  have hhead : ∀ p ∈ Operator.signs, p.1.toList.head?.any signInitials.contains = true := by decide
  obtain ⟨s, op⟩ := p
  have hs := hhead _ hp
  dsimp only at hs ⊢
  cases hcs : s.toList with
  | nil => rw [hcs] at hs; exact absurd hs (by simp)
  | cons x xs =>
    rw [hcs] at hs
    have hne : (x == c) = false := by
      rw [beq_eq_false_iff_ne]
      rintro rfl
      exact hc (by simpa using hs)
    rw [List.isPrefixOf, hne]
    rfl

/-- No comparison in words begins with a text that none of their first words is at the front of. -/
theorem phrase?_eq_none {cs : List Char}
    (h : ∀ p ∈ Operator.phrases, ∀ x ∈ (splitWords p.1.toList).head?, readWord? x cs = none) : phrase? cs = none := by
  refine List.findSome?_eq_none_iff.2 fun p hp => ?_
  have hwords : ∀ p ∈ Operator.phrases, splitWords p.1.toList ≠ [] := by decide
  have hread : readPhrase? (splitWords p.1.toList) cs = none := by
    cases hsplit : splitWords p.1.toList with
    | nil => exact absurd hsplit (hwords p hp)
    | cons x xs =>
      have hx := h p hp x (by rw [hsplit]; rfl)
      cases xs with
      | nil => exact hx
      | cons y ys =>
        rw [readPhrase?, hx]
        exact List.cons_ne_nil _ _
  obtain ⟨s, op⟩ := p
  dsimp only at hread ⊢
  rw [hread]

/-! ## Words -/

/-- No comparison in words begins like the word. -/
def isUncompared (w : List Char) : Bool :=
  Operator.phrases.all fun p => (splitWords p.1.toList).head?.all fun x => (readWord? x w).isNone

/-- A complete word that begins no number and no comparison in words. -/
theorem begins_of_uncompared (hc : Initial c) (hw : w.all isNameTail = true) (hphrase : isUncompared (c :: w) = true)
    (hrest : Stops rest) (hnumber : Numeral.find? (c :: w ++ rest) = none) :
    Begins (c :: w) rest (some (wordContent (c :: w))) := by
  refine ⟨List.cons_ne_nil _ _, fun before => ?_⟩
  have hfirst : ∀ p ∈ Operator.phrases, ∀ x ∈ (splitWords p.1.toList).head?, x.all (!stops.contains ·) = true := by
    decide
  have hphrases : phrase? (c :: w ++ rest) = none := phrase?_eq_none fun p hp x hx => by
    have hp' := List.all_eq_true.1 hphrase p hp
    rw [hx] at hp'
    exact readWord?_append_none (hfirst p hp x hx) (Option.isNone_iff_eq_none.1 hp') hrest
  rw [List.cons_append] at hphrases hnumber ⊢
  have hquote : c ∉ ['\x22', '“', '\x27'] := fun h => hc.opener (mem_of_all (by decide) h)
  rw [piece?_of_opener hc.blank hquote hnumber, sign?_eq_none fun h => hc.opener (mem_of_all (by decide) h), hphrases]
  simp only [word?, hc.name, if_true, takeWhile_isNameTail hw hrest, dropWhile_isNameTail hw hrest]
  rfl

/-- Behind a currency in words at the front of the word a letter comes. -/
def isUnpriced (w : List Char) : Bool :=
  ["rs", "inr"].all fun x => (readWord? x.toList w).all fun r => r.head?.any (·.isAlpha)

/-- A word of the language that is cut off as it stands: it begins with a letter, and neither a number
nor a comparison in words begins like it. -/
def isPlain (w : List Char) : Bool :=
  w.head?.any (·.isAlpha) && w.all isNameTail && isUncompared w && isUnpriced w

theorem ne_of_isAlpha (h : c.isAlpha = true) : c ∉ ['+', '-', '.'] := fun hc => by
  have hno := List.all_eq_true.1 (show ['+', '-', '.'].all (!Char.isAlpha ·) = true by decide) c hc
  exact absurd h (by simpa using hno)

/-- A word that is no price goes on with a letter behind a currency in words. -/
theorem letter_behind_currency (hunpriced : isUnpriced w = true) (hrest : Stops rest) {x : String}
    (hx : x ∈ ["rs", "inr"]) {r : List Char} (hr : readWord? x.toList (w ++ rest) = some r) :
    ∃ d r', r = d :: r' ∧ d.isAlpha = true := by
  have hx' := List.all_eq_true.1 hunpriced x hx
  cases hread : readWord? x.toList w with
  | none =>
    have hstops : ∀ x ∈ ["rs", "inr"], x.toList.all (!stops.contains ·) = true := by decide
    rw [readWord?_append_none (hstops x hx) hread hrest] at hr
    exact absurd hr (by simp)
  | some r' =>
    rw [readWord?_append hread] at hr
    rw [hread] at hx'
    rw [← Option.some.inj hr]
    cases r' with
    | nil => exact absurd hx' (by simp)
    | cons d r' => exact ⟨d, r' ++ rest, rfl, by simpa using hx'⟩

/-- What a currency in words leaves of a word begins with a letter. -/
theorem afterCurrency_unpriced (hc : c.isAlpha = true) (hcurrency : isUnpriced (c :: w) = true) (hrest : Stops rest)
    {r : List Char} (hr : r ∈ Numeral.afterCurrency (c :: (w ++ rest))) : ∃ d r', r = d :: r' ∧ d.isAlpha = true := by
  have hblank : ∀ d r', d.isAlpha = true → Numeral.afterBlank (d :: r') = [d :: r'] := fun d r' hd => by
    have hb := (initial_of_isAlphanum (c := d) (by simp [Char.isAlphanum, hd])).blank
    simp [Numeral.afterBlank, hb]
  have hsign : ¬ (c == '$' || c == '₹') = true := by
    have ho := (initial_of_isAlphanum (c := c) (by simp [Char.isAlphanum, hc])).opener
    simp only [openers, List.mem_cons, List.not_mem_nil, or_false, not_or] at ho
    simp [ho]
  unfold Numeral.afterCurrency at hr
  dsimp only at hr
  rw [if_neg hsign, List.nil_append] at hr
  rcases List.mem_append.1 hr with hr | hr
  · cases hread : readWord? "rs".toList (c :: (w ++ rest)) with
    | none => rw [hread] at hr; exact absurd hr (by simp)
    | some r' =>
      obtain ⟨d, r'', rfl, hd⟩ := letter_behind_currency hcurrency hrest (x := "rs") (by simp) hread
      rw [hread] at hr
      split at hr
      · next h =>
        rw [(List.cons.inj (Option.some.inj h)).1] at hd
        exact absurd hd (by decide)
      · next h =>
        rw [← Option.some.inj h, hblank d r'' hd] at hr
        exact ⟨d, r'', List.mem_singleton.1 hr, hd⟩
      · exact absurd hr (by simp)
  · cases hread : readWord? "inr".toList (c :: (w ++ rest)) with
    | none => rw [hread] at hr; exact absurd hr (by simp)
    | some r' =>
      obtain ⟨d, r'', rfl, hd⟩ := letter_behind_currency hcurrency hrest (x := "inr") (by simp) hread
      rw [hread] at hr
      dsimp only at hr
      rw [hblank d r'' hd] at hr
      exact ⟨d, r'', List.mem_singleton.1 hr, hd⟩

theorem begins_word (hw : isPlain w = true) (hrest : Stops rest) : Begins w rest (some (wordContent w)) := by
  simp only [isPlain, Bool.and_eq_true] at hw
  obtain ⟨⟨⟨halpha, htail⟩, hphrase⟩, hcurrency⟩ := hw
  cases w with
  | nil => exact absurd halpha (by simp)
  | cons c w =>
    have halpha : c.isAlpha = true := by simpa using halpha
    have htail : w.all isNameTail = true := by
      rw [List.all_cons, Bool.and_eq_true] at htail
      exact htail.2
    refine begins_of_uncompared (initial_of_isAlphanum (by simp [Char.isAlphanum, halpha])) htail hphrase hrest
      (find?_eq_none (fun r hr => ?_) ?_)
    · obtain ⟨d, r', rfl, hd⟩ := afterCurrency_unpriced halpha hcurrency hrest hr
      exact ⟨d, r', rfl, isDigit_of_isAlpha hd, ne_of_isAlpha hd⟩
    · rw [List.cons_append, afterNumeral_eq_nil (isDigit_of_isAlpha halpha) (ne_of_isAlpha halpha)]
      simp

theorem Cuts.word (h : Cuts rest said) {w : String} (hw : isPlain w.toList = true) (hrest : Stops rest)
    {content : Content} (hcontent : wordContent w.toList = content) :
    Cuts (w.toList ++ rest) ((content, w) :: said) := by
  have hcuts := h.cons (begins_word hw hrest)
  rwa [String.ofList_toList, hcontent] at hcuts

end Scan

/-- The tokens of a text that is cut from its start. -/
theorem tokenize_of_cuts {text : String} {cs : List Char} {said : List (Content × String)} (htext : text.toList = cs)
    (h : Scan.Cuts cs said) (hmark : Scan.refinement? cs = none) :
    ∃ ts, tokenize text = .ok ts ∧ ts.map Token.said = said := by
  unfold tokenize
  dsimp only
  rw [htext, hmark]
  exact h _ none 0 (Nat.le_refl _)

end EquityScreen
