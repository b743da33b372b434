/-
What may stand around a numeral: the mark of a currency in front of it, and behind it a mark of percent, multiple or
magnitude, and then what ends the number.

The words among the marks stand in any case (`InAnyCase`). In the list of magnitudes many words begin alike, with one
another and with the letters; before what ends a number (`Ends`) each is read as itself alone, so the mark that was
written is the first that is found (`Marks.afterSuffix_head`).
-/
import EquityScreen.Proofs.Token.Misspelled
import EquityScreen.Proofs.Token.Numbers

namespace EquityScreen
namespace Scan

open Text

variable {rest w m : List Char} {b c : Char}

/-! ## Behind a number -/

/-- What a character that may stand behind a number is not. -/
structure Closer (c : Char) : Prop where
  digit : isDigit c = false
  name : isNameChar c = false
  word : isWordChar c = false
  letter : ¬ IsLetter (foldLetter c)
  point : c ≠ '.'

/-- The code points of the blanks. -/
def blankCodes : List Nat := [9, 10, 11, 12, 13, 28, 29, 30, 31, 32, 0x85, 0xa0, 0x1680, 0x2000, 0x2001, 0x2002, 0x2003,
  0x2004, 0x2005, 0x2006, 0x2007, 0x2008, 0x2009, 0x200a, 0x2028, 0x2029, 0x202f, 0x205f, 0x3000]

theorem mem_blankCodes (h : isBlank c = true) : c.toNat ∈ blankCodes := by
  simp only [isBlank, Bool.or_eq_true, Bool.and_eq_true, decide_eq_true_eq, beq_iff_eq] at h
  simp only [blankCodes, List.mem_cons, List.not_mem_nil, or_false]
  omega

theorem closer_of_isBlank (h : isBlank c = true) : Closer c := by
  have hall : ∀ n ∈ blankCodes, isDigit (Char.ofNat n) = false ∧ isNameChar (Char.ofNat n) = false ∧
      isWordChar (Char.ofNat n) = false ∧ ¬ ('a' ≤ foldLetter (Char.ofNat n) ∧ foldLetter (Char.ofNat n) ≤ 'z') ∧
        Char.ofNat n ≠ '.' := by
    decide +kernel
  obtain ⟨hdigit, hname, hword, hletter, hpoint⟩ := hall c.toNat (mem_blankCodes h)
  rw [Char.ofNat_toNat] at *
  exact ⟨hdigit, hname, hword, hletter, hpoint⟩

/-- What may stand behind a number: nothing, a closing parenthesis, a comma and a blank, or a blank and a word that
begins like no mark, such as "and". -/
inductive Ends : List Char → Prop
  | nil : Ends []
  | paren (cs : List Char) : Ends (')' :: cs)
  | comma {b : Char} (hb : isBlank b = true) (cs : List Char) : Ends (',' :: b :: cs)
  | word {b c : Char} (hb : isBlank b = true) (hc : c.isAlpha = true) (hmark : foldLetter c ∉ markInitials) (cs : List Char) :
    Ends (b :: c :: cs)

theorem Ends.closer (h : Ends rest) : ∀ c ∈ rest.head?, Closer c := by
  intro c hc
  cases h with
  | nil => exact absurd hc (by simp)
  | paren => obtain rfl := Option.some.inj hc; exact ⟨by decide, by decide, by decide, by unfold IsLetter; decide, by decide⟩
  | comma => obtain rfl := Option.some.inj hc; exact ⟨by decide, by decide, by decide, by unfold IsLetter; decide, by decide⟩
  | word hb => obtain rfl := Option.some.inj hc; exact closer_of_isBlank hb

theorem Ends.ungrouped (h : Ends rest) : Ungrouped rest := by
  refine ⟨fun c hc => (h.closer c hc).digit, fun cs hcs => ?_⟩
  cases h with
  | nil => exact absurd hcs (by simp)
  | paren => exact absurd (List.cons.inj hcs).1 (by decide)
  | comma hb cs' =>
    rw [← (List.cons.inj hcs).2]
    exact fun c hc => Option.some.inj hc ▸ (closer_of_isBlank hb).digit
  | word hb => exact absurd (List.cons.inj hcs).1 (ne_comma_of_isBlank hb)

theorem Ends.nameEnds (h : Ends rest) : Numeral.nameEnds rest = true := by
  cases rest with
  | nil => rfl
  | cons c rest => simp [Numeral.nameEnds, (h.closer c rfl).name]

theorem Ends.head?_ne (h : Ends rest) : rest.head? ≠ some '.' := fun hdot => (h.closer '.' hdot).point rfl

/-- No mark stands behind a number that ends. -/
theorem Ends.afterSuffix_eq (h : Ends rest) : Numeral.afterSuffix rest = [(none, rest)] := by
  cases h with
  | nil => rfl
  | paren | comma => exact Scan.afterSuffix_eq (by decide) (by decide) (by decide)
  | @word b c hb hc hmark cs =>
    have hinitial := initial_of_isAlphanum (c := c) (by simp [Char.isAlphanum, hc])
    have hpercentSign : c ≠ '%' := by rintro rfl; exact absurd hc (by decide)
    have hblank : foldLetter b ∉ markInitials := fun hmem => by
      have hletters : markInitials.all (fun d => decide ('a' ≤ d) && decide (d ≤ 'z')) = true := by decide
      have hletter := List.all_eq_true.1 hletters _ hmem
      simp only [Bool.and_eq_true, decide_eq_true_eq] at hletter
      exact (closer_of_isBlank hb).letter hletter
    have hpercent : Numeral.afterPercent (b :: c :: cs) = [] := by
      unfold Numeral.afterPercent
      rw [List.dropWhile_cons_of_pos hb, List.dropWhile_cons_of_neg (by simp [hinitial.blank])]
      dsimp only
      rw [filterMap_readSuffix? hmark (by decide +kernel)]
      split
      · next h => exact absurd (List.cons.inj h).1 hpercentSign
      · rfl
    have hletter : Numeral.afterLetter (b :: c :: cs) = [] := by
      have hno : Numeral.suffixLetters.contains (foldLetter b) = false := by
        simpa using fun h => hblank (mem_of_all (by decide) h)
      rw [Numeral.afterLetter, hno]
      rfl
    have hmagnitude : Numeral.afterMagnitude (b :: c :: cs) = [] := by
      have hafter : Numeral.afterBlank (b :: c :: cs) = [c :: cs, b :: c :: cs] := by rw [Numeral.afterBlank, if_pos hb]
      rw [Numeral.afterMagnitude, hafter, List.flatMap_cons, List.flatMap_singleton,
        filterMap_readSuffix? hmark (by decide +kernel), filterMap_readSuffix? hblank (by decide +kernel)]
      rfl
    rw [Numeral.afterSuffix, hpercent, hletter, hmagnitude]
    rfl

/-! ## Words in any case -/

/-- A letter of the query language in either case, or a character that has none. -/
theorem toLower_cases (c : Char) : c.isAlpha = true ∧ c.toLower.isLower = true ∧ foldLetter c = c.toLower ∨
    c.toLower.isLower = false ∧ c.toLower = c := by
  by_cases hascii : c.toNat < 128
  · have hall := of_ascii (p := fun c => (c.isAlpha && c.toLower.isLower && foldLetter c == c.toLower) ||
      (!c.toLower.isLower && c.toLower == c)) (by decide +kernel) hascii
    simpa [and_assoc] using hall
  · have hsame : c.toLower = c := by
      unfold Char.toLower
      split
      · next h =>
        have hle : c.toNat ≤ 90 := h.2
        omega
      · rfl
    have hlower : c.isLower = false := by
      cases h : c.isLower with
      | false => rfl
      | true =>
        have hle : c.toNat ≤ 122 := (isLetter_of_isLower h).2
        omega
    exact .inr ⟨by rw [hsame, hlower], hsame⟩

theorem letter_of_toLower (h : c.toLower.isLower = true) : c.isAlpha = true ∧ foldLetter c = c.toLower := by
  rcases toLower_cases c with ⟨halpha, -, hfold⟩ | ⟨hno, -⟩
  · exact ⟨halpha, hfold⟩
  · rw [h] at hno
    exact absurd hno nofun

theorem eq_of_toLower {d : Char} (hd : d.isLower = false) (h : c.toLower = d) : c = d := by
  rcases toLower_cases c with ⟨-, hlower, -⟩ | ⟨-, hsame⟩
  · rw [h, hd] at hlower
    exact absurd hlower nofun
  · exact hsame.symm.trans h

/-- A word of small letters. -/
def IsSmallWord (word : String) : Prop := ∀ c ∈ word.toList, c.isLower = true

instance (word : String) : Decidable (IsSmallWord word) :=
  decidable_of_iff (word.toList.all Char.isLower = true) List.all_eq_true

/-- The characters are the word, each letter in either case. -/
def InAnyCase (w : List Char) (word : String) : Prop := w.map Char.toLower = word.toList

instance (w : List Char) (word : String) : Decidable (InAnyCase w word) :=
  inferInstanceAs (Decidable (w.map Char.toLower = word.toList))

namespace InAnyCase

variable {word : String}

theorem letter (h : InAnyCase w word) (hword : IsSmallWord word) : ∀ c ∈ w, c.isAlpha = true ∧ foldLetter c = c.toLower :=
  fun c hc => letter_of_toLower (hword _ (by rw [← show _ = word.toList from h]; exact List.mem_map_of_mem hc))

/-- It begins with a letter. -/
theorem begins (h : InAnyCase w word) (hword : IsSmallWord word) (hne : word.toList ≠ []) :
    ∃ c cs, w = c :: cs ∧ c.isAlpha = true := by
  cases w with
  | nil => exact absurd h.symm hne
  | cons c cs => exact ⟨c, cs, rfl, (h.letter hword c List.mem_cons_self).1⟩

theorem fold (h : InAnyCase w word) (hword : IsSmallWord word) : w.map foldLetter = word.toList := by
  rw [← show _ = word.toList from h]
  exact List.map_congr_left fun c hc => (h.letter hword c hc).2

/-- **In lower case it is the word.** -/
theorem lower_eq (h : InAnyCase w word) (hword : IsSmallWord word) : lower (String.ofList w) = word := by
  have hlettered : Lettered w := fun c hc => by
    rw [(h.letter hword c hc).2]
    exact isLetter_of_isLower (hword _ (by rw [← show _ = word.toList from h]; exact List.mem_map_of_mem hc))
  have hplain : ∀ c ∈ w, c ∉ lookalikes := fun c hc hmem => by
    have halpha := (h.letter hword c hc).1
    simp only [lookalikes, List.mem_cons, List.not_mem_nil, or_false] at hmem
    rcases hmem with rfl | rfl | rfl <;> exact absurd halpha (by decide)
  rw [lower, String.toList_ofList, lowerFrom_eq_flatMap hlettered.sigma_not_mem, hlettered.flatMap_lowerAlone hplain,
    h.fold hword, String.ofList_toList]

theorem length (h : InAnyCase w word) : w.length = word.length := by
  rw [← String.length_toList, ← show _ = word.toList from h, List.length_map]

theorem readWord? (h : InAnyCase w word) (hword : IsSmallWord word) (rest : List Char) :
    readWord? word.toList (w ++ rest) = some rest := by
  rw [← h.fold hword]
  clear h
  induction w with
  | nil => rfl
  | cons c w ih =>
    rw [List.map_cons, List.cons_append, Text.readWord?, if_pos (beq_self_eq_true _)]
    exact ih

/-- Of the words of a list it is read as itself alone. -/
theorem readSuffix? (h : InAnyCase w word) (hword : IsSmallWord word) (hrest : ∀ c ∈ rest.head?, Closer c) {word' : String}
    (hword' : IsSmallWord word') :
    Numeral.readSuffix? (w ++ rest) word' = if word' = word then some (w, rest) else none := by
  split
  · next heq =>
    have hends : wordEnds rest = true := by
      cases rest with
      | nil => rfl
      | cons c rest => simp [wordEnds, (hrest c rfl).word]
    rw [heq, Numeral.readSuffix?, h.readWord? hword, ← h.length]
    dsimp only
    rw [if_pos hends, List.take_left]
  · next hne =>
    rw [Numeral.readSuffix?]
    split
    · next r hread =>
      obtain ⟨xs, hxs, hfold⟩ := readWord?_fold hread
      rw [if_neg]
      rcases List.append_eq_append_iff.1 hxs with ⟨as, rfl, has⟩ | ⟨bs, hbs, rfl⟩
      · cases as with
        | nil =>
          rw [List.append_nil, h.fold hword] at hfold
          exact absurd (String.toList_inj.1 hfold).symm hne
        | cons a as =>
          have hletter : foldLetter a ∈ word'.toList := by
            rw [← hfold]
            exact List.mem_map_of_mem (List.mem_append_right _ List.mem_cons_self)
          exact absurd (isLetter_of_isLower (hword' _ hletter)) (hrest a (by rw [has]; rfl)).letter
      · cases bs with
        | nil =>
          rw [List.append_nil] at hbs
          rw [← hbs, h.fold hword] at hfold
          exact absurd (String.toList_inj.1 hfold).symm hne
        | cons b bs =>
          have hb := (h.letter hword b (by rw [hbs]; exact List.mem_append_right _ List.mem_cons_self)).1
          simp [wordEnds, isWordChar, Char.isAlphanum, hb]
    · rfl

end InAnyCase

/-! ## Marks -/

/-- A mark as it may stand behind a numeral, and what it means: a percent sign, the letter of a multiple or of a magnitude,
or a word of magnitude with at most one blank in front. -/
inductive Marks : List Char → Option UnitMark → Prop
  | none : Marks [] none
  | percent : Marks ['%'] (some .percent)
  | times {c : Char} (hc : c.toLower = 'x') : Marks [c] (some .times)
  | letter {c : Char} {m : Magnitude} (hc : (c.toLower, m) ∈ Magnitude.letters) : Marks [c] (some (.magnitude m))
  | word {w : List Char} {word : String} {m : Magnitude} (hw : InAnyCase w word) (hm : (word, m) ∈ Magnitude.words) :
    Marks w (some (.magnitude m))
  | apart {b : Char} {w : List Char} {word : String} {m : Magnitude} (hb : isBlank b = true) (hw : InAnyCase w word)
    (hm : (word, m) ∈ Magnitude.words) : Marks (b :: w) (some (.magnitude m))

theorem isSmallWord_of_mem {word : String} {m : Magnitude} (h : (word, m) ∈ Magnitude.words) : IsSmallWord word := by
  have hall : ∀ p ∈ Magnitude.words, IsSmallWord p.1 := by decide
  exact hall _ h

/-- A word of magnitude is read as itself. -/
theorem afterMagnitude_word {word : String} {m : Magnitude} (hm : (word, m) ∈ Magnitude.words) (hw : InAnyCase w word)
    (hrest : Ends rest) :
    ((Magnitude.words.map (·.1)).filterMap (Numeral.readSuffix? (w ++ rest))) = [(w, rest)] := by
  have hread : ∀ word' ∈ Magnitude.words.map (·.1),
      Numeral.readSuffix? (w ++ rest) word' = if word' = word then some (w, rest) else none := fun word' hword' => by
    obtain ⟨p, hp, rfl⟩ := List.mem_map.1 hword'
    exact hw.readSuffix? (isSmallWord_of_mem hm) hrest.closer (isSmallWord_of_mem (m := p.2) hp)
  have hmem : word ∈ Magnitude.words.map (·.1) := List.mem_map_of_mem hm
  have hnodup : (Magnitude.words.map (·.1)).Nodup := by decide
  generalize Magnitude.words.map (·.1) = words at hread hmem hnodup
  induction words with
  | nil => exact absurd hmem List.not_mem_nil
  | cons v words ih =>
    obtain ⟨hfirst, hothers⟩ := List.forall_mem_cons.1 hread
    obtain ⟨hnot, hnodup⟩ := List.nodup_cons.1 hnodup
    rcases List.mem_cons.1 hmem with rfl | hmem
    · rw [if_pos rfl] at hfirst
      rw [List.filterMap_cons_some hfirst, List.filterMap_eq_nil_iff.2 fun v hv => ?_]
      rw [hothers v hv, if_neg]
      rintro rfl
      exact hnot hv
    · rw [if_neg (by rintro rfl; exact hnot hmem)] at hfirst
      rw [List.filterMap_cons_none hfirst]
      exact ih hothers hmem hnodup

/-- A word of magnitude begins with two letters. -/
theorem letters_of_magnitude {word : String} {magnitude : Magnitude} {w : List Char} (hw : InAnyCase w word)
    (hm : (word, magnitude) ∈ Magnitude.words) : ∃ c d w', w = c :: d :: w' ∧ c.isAlpha = true ∧ d.isAlpha = true := by
  have hsmall := isSmallWord_of_mem hm
  have hlong : ∀ p ∈ Magnitude.words, 2 ≤ p.1.toList.length := by decide
  have hlength := hlong _ hm
  rw [← show w.map Char.toLower = word.toList from hw, List.length_map] at hlength
  match w, hlength with
  | c :: d :: w', _ =>
    exact ⟨c, d, w', rfl, (hw.letter hsmall c List.mem_cons_self).1,
      (hw.letter hsmall d (List.mem_cons_of_mem _ List.mem_cons_self)).1⟩

section Gap

variable {word : String} {magnitude : Magnitude} {gap w : List Char}

/-- No percent sign is read from a word of magnitude. -/
theorem afterPercent_word (hw : InAnyCase w word) (hm : (word, magnitude) ∈ Magnitude.words)
    (hgap : gap = [] ∨ ∃ b, isBlank b = true ∧ gap = [b]) (hrest : Ends rest) :
    Numeral.afterPercent (gap ++ w ++ rest) = [] := by
  have hother : ∀ v ∈ ["percent", "pct"], IsSmallWord v ∧ v ∉ Magnitude.words.map (·.1) := by decide
  have hnone : ["percent", "pct"].filterMap (Numeral.readSuffix? (w ++ rest)) = [] := by
    refine List.filterMap_eq_nil_iff.2 fun v hv => ?_
    rw [hw.readSuffix? (isSmallWord_of_mem hm) hrest.closer (hother v hv).1, if_neg]
    rintro rfl
    exact (hother v hv).2 (List.mem_map_of_mem hm)
  obtain ⟨c, d, w', rfl, hc, -⟩ := letters_of_magnitude hw hm
  have hblank : ¬ isBlank c = true := by
    simp [(initial_of_isAlphanum (c := c) (by simp [Char.isAlphanum, hc])).blank]
  have hdrop : (gap ++ c :: d :: w' ++ rest).dropWhile isBlank = c :: d :: w' ++ rest := by
    have hstop : (c :: d :: w' ++ rest).dropWhile isBlank = c :: d :: w' ++ rest := List.dropWhile_cons_of_neg hblank
    rcases hgap with rfl | ⟨b, hb, rfl⟩
    · exact hstop
    · rw [List.append_assoc, List.singleton_append, List.dropWhile_cons_of_pos hb, hstop]
  unfold Numeral.afterPercent
  rw [hdrop]
  dsimp only
  rw [hnone]
  split
  · next h =>
    rw [(List.cons.inj h).1] at hc
    exact absurd hc (by decide)
  · rfl

/-- No letter is read from a word of magnitude: the word goes on behind its first, and a blank is none. -/
theorem afterLetter_word (hw : InAnyCase w word) (hm : (word, magnitude) ∈ Magnitude.words)
    (hgap : gap = [] ∨ ∃ b, isBlank b = true ∧ gap = [b]) : Numeral.afterLetter (gap ++ w ++ rest) = [] := by
  rcases hgap with rfl | ⟨b, hb, rfl⟩
  · obtain ⟨c, d, w', rfl, -, hd⟩ := letters_of_magnitude hw hm
    have hname : Numeral.nameEnds (d :: (w' ++ rest)) = false := by
      simp [Numeral.nameEnds, (initial_of_isAlphanum (c := d) (by simp [Char.isAlphanum, hd])).name]
    rw [List.nil_append, List.cons_append, List.cons_append, Numeral.afterLetter, hname, Bool.and_false]
    rfl
  · have hno : Numeral.suffixLetters.contains (foldLetter b) = false := by
      have hletters : Numeral.suffixLetters.all Char.isLower = true := by decide
      simpa using fun hmem =>
        (closer_of_isBlank hb).letter (isLetter_of_isLower (List.all_eq_true.1 hletters _ hmem))
    rw [List.append_assoc, List.singleton_append, Numeral.afterLetter, hno]
    rfl

/-- A word of magnitude is found, directly behind the numeral or behind one blank. -/
theorem afterSuffix_word (hw : InAnyCase w word) (hm : (word, magnitude) ∈ Magnitude.words)
    (hgap : gap = [] ∨ ∃ b, isBlank b = true ∧ gap = [b]) (hrest : Ends rest) :
    ∃ more, Numeral.afterSuffix (gap ++ w ++ rest) = (some (.word w), rest) :: more := by
  have hblanks : ∃ others, Numeral.afterBlank (gap ++ w ++ rest) = (w ++ rest) :: others := by
    rcases hgap with rfl | ⟨b, hb, rfl⟩
    · obtain ⟨c, d, w', rfl, hc, -⟩ := letters_of_magnitude hw hm
      exact ⟨[], by simp [Numeral.afterBlank, (initial_of_isAlphanum (c := c) (by simp [Char.isAlphanum, hc])).blank]⟩
    · exact ⟨[b :: (w ++ rest)], by rw [List.append_assoc, List.singleton_append, Numeral.afterBlank, if_pos hb]⟩
  obtain ⟨others, hothers⟩ := hblanks
  rw [Numeral.afterSuffix, afterPercent_word hw hm hgap hrest, afterLetter_word hw hm hgap, Numeral.afterMagnitude,
    hothers, List.flatMap_cons, afterMagnitude_word hm hw hrest]
  exact ⟨_, rfl⟩

end Gap

/-- **A mark is found** as it was written, and means what it means. -/
theorem Marks.afterSuffix_head {unit : Option UnitMark} (h : Marks m unit) (hrest : Ends rest) :
    ∃ s more, s.map Numeral.Suffix.mark? = unit.map some ∧ Numeral.afterSuffix (m ++ rest) = (s, rest) :: more := by
  have hletter : ∀ {c : Char} {u : UnitMark}, c.toLower.isLower = true → c.toLower ∈ Numeral.suffixLetters →
      (Numeral.Suffix.letter c).mark? = some u → ∃ s more, s.map Numeral.Suffix.mark? = some (some u) ∧
        Numeral.afterSuffix (c :: rest) = (s, rest) :: more := fun hlower hlisted hmark => by
    obtain ⟨halpha, hfold⟩ := letter_of_toLower hlower
    obtain ⟨more, hmore⟩ := afterSuffix_letter (by rw [hfold]; exact List.contains_iff_mem.2 hlisted) halpha hrest.nameEnds
    exact ⟨some (.letter _), more, congrArg some hmark, hmore⟩
  have hword : ∀ {w word m} (gap : List Char), InAnyCase w word → (word, m) ∈ Magnitude.words →
      (gap = [] ∨ ∃ b, isBlank b = true ∧ gap = [b]) → ∃ s more, s.map Numeral.Suffix.mark? = some (some (.magnitude m)) ∧
        Numeral.afterSuffix (gap ++ w ++ rest) = (s, rest) :: more := fun {w _ _} gap hw hm hgap => by
    have hlookup : ∀ p ∈ Magnitude.words, Magnitude.words.lookup p.1 = some p.2 := by decide
    obtain ⟨more, hmore⟩ := afterSuffix_word hw hm hgap hrest
    refine ⟨some (.word w), more, congrArg some ?_, hmore⟩
    rw [Numeral.Suffix.mark?, hw.lower_eq (isSmallWord_of_mem hm), hlookup _ hm, Option.map_some]
  cases h with
  | none => exact ⟨Option.none, [], rfl, hrest.afterSuffix_eq⟩
  | percent =>
    refine ⟨some .percent, ?_, rfl, ?_⟩
    rotate_left
    · rw [List.singleton_append, Numeral.afterSuffix, Numeral.afterPercent, List.dropWhile_cons_of_neg (by decide)]
      rfl
  | @times c hc =>
    refine hletter (by rw [hc]; decide) (by rw [hc]; decide) ?_
    rw [Numeral.Suffix.mark?, (letter_of_toLower (by rw [hc]; decide)).2, hc]
    rfl
  | @letter c m hc =>
    have hall : ∀ p ∈ Magnitude.letters, p.1.isLower = true ∧ p.1 ∈ Numeral.suffixLetters ∧ (p.1 == 'x') = false ∧
        Magnitude.letters.lookup p.1 = some p.2 := by decide
    obtain ⟨hlower, hlisted, hx, hlookup⟩ := hall _ hc
    refine hletter hlower hlisted ?_
    rw [Numeral.Suffix.mark?, (letter_of_toLower hlower).2]
    dsimp only at hx hlookup ⊢
    rw [hx, hlookup]
    rfl
  | word hw hm => exact hword [] hw hm (.inl rfl)
  | @apart b w word m hb hw hm => exact hword [b] hw hm (.inr ⟨b, hb, rfl⟩)

/-- What stands behind a numeral belongs to it no more. -/
theorem Marks.behind {unit : Option UnitMark} (h : Marks m unit) (hrest : Ends rest) :
    Ungrouped (m ++ rest) ∧ (m ++ rest).head? ≠ some '.' := by
  have hfirst : ∀ {x : Char} {xs : List Char}, isDigit x = false → x ≠ ',' → x ≠ '.' →
      Ungrouped (x :: xs) ∧ (x :: xs).head? ≠ some '.' := fun hd hcomma hdot =>
    ⟨⟨fun c hc => Option.some.inj hc ▸ hd, fun _ h => absurd (List.cons.inj h).1 hcomma⟩, fun h => hdot (Option.some.inj h)⟩
  have hletter : ∀ {x : Char} {xs : List Char}, x.toLower.isLower = true → Ungrouped (x :: xs) ∧ (x :: xs).head? ≠ some '.' :=
    fun {x xs} hlower => by
      have halpha := (letter_of_toLower hlower).1
      refine hfirst (isDigit_of_isAlpha halpha) ?_ ?_ <;> (rintro rfl; exact absurd halpha (by decide))
  cases h with
  | none => exact ⟨hrest.ungrouped, hrest.head?_ne⟩
  | percent => exact hfirst (by decide) (by decide) (by decide)
  | times hc => exact hletter (by rw [hc]; decide)
  | letter hc =>
    have hall : ∀ p ∈ Magnitude.letters, p.1.isLower = true := by decide
    exact hletter (hall _ hc)
  | word hw hm =>
    have hsmall := isSmallWord_of_mem hm
    cases m with
    | nil =>
      have hall : ∀ p ∈ Magnitude.words, p.1.toList ≠ [] := by decide
      exact absurd hw.symm (hall _ hm)
    | cons c m =>
      refine hletter (hsmall _ ?_)
      rw [← show _ = String.toList _ from hw]
      exact List.mem_cons_self
  | apart hb => exact hfirst (closer_of_isBlank hb).digit (ne_comma_of_isBlank hb) (closer_of_isBlank hb).point

/-! ## Currency -/

/-- The marks of a currency, in small letters. -/
def currencies : List String := ["$", "₹", "rs", "rs.", "inr"]

/-- A mark of a currency, in any case. -/
def IsCurrency (mark : List Char) : Prop := ∃ word ∈ currencies, InAnyCase mark word

theorem isCurrency_cases {mark : List Char} (h : IsCurrency mark) :
    mark = ['$'] ∨ mark = ['₹'] ∨ InAnyCase mark "rs" ∨ (∃ w, mark = w ++ ['.'] ∧ InAnyCase w "rs") ∨ InAnyCase mark "inr" := by
  have hsign : ∀ {d : Char}, d.isLower = false → InAnyCase mark (String.singleton d) → mark = [d] := fun {d} hd hmark => by
    have hmap : mark.map Char.toLower = [d] := hmark.trans (by simp)
    obtain ⟨c, rest, rfl, hc, hrest⟩ := List.map_eq_cons_iff.1 hmap
    rw [List.map_eq_nil_iff.1 hrest, eq_of_toLower hd hc]
  obtain ⟨word, hword, hmark⟩ := h
  simp only [currencies, List.mem_cons, List.not_mem_nil, or_false] at hword
  rcases hword with rfl | rfl | rfl | rfl | rfl
  · exact .inl (hsign (by decide) hmark)
  · exact .inr (.inl (hsign (by decide) hmark))
  · exact .inr (.inr (.inl hmark))
  · have hmap : mark.map Char.toLower = "rs".toList ++ ['.'] := hmark
    obtain ⟨w, point, rfl, hw, hpoint⟩ := List.map_eq_append_iff.1 hmap
    obtain ⟨c, rest, rfl, hc, hrest⟩ := List.map_eq_cons_iff.1 hpoint
    rw [List.map_eq_nil_iff.1 hrest, eq_of_toLower (by decide) hc]
    exact .inr (.inr (.inr (.inl ⟨w, rfl, hw⟩)))
  · exact .inr (.inr (.inr (.inr hmark)))

/-- The mark of a currency is taken as a whole. -/
theorem IsCurrency.afterCurrency_head {mark : List Char} (h : IsCurrency mark) (hblank : isBlank c = false) (hpoint : c ≠ '.')
    (cs : List Char) : ∃ more, Numeral.afterCurrency (mark ++ c :: cs) = (c :: cs) :: more := by
  have hrs : IsSmallWord "rs" := by decide
  have hinr : IsSmallWord "inr" := by decide
  have hafter : Numeral.afterBlank (c :: cs) = [c :: cs] := by simp [Numeral.afterBlank, hblank]
  -- A mark that begins with a letter is none of the signs.
  have hsigns : ∀ {d : Char}, d.isAlpha = true → ¬ (d == '$' || d == '₹') = true := fun {d} hd => by
    have hdollar : d ≠ '$' := by rintro rfl; exact absurd hd (by decide)
    have hrupee : d ≠ '₹' := by rintro rfl; exact absurd hd (by decide)
    simp [hdollar, hrupee]
  rcases isCurrency_cases h with rfl | rfl | hw | ⟨w, rfl, hw⟩ | hw
  · exact ⟨_, rfl⟩
  · exact ⟨_, rfl⟩
  · have hread := hw.readWord? hrs (c :: cs)
    obtain ⟨d, w, rfl, hd⟩ := hw.begins hrs (by decide)
    rw [List.cons_append] at hread ⊢
    rw [Numeral.afterCurrency, if_neg (hsigns hd), hread, List.nil_append]
    split
    · next hpointed => exact absurd (List.cons.inj (Option.some.inj hpointed)).1 hpoint
    · next hsome =>
      rw [← Option.some.inj hsome, hafter]
      exact ⟨_, rfl⟩
    · next hnone => exact absurd hnone (by simp)
  · have hread := hw.readWord? hrs ('.' :: c :: cs)
    obtain ⟨d, w, rfl, hd⟩ := hw.begins hrs (by decide)
    rw [List.cons_append] at hread
    rw [List.append_assoc, List.singleton_append, List.cons_append, Numeral.afterCurrency, if_neg (hsigns hd), hread,
      List.nil_append]
    show ∃ more, Numeral.afterBlank (c :: cs) ++ ['.' :: c :: cs] ++ _ = (c :: cs) :: more
    rw [hafter]
    exact ⟨_, rfl⟩
  · have hread := hw.readWord? hinr (c :: cs)
    obtain ⟨d, w, rfl, hd⟩ := hw.begins hinr (by decide)
    have hfirst : foldLetter d ∉ ['r'] := by
      have hlower : d.toLower = 'i' := (List.cons.inj (show _ :: _ = 'i' :: _ from hw)).1
      rw [(hw.letter hinr d List.mem_cons_self).2, hlower]
      decide
    have hnone : readWord? "rs".toList (d :: (w ++ c :: cs)) = none := readWord?_of_initial hfirst (by decide)
    rw [List.cons_append] at hread ⊢
    rw [Numeral.afterCurrency, if_neg (hsigns hd), hnone, hread]
    dsimp only
    rw [hafter]
    exact ⟨_, rfl⟩

/-- What the front of a mark of a currency is not. -/
theorem IsCurrency.first {mark : List Char} (h : IsCurrency mark) :
    ∃ c cs, mark = c :: cs ∧ isBlank c = false ∧ c ∉ ['\x22', '“', '\x27'] := by
  have hletter : ∀ {word : String} {w : List Char}, InAnyCase w word → IsSmallWord word → word.toList ≠ [] →
      ∃ c cs, w = c :: cs ∧ isBlank c = false ∧ c ∉ ['\x22', '“', '\x27'] := fun {_ w} hw hsmall hne => by
    obtain ⟨c, cs, rfl, halpha⟩ := hw.begins hsmall hne
    have hc := initial_of_isAlphanum (c := c) (by simp [Char.isAlphanum, halpha])
    exact ⟨c, cs, rfl, hc.blank, fun h => hc.opener (mem_of_all (by decide) h)⟩
  have hrs : IsSmallWord "rs" := by decide
  rcases isCurrency_cases h with rfl | rfl | hw | ⟨w, rfl, hw⟩ | hw
  · exact ⟨_, _, rfl, by decide, by decide⟩
  · exact ⟨_, _, rfl, by decide, by decide⟩
  · exact hletter hw hrs (by decide)
  · obtain ⟨c, cs, rfl, hblank, hquote⟩ := hletter hw hrs (by decide)
    exact ⟨c, _, rfl, hblank, hquote⟩
  · exact hletter hw (by decide) (by decide)

end Scan
end EquityScreen
