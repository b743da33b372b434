/-
Where a text cannot be cut into tokens.

A pattern takes any letter that folds to the right one, and what it found is then looked up in lower case. The
two agree but for three letters: the dotted capital and the dotless small i, and the long s, fold to a letter of
the query language that they do not become in lower case (`lookalikes`). A magnitude or a comparison in words
that is written with one of them is in no table (`Place.Misspells`). Cutting fails at the first place that is
misspelled so, and at no other (`tokenize_error_iff`).
-/
import EquityScreen.Proofs.Outcome
import EquityScreen.Proofs.Text.Case
import EquityScreen.Proofs.Text.Words
import EquityScreen.Proofs.Token.Places

namespace EquityScreen
namespace Text

variable {c : Char} {xs cs rest : List Char}

/-- The letters that fold to a letter of the query language and are none in lower case. -/
def lookalikes : List Char := ['\u0130', '\u0131', '\u017f']

/-- A letter of the query language. -/
def IsLetter (c : Char) : Prop := 'a' ≤ c ∧ c ≤ 'z'

/-! ## Letters -/

theorem isLetter_of_isLower (h : c.isLower = true) : IsLetter c := by
  have hbounds := Bool.and_eq_true_iff.1 h
  exact ⟨of_decide_eq_true hbounds.1, of_decide_eq_true hbounds.2⟩

theorem isSmall_of_isLetter (h : IsLetter c) : isSmall c = true := by
  have hfirst : 97 ≤ c.toNat := h.1
  have hlast : c.toNat ≤ 122 := h.2
  have hno : ¬ c ≤ 'Z' := fun hle => by
    have hle : c.toNat ≤ 90 := hle
    omega
  simp only [isSmall, decide_eq_true (show c.toNat < 128 by omega), decide_eq_false hno, Bool.and_false, Bool.not_false,
    Bool.and_self]

/-- **Lower case of a letter** of the query language is what it folds to, but for the lookalikes. -/
theorem lowerAlone_of_isLetter (h : IsLetter (foldLetter c)) (hc : c ∉ lookalikes) : lowerAlone c = [foldLetter c] := by
  by_cases hcapital : 'A' ≤ c ∧ c ≤ 'Z'
  · have hascii : c.toNat < 128 := Nat.lt_of_le_of_lt (show c.toNat ≤ 90 from hcapital.2) (by decide)
    simp only [lowerAlone, lowerChar, foldLetter, if_pos hascii, hcapital, decide_true, Bool.and_self, if_true]
  · by_cases hkelvin : c = '\u212a'
    · rw [hkelvin]
      decide +kernel
    · have hfold : foldLetter c = c := by
        simp only [lookalikes, List.mem_cons, List.not_mem_nil, or_false, not_or] at hc
        have hcapital : ¬ (decide ('A' ≤ c) && decide (c ≤ 'Z')) = true := by simpa using hcapital
        simp only [foldLetter, if_neg hcapital, beq_eq_false_iff_ne.2 hc.1, beq_eq_false_iff_ne.2 hc.2.1,
          beq_eq_false_iff_ne.2 hc.2.2, beq_eq_false_iff_ne.2 hkelvin, Bool.or_self, Bool.false_eq_true, if_false]
      rw [hfold] at h ⊢
      exact lowerChar_small (isSmall_of_isLetter h)

/-- A lookalike leaves a character that no spelling of the language holds. -/
theorem exists_odd_lowerAlone (h : c ∈ lookalikes) : ∃ d ∈ lowerAlone c, isSmall d = false ∧ isBlank d = false := by
  simp only [lookalikes, List.mem_cons, List.not_mem_nil, or_false] at h
  rcases h with rfl | rfl | rfl
  · exact ⟨'\u0307', by decide +kernel, by decide, by decide⟩
  · exact ⟨'\u0131', by decide +kernel, by decide, by decide⟩
  · exact ⟨'\u017f', by decide +kernel, by decide, by decide⟩

theorem isBlank_of_isLetter (h : IsLetter c) : isBlank c = false := by
  have hfirst : 97 ≤ c.toNat := h.1
  have hlast : c.toNat ≤ 122 := h.2
  simp only [isBlank, Bool.or_eq_false_iff, Bool.and_eq_false_iff, decide_eq_false_iff_not, beq_eq_false_iff_ne]
  omega

theorem ne_sigma_of_isLetter (h : IsLetter (foldLetter c)) : c ≠ '\u03a3' := by
  rintro rfl
  exact absurd h.2 (by decide)

/-! ## Words -/

/-- What a word is read from folds to it. -/
theorem readWord?_fold {word : List Char} (h : readWord? word cs = some rest) :
    ∃ xs, cs = xs ++ rest ∧ xs.map foldLetter = word := by
  induction word generalizing cs with
  | nil => exact ⟨[], (Option.some.inj h), rfl⟩
  | cons w word ih =>
    cases cs with
    | nil => exact absurd h (by simp [readWord?])
    | cons c cs =>
      simp only [readWord?] at h
      split at h
      · next hc =>
        obtain ⟨xs, rfl, hxs⟩ := ih h
        exact ⟨c :: xs, rfl, by rw [List.map_cons, hxs, beq_iff_eq.1 hc]⟩
      · exact absurd h (by simp)

/-- Letters of the query language in any case. -/
def Lettered (xs : List Char) : Prop := ∀ c ∈ xs, IsLetter (foldLetter c)

theorem Lettered.sigma_not_mem (h : Lettered xs) : '\u03a3' ∉ xs := fun hmem => ne_sigma_of_isLetter (h _ hmem) rfl

theorem Lettered.flatMap_lowerAlone (h : Lettered xs) (hxs : ∀ c ∈ xs, c ∉ lookalikes) :
    xs.flatMap lowerAlone = xs.map foldLetter := by
  induction xs with
  | nil => rfl
  | cons x xs ih =>
    rw [Lettered, List.forall_mem_cons] at h
    rw [List.forall_mem_cons] at hxs
    rw [List.flatMap_cons, lowerAlone_of_isLetter h.1 hxs.1, ih h.2 hxs.2]
    rfl

/-- A text with a lookalike has an odd character in lower case. -/
theorem exists_odd_lowerFrom (h : ∃ c ∈ xs, c ∈ lookalikes) (before : List Char) :
    ∃ d ∈ lowerFrom before xs, isSmall d = false ∧ isBlank d = false := by
  obtain ⟨c, hc, hlookalike⟩ := h
  obtain ⟨front, back, rfl⟩ := List.append_of_mem hc
  obtain ⟨zs, hzs⟩ := lowerFrom_append before front (c :: back)
  obtain ⟨d, hd, hodd⟩ := exists_odd_lowerAlone hlookalike
  have hne : c ≠ '\u03a3' := by
    rintro rfl
    exact absurd hlookalike (by decide)
  rw [hzs, lowerFrom, lowerChar_eq hne]
  exact ⟨d, List.mem_append_right _ (List.mem_append_left _ hd), hodd⟩

/-- A table with no odd character does not list what has one. -/
theorem lookup_odd {α : Type} {table : List (String × α)} (htable : table.all (·.1.toList.all isSmall) = true)
    (h : ∃ d ∈ xs, isSmall d = false) : table.lookup (String.ofList xs) = none := by
  obtain ⟨d, hd, hodd⟩ := h
  refine List.lookup_eq_none_iff.2 fun p hp => ?_
  rw [bne_iff_ne]
  intro heq
  have hsmall := List.all_eq_true.1 (List.all_eq_true.1 htable p hp) d (by rw [← heq, String.toList_ofList]; exact hd)
  rw [hodd] at hsmall
  exact absurd hsmall Bool.false_ne_true

end Text

/-! ## Magnitudes -/

open Text

namespace Numeral

variable {spelled cs rest : List Char}

theorem suffix_of_mem_afterPercent {s : Suffix} (h : (s, rest) ∈ afterPercent cs) : s = .percent := by
  unfold afterPercent at h
  dsimp only at h
  rcases List.mem_append.1 h with h | h
  · split at h
    · exact (Prod.mk.inj (List.mem_singleton.1 h)).1
    · exact absurd h List.not_mem_nil
  · obtain ⟨_, -, heq⟩ := List.mem_map.1 h
    exact (Prod.mk.inj heq).1.symm

theorem suffix_of_mem_afterLetter {s : Suffix} (h : (s, rest) ∈ afterLetter cs) :
    ∃ c, s = .letter c ∧ foldLetter c ∈ suffixLetters := by
  unfold afterLetter at h
  split at h
  · exact absurd h List.not_mem_nil
  · next c cs =>
    split at h
    · next hc =>
      exact ⟨c, (Prod.mk.inj (List.mem_singleton.1 h)).1, List.contains_iff_mem.1 (Bool.and_eq_true_iff.1 hc).1⟩
    · exact absurd h List.not_mem_nil

/-- What is read as a word stands at the front of the text, and folds to the word. -/
theorem spelled_of_readSuffix? {word : String} (h : readSuffix? cs word = some (spelled, rest)) :
    cs = spelled ++ rest ∧ spelled.map foldLetter = word.toList := by
  unfold readSuffix? at h
  split at h
  · next rest' hfold =>
    split at h
    · obtain ⟨xs, rfl, hmap⟩ := readWord?_fold hfold
      obtain ⟨htake, rfl⟩ := Prod.mk.inj (Option.some.inj h)
      obtain rfl : xs = spelled := by
        rw [← htake, ← String.length_toList, ← hmap, List.length_map, List.take_left]
      exact ⟨rfl, hmap⟩
    · exact absurd h (by simp)
  · exact absurd h (by simp)

theorem suffix_of_mem_afterMagnitude {s : Suffix} (h : (s, rest) ∈ afterMagnitude cs) :
    ∃ spelled, s = .word spelled ∧ spelled ⊆ cs ∧
      ∃ word ∈ Magnitude.words.map (·.1), spelled.map foldLetter = word.toList := by
  obtain ⟨cs', hcs', h⟩ := List.mem_flatMap.1 h
  obtain ⟨⟨spelled, _⟩, hp, heq⟩ := List.mem_map.1 h
  obtain ⟨word, hword, hread⟩ := List.mem_filterMap.1 hp
  obtain ⟨rfl, rfl⟩ := Prod.mk.inj heq
  obtain ⟨rfl, hfold⟩ := spelled_of_readSuffix? hread
  obtain ⟨ys, rfl, -⟩ := Scan.afterBlank_leaves hcs'
  exact ⟨spelled, rfl, fun c hc => List.mem_append_right _ (List.mem_append_left _ hc), word, hword, hfold⟩

/-- The word of a mark is part of the text and folds to a listed word; the letter of one is listed. -/
theorem spelled_of_mem_afterSuffix {s : Suffix} (h : (some s, rest) ∈ afterSuffix cs) :
    (∀ c, s = .letter c → foldLetter c ∈ suffixLetters) ∧ ∀ spelled, s = .word spelled →
      spelled ⊆ cs ∧ ∃ word ∈ Magnitude.words.map (·.1), spelled.map foldLetter = word.toList := by
  rcases List.mem_append.1 h with h | h
  · obtain ⟨⟨s', rest'⟩, hmem, heq⟩ := List.mem_map.1 h
    obtain ⟨hs, -⟩ := Prod.mk.inj heq
    obtain rfl := Option.some.inj hs
    rcases List.mem_append.1 hmem with hmem | hword
    · rcases List.mem_append.1 hmem with hpercent | hletter
      · obtain rfl := suffix_of_mem_afterPercent hpercent
        exact ⟨nofun, nofun⟩
      · obtain ⟨c, rfl, hc⟩ := suffix_of_mem_afterLetter hletter
        exact ⟨fun _ heq => Suffix.letter.inj heq ▸ hc, nofun⟩
    · obtain ⟨spelled, rfl, hspelled⟩ := suffix_of_mem_afterMagnitude hword
      exact ⟨nofun, fun _ heq => Suffix.word.inj heq ▸ hspelled⟩
  · exact absurd (Prod.mk.inj (List.mem_singleton.1 h)).1 (by simp)

/-- The mark of a number stands behind a numeral. -/
theorem suffix_of_find? {f : Found} (h : find? cs = some f) : ∃ afterwards, afterwards ⊆ cs ∧
    (f.suffix, f.rest) ∈ afterSuffix afterwards := by
  obtain ⟨afterwards, ⟨xs, rfl, -⟩, -, hmark⟩ := Scan.find?_parts h
  exact ⟨afterwards, List.subset_append_right _ _, hmark⟩

theorem lettered_of_words {words : List String} (hwords : ∀ w ∈ words, ∀ c ∈ w.toList, IsLetter c) {word : String}
    (hword : word ∈ words) (h : spelled.map foldLetter = word.toList) : Lettered spelled := fun _ hc =>
  hwords word hword _ (h ▸ List.mem_map_of_mem hc)

/-- **A word of magnitude** has no meaning when a lookalike stands in it. -/
theorem mark?_word {word : String} (hword : word ∈ Magnitude.words.map (·.1))
    (h : spelled.map foldLetter = word.toList) : (Suffix.word spelled).mark? = none ↔ ∃ c ∈ spelled, c ∈ lookalikes := by
  have hlower : (Magnitude.words.map (·.1)).all (·.toList.all Char.isLower) = true := by decide
  have hletters : ∀ w ∈ Magnitude.words.map (·.1), ∀ c ∈ w.toList, IsLetter c := fun w hw c hc =>
    isLetter_of_isLower (List.all_eq_true.1 (List.all_eq_true.1 hlower w hw) c hc)
  have hspelled := lettered_of_words hletters hword h
  rw [Suffix.mark?, Option.map_eq_none_iff, lower, String.toList_ofList]
  by_cases hlookalike : ∃ c ∈ spelled, c ∈ lookalikes
  · obtain ⟨d, hd, hodd, -⟩ := exists_odd_lowerFrom hlookalike []
    exact iff_of_true (lookup_odd (by decide +kernel) ⟨d, hd, hodd⟩) hlookalike
  · have hplain : ∀ c ∈ spelled, c ∉ lookalikes := fun c hc hl => hlookalike ⟨c, hc, hl⟩
    have hlisted : ∀ w ∈ Magnitude.words.map (·.1), Magnitude.words.lookup w ≠ none := by decide
    rw [lowerFrom_eq_flatMap hspelled.sigma_not_mem, hspelled.flatMap_lowerAlone hplain, h, String.ofList_toList]
    exact iff_of_false (hlisted word hword) hlookalike

end Numeral

namespace Scan

variable {cs rest : List Char} {e : LexError}

/-- A number that is found fails when its mark is misspelled. -/
theorem numberPiece_error_iff {f : Numeral.Found} (h : Numeral.find? cs = some f) :
    numberPiece f = .error e ↔ ∃ spelled, f.suffix = some (.word spelled) ∧ (∃ c ∈ spelled, c ∈ lookalikes) ∧
      e = .unlisted (String.ofList spelled) := by
  obtain ⟨afterwards, -, hsuffix⟩ := Numeral.suffix_of_find? h
  unfold numberPiece
  cases hs : f.suffix with
  | none => simp
  | some s =>
    rw [hs] at hsuffix
    obtain ⟨hletter, hword⟩ := Numeral.spelled_of_mem_afterSuffix hsuffix
    cases s with
    | percent => simp [Numeral.Suffix.mark?]
    | letter c =>
      have hmarks : Numeral.suffixLetters.all (fun f => f == 'x' || (Magnitude.letters.lookup f).isSome) = true := by decide
      have hmark : ∀ f ∈ Numeral.suffixLetters, f = 'x' ∨ (Magnitude.letters.lookup f).isSome = true := fun f hf => by
        simpa using List.all_eq_true.1 hmarks f hf
      have hsome : (Numeral.Suffix.letter c).mark?.isSome = true := by
        rw [Numeral.Suffix.mark?]
        split
        · rfl
        · next hx =>
          rw [Option.isSome_map]
          exact (hmark _ (hletter c rfl)).resolve_left (by simpa using hx)
      obtain ⟨u, hu⟩ := Option.isSome_iff_exists.1 hsome
      simp [hu]
    | word spelled =>
      obtain ⟨-, word, hlisted, hfold⟩ := hword spelled rfl
      have hmark := Numeral.mark?_word hlisted hfold
      simp only [Option.some.injEq, Numeral.Suffix.word.injEq, exists_eq_left']
      by_cases hlookalike : ∃ c ∈ spelled, c ∈ lookalikes
      · simp only [hmark.2 hlookalike, hlookalike, Except.error.injEq, true_and]
        exact eq_comm
      · obtain ⟨u, hu⟩ := Option.ne_none_iff_exists'.1 fun hnone => hlookalike (hmark.1 hnone)
        simp only [hu, reduceCtorEq, hlookalike, false_and]

/-! ## Comparisons in words -/

/-- What is left after a comparison in words. -/
def phraseRest? (cs : List Char) : Option (List Char) :=
  Operator.phrases.findSome? fun p => (readPhrase? (splitWords p.1.toList) cs).filter wordEnds

/-- What a phrase is looked up as. -/
def normalPhrase (xs : List Char) : String := respace (lower (String.ofList xs))

theorem phrase?_eq : phrase? cs = (phraseRest? cs).map fun rest =>
    match Operator.phrases.lookup (normalPhrase (cs.take (cs.length - rest.length))) with
    | some op => .ok ⟨some (.compare op), rest⟩
    | none => .error (.unlisted (normalPhrase (cs.take (cs.length - rest.length)))) := by
  rw [phrase?, phraseRest?, List.map_findSome?]
  congr 1
  funext ⟨s, op⟩
  dsimp only [Function.comp_apply]
  cases readPhrase? (splitWords s.toList) cs with
  | none => rfl
  | some rest =>
    dsimp only
    by_cases hends : wordEnds rest = true
    · have hfilter : (some rest).filter wordEnds = some rest := by rw [Option.filter, if_pos hends]
      rw [if_pos hends, hfilter, Option.map_some]
      unfold normalPhrase
      generalize Operator.phrases.lookup _ = found
      cases found <;> rfl
    · have hfilter : (some rest).filter wordEnds = none := by rw [Option.filter, if_neg hends]
      rw [if_neg hends, hfilter]
      rfl

/-- The characters of a phrase without lookalikes are its words in lower case. -/
theorem readPhrase?_words {words : List (List Char)} (hwords : ∀ w ∈ words, w ≠ [] ∧ ∀ c ∈ w, IsLetter c)
    (h : readPhrase? words cs = some rest) : ∃ xs, cs = xs ++ rest ∧ ((∀ c ∈ xs, c ∉ lookalikes) →
      '\u03a3' ∉ xs ∧ splitWords (xs.flatMap lowerAlone) = words) := by
  induction words generalizing cs with
  | nil => exact ⟨[], Option.some.inj h, fun _ => ⟨List.not_mem_nil, rfl⟩⟩
  | cons w words ih =>
    obtain ⟨⟨hne, hletters⟩, hwords⟩ := List.forall_mem_cons.1 hwords
    have hword : ∀ {rest' : List Char}, readWord? w cs = some rest' → ∃ xs, cs = xs ++ rest' ∧
        ((∀ c ∈ xs, c ∉ lookalikes) → '\u03a3' ∉ xs ∧ xs.flatMap lowerAlone = w) := fun hread => by
      obtain ⟨xs, hxs, hfold⟩ := readWord?_fold hread
      have hlettered : Lettered xs := fun c hc => hletters _ (hfold ▸ List.mem_map_of_mem hc)
      exact ⟨xs, hxs, fun hplain => ⟨hlettered.sigma_not_mem, (hlettered.flatMap_lowerAlone hplain).trans hfold⟩⟩
    have hblank : ∀ c ∈ w, isBlank c = false := fun c hc => isBlank_of_isLetter (hletters c hc)
    cases words with
    | nil =>
      obtain ⟨xs, hxs, hlower⟩ := hword h
      refine ⟨xs, hxs, fun hplain => ?_⟩
      obtain ⟨hsigma, hw⟩ := hlower hplain
      exact ⟨hsigma, by rw [hw, splitWords_word hne hblank]⟩
    | cons w' words =>
      rw [readPhrase?] at h
      · split at h
        · next c rest' hread =>
          split at h
          · next hc =>
            obtain ⟨xs, hxs, hlower⟩ := hword hread
            obtain ⟨ys, hys, hlower'⟩ := ih hwords h
            have hsplit : rest' = rest'.takeWhile isBlank ++ ys ++ rest := by
              rw [List.append_assoc, ← hys, List.takeWhile_append_dropWhile]
            have hblanks : ∀ d ∈ rest'.takeWhile isBlank, isBlank d = true := List.all_eq_true.1 List.all_takeWhile
            refine ⟨xs ++ c :: (rest'.takeWhile isBlank ++ ys), ?_, fun hplain => ?_⟩
            · rw [hxs, List.append_assoc, List.cons_append, ← hsplit]
            · simp only [List.forall_mem_append, List.forall_mem_cons] at hplain
              obtain ⟨hsigma, hw⟩ := hlower hplain.1
              obtain ⟨hsigma', hws⟩ := hlower' hplain.2.2.2
              refine ⟨?_, ?_⟩
              · simp only [List.mem_append, List.mem_cons, not_or]
                refine ⟨hsigma, ?_, fun hmem => absurd (hblanks _ hmem) (by decide), hsigma'⟩
                rintro rfl
                exact absurd hc (by decide)
              · rw [List.flatMap_append, hw, List.flatMap_cons, lowerAlone_blank hc, List.singleton_append,
                  splitWords_blank hc, splitWords_word hne hblank, List.flatMap_append, flatMap_lowerAlone_blanks hblanks,
                  splitWords_blanks hblanks, hws]
                rfl
          · exact absurd h (by simp)
        · exact absurd h (by simp)
      · exact List.cons_ne_nil _ _

/-- **A comparison in words** has no meaning when a lookalike stands in it. -/
theorem phrase?_error_iff :
    phrase? cs = some (.error e) ↔ ∃ rest, phraseRest? cs = some rest ∧
      (∃ c ∈ cs.take (cs.length - rest.length), c ∈ lookalikes) ∧
      e = .unlisted (normalPhrase (cs.take (cs.length - rest.length))) := by
  rw [phrase?_eq, Option.map_eq_some_iff]
  refine exists_congr fun rest => and_congr_right fun hrest => ?_
  have hall : Operator.phrases.all (fun p => (splitWords p.1.toList).all (fun w => !w.isEmpty && w.all Char.isLower) &&
      String.ofList ([' '].intercalate (splitWords p.1.toList)) == p.1 && (Operator.phrases.lookup p.1).isSome) = true := by
    decide
  have hphrases : ∀ p ∈ Operator.phrases, (∀ w ∈ splitWords p.1.toList, w ≠ [] ∧ ∀ c ∈ w, IsLetter c) ∧
      String.ofList ([' '].intercalate (splitWords p.1.toList)) = p.1 ∧ Operator.phrases.lookup p.1 ≠ none := fun p hp => by
    have hp := List.all_eq_true.1 hall p hp
    simp only [Bool.and_eq_true, List.all_eq_true, beq_iff_eq, Bool.not_eq_true', List.isEmpty_eq_false_iff] at hp
    exact ⟨fun w hw => ⟨(hp.1.1 w hw).1, fun c hc => isLetter_of_isLower ((hp.1.1 w hw).2 c hc)⟩, hp.1.2,
      Option.isSome_iff_ne_none.1 hp.2⟩
  obtain ⟨_, p, _, hsplit, hread, -⟩ := List.findSome?_eq_some_iff.1 hrest
  obtain ⟨hwords, hspaced, hlisted⟩ := hphrases p (hsplit ▸ List.mem_append_right _ List.mem_cons_self)
  obtain ⟨xs, hxs, hplainly⟩ := readPhrase?_words hwords (Option.filter_eq_some_iff.1 hread).1
  have htake : cs.take (cs.length - rest.length) = xs := by simp [hxs]
  rw [htake]
  by_cases hlookalike : ∃ c ∈ xs, c ∈ lookalikes
  · obtain ⟨d, hd, hodd, hblank⟩ := exists_odd_lowerFrom hlookalike []
    obtain ⟨w, hw, hdw⟩ := mem_splitWords hd hblank
    have hunlisted : Operator.phrases.lookup (normalPhrase xs) = none := by
      rw [normalPhrase, respace, lower, String.toList_ofList, String.toList_ofList]
      exact lookup_odd (by decide +kernel) ⟨d, mem_intercalate hw hdw, hodd⟩
    simp only [hunlisted, hlookalike, Except.error.injEq, true_and]
    exact eq_comm
  · obtain ⟨hsigma, hlower⟩ := hplainly fun c hc hl => hlookalike ⟨c, hc, hl⟩
    have hnormal : normalPhrase xs = p.1 := by
      rw [normalPhrase, respace, lower, String.toList_ofList, String.toList_ofList, lowerFrom_eq_flatMap hsigma, hlower,
        hspaced]
    obtain ⟨op, hop⟩ := Option.ne_none_iff_exists'.1 (hnormal ▸ hlisted)
    simp only [hop, reduceCtorEq, hlookalike, false_and]

/-! ## Places -/

/-- The piece at the place is a number with a magnitude, or a comparison in words, and a lookalike stands in it; the
error names it as it was looked up. -/
inductive Place.Misspells (p : Place) : LexError → Prop
  | magnitude {f : Numeral.Found} {spelled : List Char} (hblank : blanks? p.following = none)
      (hquote : quoted? p.before p.following = none) (hnumber : Numeral.find? p.following = some f)
      (hmark : f.suffix = some (.word spelled)) (hletter : ∃ c ∈ spelled, c ∈ lookalikes) :
      p.Misspells (.unlisted (String.ofList spelled))
  | comparison {rest : List Char} (hblank : blanks? p.following = none) (hquote : quoted? p.before p.following = none)
      (hnumber : Numeral.find? p.following = none) (hsign : sign? p.following = none)
      (hphrase : phraseRest? p.following = some rest) (hletter : ∃ c ∈ p.slice rest, c ∈ lookalikes) :
      p.Misspells (.unlisted (normalPhrase (p.slice rest)))

theorem blanks?_ne_error : blanks? cs ≠ some (.error e) := by
  unfold blanks?
  split
  · split <;> simp
  · simp

theorem quoted?_ne_error {before : Option Char} : quoted? before cs ≠ some (.error e) := by
  have hphrase : ∀ inner rest : List Char, some (phrasePiece inner rest) ≠ some (.error e) := by simp [phrasePiece]
  unfold quoted?
  split
  · cases upTo? '\x22' _ <;> simp [phrasePiece]
  · cases upTo? '”' _ <;> simp [phrasePiece]
  · split
    · simp
    · split
      · split
        · simp
        · exact hphrase _ _
      · simp
  · simp

theorem sign?_ne_error : sign? cs ≠ some (.error e) := fun h => by
  obtain ⟨_, _, _, -, hfound, -⟩ := List.findSome?_eq_some_iff.1 h
  dsimp only at hfound
  split at hfound <;> simp at hfound

theorem word?_ne_error : word? cs ≠ some (.error e) := by
  unfold word?
  split
  · split <;> simp
  · simp

theorem punctuation?_ne_error : punctuation? cs ≠ some (.error e) := by
  unfold punctuation?
  split <;> simp

/-- **Cutting fails at a place** when it is misspelled. -/
theorem Place.piece?_error_iff {p : Place} : p.piece? = some (.error e) ↔ p.Misspells e := by
  have hchain : p.piece? = some (.error e) ↔ blanks? p.following = none ∧ quoted? p.before p.following = none ∧
      (number? p.following = some (.error e) ∨ number? p.following = none ∧ sign? p.following = none ∧
        phrase? p.following = some (.error e)) := by
    simp only [Place.piece?, Scan.piece?, Option.orElse_eq_orElse, Option.orElse_eq_or, Option.or_eq_some_iff,
      blanks?_ne_error, quoted?_ne_error, sign?_ne_error, word?_ne_error, punctuation?_ne_error, false_or, and_false,
      or_false]
  rw [hchain]
  constructor
  · rintro ⟨hblank, hquote, hnumber | ⟨hnumber, hsign, hphrase⟩⟩
    · obtain ⟨f, hfound, hpiece⟩ := Option.map_eq_some_iff.1 hnumber
      obtain ⟨spelled, hmark, hletter, rfl⟩ := (numberPiece_error_iff hfound).1 hpiece
      exact .magnitude hblank hquote hfound hmark hletter
    · obtain ⟨rest, hrest, hletter, rfl⟩ := phrase?_error_iff.1 hphrase
      exact .comparison hblank hquote (Option.map_eq_none_iff.1 hnumber) hsign hrest hletter
  · rintro (⟨hblank, hquote, hnumber, hmark, hletter⟩ | ⟨hblank, hquote, hnumber, hsign, hphrase, hletter⟩)
    · refine ⟨hblank, hquote, .inl ?_⟩
      rw [number?, hnumber, Option.map_some, (numberPiece_error_iff hnumber).2 ⟨_, hmark, hletter, rfl⟩]
    · exact ⟨hblank, hquote, .inr ⟨Option.map_eq_none_iff.2 hnumber, hsign, phrase?_error_iff.2 ⟨_, hphrase, hletter, rfl⟩⟩⟩

/-- A misspelled place has a lookalike ahead. -/
theorem Place.Misspells.exists_lookalike {p : Place} (h : p.Misspells e) : ∃ c ∈ p.following, c ∈ lookalikes := by
  rcases h with ⟨-, -, hnumber, hmark, c, hc, hlookalike⟩ | ⟨-, -, -, -, -, c, hc, hlookalike⟩
  · obtain ⟨afterwards, hsubset, hsuffix⟩ := Numeral.suffix_of_find? hnumber
    rw [hmark] at hsuffix
    exact ⟨c, hsubset (((Numeral.spelled_of_mem_afterSuffix hsuffix).2 _ rfl).1 hc), hlookalike⟩
  · exact ⟨c, List.mem_of_mem_take hc, hlookalike⟩

end Scan

/-! ## Whole texts -/

open Scan

/-- **A text cannot be cut into tokens** when cutting comes to a misspelled place, and then the error names it. Every
text without a lookalike is cut into tokens. -/
theorem tokenize_error_iff (text : String) :
    (∀ e, tokenize text = .error e ↔ ∃ ts p, Scans (start text).2 ts p ∧ p.Misspells e) ∧
      ((∃ c ∈ text.toList, c ∈ lookalikes) ∨ ∃ ts, tokenize text = .ok ts) := by
  have hfails : ∀ e, tokenize text = .error e ↔ (start text).2.tokens = .error e := fun e => by
    rw [tokenize_eq, Except.map_error_iff]
  have hplaces : ∀ e, tokenize text = .error e ↔ ∃ ts p, Scans (start text).2 ts p ∧ p.Misspells e := fun e => by
    rw [hfails]
    constructor
    · intro h
      rcases (start text).2.tokens_cases with ⟨ts, q, -, -, hok⟩ | ⟨ts, q, e', hscans, hpiece, herror⟩
      · rw [h] at hok
        exact absurd hok nofun
      · rw [h] at herror
        cases herror
        exact ⟨ts, q, hscans, Place.piece?_error_iff.1 hpiece⟩
    · rintro ⟨ts, p, hscans, hmisspells⟩
      rw [hscans.tokens, Place.tokens_failed (Place.piece?_error_iff.2 hmisspells)]
      rfl
  refine ⟨hplaces, ?_⟩
  cases htokens : tokenize text with
  | ok ts => exact .inr ⟨ts, rfl⟩
  | error e =>
    obtain ⟨ts, p, hscans, hmisspells⟩ := (hplaces e).1 htokens
    obtain ⟨c, hc, hlookalike⟩ := hmisspells.exists_lookalike
    exact .inl ⟨c, (start_suffix text).subset (hscans.suffix.subset hc), hlookalike⟩

/-- A comparison in words with a long s. -/
theorem not_forall_tokenize_ok : ¬ ∀ text : String, ∃ ts, tokenize text = .ok ts := fun h => by
  obtain ⟨ts, hts⟩ := h "PE le\u017fs than 15"
  have hfails : (tokenize "PE le\u017fs than 15").toOption = none := by decide +kernel
  rw [hts] at hfails
  exact absurd hfails nofun

end EquityScreen
