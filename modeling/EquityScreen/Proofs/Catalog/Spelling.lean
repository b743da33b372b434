/-
How a name that means a built-in field can be spelled.

A name means a field through what is left of it in lower case and without separators (`bare`), which
is then what is left of one of the names that the field was given (`resolve?_bare`). So what the bare
spelling starts with, or holds, can be read off the table of fields (`unclaimed_of_mem`): no name
starts with a superlative, with a qualitative phrase or with a word that a plan in words is framed with.
-/
import EquityScreen.Proofs.Catalog.Names
import EquityScreen.Proofs.Text.Case
import EquityScreen.Vocabulary

namespace EquityScreen

open Text

/-- What is left of a name that is looked up, in lower case and without separators. -/
def bare (cs : List Char) : List Char := squeezeChars (trimChars (lowerFrom [] cs))

/-- Characters without the separators. -/
def withoutSeparators (cs : List Char) : List Char := cs.filter (!isSeparator ·)

variable {xs ys cs : List Char}

theorem isSeparator_of_isBlank {c : Char} (h : isBlank c = true) : isSeparator c = true := by
  simp [isSeparator, h]

/-- **The beginning of a bare name.** -/
theorem prefix_bare (hsmall : ∀ c ∈ xs, isSmall c = true) (hhead : ∀ c ∈ xs.head?, isBlank c = false)
    (hlast : ∀ c ∈ xs.getLast?, isBlank c = false) : withoutSeparators xs <+: bare (xs ++ ys) := by
  unfold bare squeezeChars
  rw [lowerFrom_small_append hsmall]
  have htrim : xs <+: trimChars (xs ++ lowerFrom (xs.reverse ++ []) ys) := prefix_trimChars hhead hlast
  obtain ⟨zs, hzs⟩ := htrim
  rw [← hzs, lowerFrom_small_append hsmall, List.filter_append]
  exact List.prefix_append _ _

/-- A word of small letters at the front of a name is at the front of the bare name. -/
theorem prefix_bare_word {xs ys : List Char} (h : ∀ c ∈ xs, isSmall c = true ∧ isSeparator c = false) :
    xs <+: bare (xs ++ ys) := by
  have hblank : ∀ c ∈ xs, isBlank c = false := fun c hc =>
    Bool.eq_false_iff.2 fun hb => absurd (isSeparator_of_isBlank hb) (by simp [(h c hc).2])
  have hprefix : withoutSeparators xs <+: bare (xs ++ ys) := prefix_bare (fun c hc => (h c hc).1)
    (fun c hc => hblank c (List.mem_of_mem_head? hc)) (fun c hc => hblank c (List.mem_of_mem_getLast? hc))
  rwa [withoutSeparators, List.filter_eq_self.2 fun c hc => by simp [(h c hc).2]] at hprefix

/-- What a bare name holds. -/
theorem infix_bare (hxs : xs <:+: ys) (hsmall : ∀ c ∈ xs, isSmall c = true)
    (hall : ∀ c ∈ xs, isSeparator c = false) : xs <:+: bare ys := by
  have hblank : ∀ c ∈ xs, isBlank c = false := fun c hc =>
    Bool.eq_false_iff.2 fun h => absurd (isSeparator_of_isBlank h) (by simp [hall c hc])
  have h := (infix_lowerFrom hsmall (infix_trimChars (infix_lowerFrom hsmall hxs []) hblank) []).filter
    (!isSeparator ·)
  rwa [List.filter_eq_self.2 fun c hc => by simp [hall c hc]] at h

/-- Hyphens stand for blanks in a phrase: both are left out of a bare name. -/
theorem withoutSeparators_unhyphenated (cs : List Char) :
    withoutSeparators (cs.map fun ch => if ch == '-' then ' ' else ch) = withoutSeparators cs := by
  induction cs with
  | nil => rfl
  | cons c cs ih =>
    unfold withoutSeparators at ih ⊢
    rw [List.map_cons, List.filter_cons, List.filter_cons, ih]
    by_cases hc : c = '-'
    · rw [hc]
      rfl
    · rw [show (if (c == '-') = true then ' ' else c) = c from if_neg (by simpa using hc)]

/-- The bare spelling of small letters only comes from a text without a sigma. -/
theorem sigma_not_mem (h : ∀ c ∈ bare cs, isSmall c = true) :
    '\u03a3' ∉ cs ∧ '\u03a3' ∉ trimChars (lowerFrom [] cs) := by
  have hsigma : ∀ c, isSigma c = true → isSeparator c = false ∧ isSmall c = false := by
    intro c hc
    simp only [isSigma, Bool.or_eq_true, beq_iff_eq] at hc
    rcases hc with rfl | rfl <;> decide
  have hno : ¬ ∃ c ∈ trimChars (lowerFrom [] cs), c = '\u03a3' ∨ isSigma c = true := fun hc => by
    obtain ⟨c, hc, hcsigma⟩ := exists_isSigma_lowerFrom hc []
    obtain ⟨hseparator, hsmall⟩ := hsigma c hcsigma
    refine absurd (h c (List.mem_filter.2 ⟨hc, by simp [hseparator]⟩)) (by simp [hsmall])
  refine ⟨fun hc => ?_, fun hc => hno ⟨_, hc, .inl rfl⟩⟩
  obtain ⟨c, hc, hcsigma⟩ := exists_isSigma_lowerFrom ⟨_, hc, .inl rfl⟩ []
  exact hno ⟨c, mem_trimChars hc (isBlank_isSigma hcsigma), .inr hcsigma⟩

/-! ## Bare spellings piece by piece -/

/-- The bare spelling of each character on its own. -/
def bareAlone (cs : List Char) : List Char := withoutSeparators (cs.flatMap lowerAlone)

theorem bareAlone_append (xs ys : List Char) : bareAlone (xs ++ ys) = bareAlone xs ++ bareAlone ys := by
  simp only [bareAlone, withoutSeparators, List.flatMap_append, List.filter_append]

theorem bareAlone_blanks (h : ∀ c ∈ xs, isBlank c = true) : bareAlone xs = [] := by
  refine List.filter_eq_nil_iff.2 fun d hd => ?_
  obtain ⟨c, hc, hd⟩ := List.mem_flatMap.1 hd
  rw [lowerAlone_blank (h c hc), List.mem_singleton] at hd
  simp [hd, isSeparator_of_isBlank (h c hc)]

theorem bareAlone_dropWhile (cs : List Char) : bareAlone (cs.dropWhile isBlank) = bareAlone cs := by
  conv => rhs; rw [← List.takeWhile_append_dropWhile (p := isBlank) (l := cs), bareAlone_append]
  rw [bareAlone_blanks fun c hc => List.all_eq_true.1 List.all_takeWhile c hc, List.nil_append]

theorem bareAlone_trimChars (cs : List Char) : bareAlone (trimChars cs) = bareAlone cs := by
  rw [← bareAlone_dropWhile cs, trimChars]
  generalize cs.dropWhile isBlank = l
  have hsplit : l = (l.reverse.dropWhile isBlank).reverse ++ (l.reverse.takeWhile isBlank).reverse := by
    rw [← List.reverse_append, List.takeWhile_append_dropWhile, List.reverse_reverse]
  conv => rhs; rw [hsplit, bareAlone_append]
  rw [bareAlone_blanks fun c hc => List.all_eq_true.1 List.all_takeWhile c (List.mem_reverse.1 hc), List.append_nil]

/-- A text without a sigma is bared character by character. -/
theorem bare_eq (h : ∀ c ∈ bare cs, isSmall c = true) :
    bare cs = bareAlone (cs.flatMap lowerAlone) := by
  obtain ⟨hcs, htrim⟩ := sigma_not_mem h
  rw [lowerFrom_eq_flatMap hcs] at htrim
  rw [bare, squeezeChars, lowerFrom_eq_flatMap hcs, lowerFrom_eq_flatMap htrim]
  exact bareAlone_trimChars _

theorem flatMap_lowerAlone_small (h : ∀ c ∈ xs, isSmall c = true) : xs.flatMap lowerAlone = xs := by
  induction xs with
  | nil => rfl
  | cons x xs ih =>
    rw [List.forall_mem_cons] at h
    rw [List.flatMap_cons, lowerAlone, lowerChar_small h.1, ih h.2, List.singleton_append]

/-- **The bare spelling of a name** that goes on after a word and a blank: the word, and what is left
of the rest. -/
theorem bare_after_word (hxs : ∀ c ∈ xs, isSmall c = true ∧ isSeparator c = false)
    (h : ∀ c ∈ bare (xs ++ ' ' :: (ys ++ cs)), isSmall c = true) (hys : ∀ c ∈ bare ys, isSmall c = true) :
    ∃ zs, bare (xs ++ ' ' :: (ys ++ cs)) = xs ++ bare ys ++ zs := by
  have hword : bareAlone (xs.flatMap lowerAlone) = xs := by
    rw [flatMap_lowerAlone_small fun c hc => (hxs c hc).1, bareAlone,
      flatMap_lowerAlone_small fun c hc => (hxs c hc).1]
    exact List.filter_eq_self.2 fun c hc => by simp [(hxs c hc).2]
  have hblank : bareAlone (lowerAlone ' ') = [] := by decide
  refine ⟨bareAlone (cs.flatMap lowerAlone), ?_⟩
  rw [bare_eq h, bare_eq hys]
  simp only [List.flatMap_append, List.flatMap_cons, bareAlone_append, hword, hblank, List.nil_append,
    List.append_assoc]

namespace Catalog

/-- What is left of the names of fields. -/
def bareNames (fs : List Field) : List (List Char) := fs.flatMap fun f => f.writings.map squeezeChars

theorem resolve?_bare {fs : List Field} {s key : String} (h : (ofFields fs).resolve? s = some key) :
    bare s.toList ∈ bareNames fs := by
  rw [resolve?_ofFields] at h
  dsimp only at h
  split at h
  · exact absurd h (by simp)
  · obtain ⟨f, hf, -⟩ := Option.map_eq_some_iff.1 h
    have hfound : f ∈ fs ∧ ∃ w ∈ f.writings, squeezeChars w = bare s.toList := by
      rcases Option.or_eq_some_iff.1 ((Option.orElse_eq_or).symm.trans hf) with hf | ⟨-, hf⟩
      · have hany := List.find?_some hf
        obtain ⟨w, hw, heq⟩ := List.any_eq_true.1 hany
        exact ⟨List.mem_reverse.1 (List.mem_of_find?_eq_some hf), w, hw, by rw [beq_iff_eq.1 heq, bare]⟩
      · have hany := List.find?_some hf
        obtain ⟨w, hw, heq⟩ := List.any_eq_true.1 hany
        exact ⟨List.mem_reverse.1 (List.mem_of_find?_eq_some hf), w, hw, beq_iff_eq.1 heq⟩
    obtain ⟨hmem, w, hw, heq⟩ := hfound
    exact List.mem_flatMap.2 ⟨f, hmem, List.mem_map.2 ⟨w, hw, heq⟩⟩

/-- Words without meaning that a plan in words is framed with. -/
def framing : List String :=
  ["Screening", "for", "all", "securities", "limited", "refinement", "of", "previous", "results"]

/-- Nothing else that a query may say starts like a field: no superlative, no qualitative phrase, no word
that a plan in words is framed with, and of the qualitative words only "low" and "high", before something
that is no field. No name starts the limit of a plan, and none goes on with a direction. -/
def isUnclaimed (n : List Char) : Bool :=
  n.all isSmall && Vocabulary.superlatives.all (!·.1.toList.isPrefixOf n) &&
    Vocabulary.phrases.all (·.1.all fun s => !(withoutSeparators s.toList).isPrefixOf n) &&
    Vocabulary.qualities.all (fun q => !q.1.toList.isPrefixOf n || n.drop q.1.toList.length == "52w".toList) &&
    !n.isPrefixOf "52w".toList && framing.all (fun w => !(lowerFrom [] w.toList).isPrefixOf n) &&
    ["totop", "tobottom"].all (!n.isPrefixOf ·.toList) && !directed n
where
  /-- The end of a direction is written somewhere. -/
  directed : List Char → Bool
    | [] => false
    | c :: cs => "scending".toList.isPrefixOf (c :: cs) || directed cs

theorem isUnclaimed_builtin : (bareNames builtinFields).all isUnclaimed = true := by
  -- The literals are turned into characters here: in the kernel that is slow.
  simp only [bareNames, builtinFields, identityFields, priceFields, valuationFields, profitabilityFields,
    healthFields, growthFields, volumeFields, returnFields, technicalFields, List.cons_append,
    List.nil_append, FieldInfo.writings, String.reduceToList, List.map_cons, List.map_nil,
    List.flatMap_cons, List.flatMap_nil]
  decide +kernel

/-! ## Names and vocabulary -/

/-- The words that ask for an order or say a quality are written in small letters. -/
theorem plain_words {w : String}
    (h : w ∈ Vocabulary.superlatives.map (·.1) ++ Vocabulary.qualities.map (·.1)) :
    ∀ c ∈ w.toList, isSmall c = true ∧ isSeparator c = false := by
  have hall : (Vocabulary.superlatives.map (·.1) ++ Vocabulary.qualities.map (·.1)).all
      (fun w => w.toList.all fun c => isSmall c && !isSeparator c) = true := by decide +kernel
  intro c hc
  simpa using List.all_eq_true.1 (List.all_eq_true.1 hall w h) c hc

/-- The phrases are written in small letters, with no blank at either end. -/
theorem plain_phrases {names : List String} {terms : List Vocabulary.PhraseTerm} {s : String}
    (h : (names, terms) ∈ Vocabulary.phrases) (hs : s ∈ names) :
    (∀ c ∈ s.toList, isSmall c = true) ∧ (∀ c ∈ s.toList.head?, isBlank c = false) ∧
      ∀ c ∈ s.toList.getLast?, isBlank c = false := by
  have hall : Vocabulary.phrases.all (fun x => x.1.all fun s => s.toList.all isSmall &&
      s.toList.head?.all (!isBlank ·) && s.toList.getLast?.all (!isBlank ·)) = true := by decide +kernel
  have hs := List.all_eq_true.1 (List.all_eq_true.1 hall _ h) s hs
  simp only [Bool.and_eq_true, List.all_eq_true, Option.all_eq_true] at hs
  exact ⟨hs.1.1, fun c hc => by simpa using hs.1.2 c hc, fun c hc => by simpa using hs.2 c hc⟩

/-- What `isUnclaimed` says of a bare name. -/
structure Unclaimed (n : List Char) : Prop where
  small : ∀ c ∈ n, isSmall c = true
  superlative : ∀ x ∈ Vocabulary.superlatives, ¬ x.1.toList <+: n
  phrase : ∀ x ∈ Vocabulary.phrases, ∀ s ∈ x.1, ¬ withoutSeparators s.toList <+: n
  quality : ∀ x ∈ Vocabulary.qualities, x.1.toList <+: n → n.drop x.1.toList.length = "52w".toList
  long : ¬ n <+: "52w".toList
  framing : ∀ w ∈ framing, ¬ lowerFrom [] w.toList <+: n
  limit : ∀ w ∈ ["totop", "tobottom"], ¬ n <+: w.toList
  undirected : ¬ "scending".toList <:+: n

theorem unclaimed_of_mem {n : List Char} (h : n ∈ bareNames builtinFields) : Unclaimed n := by
  have h := List.all_eq_true.1 isUnclaimed_builtin n h
  simp only [isUnclaimed, Bool.and_eq_true] at h
  obtain ⟨⟨⟨⟨⟨⟨⟨hsmall, hsuperlative⟩, hphrase⟩, hquality⟩, hlong⟩, hframing⟩, hlimit⟩, hdirected⟩ := h
  have hno : ∀ {xs ys : List Char}, (!xs.isPrefixOf ys) = true → ¬ xs <+: ys := fun hf hp => by
    rw [List.isPrefixOf_iff_prefix.2 hp] at hf
    exact absurd hf (by decide)
  simp only [List.all_eq_true] at hsmall hsuperlative hphrase hquality hframing hlimit
  refine ⟨hsmall, fun x hx => hno (hsuperlative x hx), fun x hx s hs => hno (hphrase x hx s hs), fun x hx hp => ?_,
    hno hlong, fun w hw => hno (hframing w hw), fun w hw => hno (hlimit w hw), fun hinfix => ?_⟩
  · have hq := hquality x hx
    rw [Bool.or_eq_true, beq_iff_eq] at hq
    exact hq.resolve_left fun hf => hno hf hp
  · obtain ⟨front, back, rfl⟩ := hinfix
    have hholds : ∀ front : List Char, isUnclaimed.directed (front ++ "scending".toList ++ back) = true := by
      intro front
      induction front with
      | nil =>
        rw [List.nil_append]
        refine Bool.or_eq_true_iff.2 (.inl (List.isPrefixOf_iff_prefix.2 ?_))
        exact List.prefix_append _ _
      | cons c front ih =>
        rw [List.cons_append, List.cons_append, isUnclaimed.directed, ih, Bool.or_true]
    rw [hholds front] at hdirected
    exact absurd hdirected (by decide)

end Catalog
end EquityScreen
