/-
How a number that was written out is found again: its numeral, with a sign and a fraction where they
were written, and its mark. The longest way to read a numeral is tried first, and what comes after a
number (`Closes`) belongs to no number.
-/
import EquityScreen.Proofs.Token.Cutting

namespace EquityScreen
namespace Scan

open Text

variable {ds fs rest tail : List Char} {c : Char}

/-! ## Digits -/

/-- The characters are the digits 0 to 9. -/
def Digits (ds : List Char) : Prop := ∀ c ∈ ds, c.isDigit = true

instance (ds : List Char) : Decidable (Digits ds) := decidable_of_iff (ds.all Char.isDigit = true) List.all_eq_true

theorem digits_nil : Digits [] := fun _ hc => absurd hc List.not_mem_nil

/-- What a digit 0 to 9 is and is not. -/
structure Figure (c : Char) : Prop where
  digit : isDigit c = true
  alphanum : c.isAlphanum = true
  letter : foldLetter c ∉ markInitials ++ ['r', 'i']

theorem figure_of_isDigit (h : c.isDigit = true) : Figure c := by
  have hascii : c.toNat < 128 := by
    simp only [Char.isDigit, Bool.and_eq_true, decide_eq_true_eq] at h
    exact Nat.lt_of_le_of_lt (UInt32.le_iff_toNat_le.1 h.2) (by decide)
  have hall := of_ascii (p := fun c => !c.isDigit || (isDigit c && c.isAlphanum &&
    !(markInitials ++ ['r', 'i']).contains (foldLetter c))) (by decide +kernel) hascii
  simp only [h, Bool.not_true, Bool.false_or, Bool.and_eq_true, Bool.not_eq_true'] at hall
  exact ⟨hall.1.1, hall.1.2, by simpa using hall.2⟩

/-- No digit comes first. -/
def Undigited (cs : List Char) : Prop := ∀ c ∈ cs.head?, isDigit c = false

/-- No group of digits comes first, and no digit. -/
structure Ungrouped (cs : List Char) : Prop where
  first : Undigited cs
  comma : ∀ cs', cs = ',' :: cs' → Undigited cs'

theorem dropDigits?_some {n : Nat} {cs r : List Char} (hcs : cs = ds ++ tail) (htail : Undigited tail)
    (h : Numeral.dropDigits? n cs = some r) : ∃ ds', ds' <:+ ds ∧ r = ds' ++ tail := by
  induction n generalizing ds cs with
  | zero => exact ⟨ds, List.suffix_refl ds, by rw [← hcs]; exact (Option.some.inj h).symm⟩
  | succ n ih =>
    cases ds with
    | nil =>
      rw [List.nil_append] at hcs
      cases cs with
      | nil => simp [Numeral.dropDigits?] at h
      | cons c cs => simp [Numeral.dropDigits?, htail c (hcs ▸ rfl)] at h
    | cons d ds =>
      subst hcs
      rw [List.cons_append, Numeral.dropDigits?] at h
      split at h
      · obtain ⟨ds', hds', rfl⟩ := ih rfl h
        exact ⟨ds', hds'.trans (List.suffix_cons d ds), rfl⟩
      · exact absurd h (by simp)

theorem dropDigits?_eq_none {n : Nat} {cs : List Char} (hcs : Undigited cs) :
    Numeral.dropDigits? (n + 1) cs = none := by
  cases cs with
  | nil => rfl
  | cons c cs => simp [Numeral.dropDigits?, hcs c rfl]

/-- No group of digits comes after digits that no group does. -/
theorem afterGroups_eq_nil (hds : Digits ds) (htail : Ungrouped tail) (fuel : Nat) :
    Numeral.afterGroups fuel (ds ++ tail) = [] := by
  cases fuel with
  | zero => rfl
  | succ fuel =>
    unfold Numeral.afterGroups
    split
    · next hcs =>
      exact absurd hcs (by simp)
    · next fuel' cs hfuel hcs =>
      cases ds with
      | nil =>
        have hnone := htail.comma cs hcs
        simp [dropDigits?_eq_none hnone]
      | cons d ds =>
        have hd := (figure_of_isDigit (hds d List.mem_cons_self)).digit
        rw [(List.cons.inj hcs).1] at hd
        exact absurd hd (by decide)
    · rfl

theorem mem_afterDigits {found : List (List Char)} {r : List Char} (htail : Undigited tail)
    (h : r ∈ Numeral.afterDigits (ds ++ tail) found) : r ∈ found ∨ ∃ ds', ds' <:+ ds ∧ r = ds' ++ tail := by
  induction ds generalizing found with
  | nil =>
    refine .inl ?_
    cases tail with
    | nil => exact h
    | cons c tail => simpa [Numeral.afterDigits, htail c rfl] using h
  | cons d ds ih =>
    rw [List.cons_append, Numeral.afterDigits] at h
    split at h
    · rcases ih h with h | ⟨ds', hds', rfl⟩
      · rcases List.mem_cons.1 h with rfl | h
        · exact .inr ⟨ds, List.suffix_cons d ds, rfl⟩
        · exact .inl h
      · exact .inr ⟨ds', hds'.trans (List.suffix_cons d ds), rfl⟩
    · exact .inl h

/-- The longest run of digits comes first. -/
theorem afterDigits_head (hds : Digits ds) (hne : ds ≠ []) (htail : Undigited tail) (found : List (List Char)) :
    ∃ more, Numeral.afterDigits (ds ++ tail) found = tail :: more := by
  induction ds generalizing found with
  | nil => exact absurd rfl hne
  | cons d ds ih =>
    rw [List.cons_append, Numeral.afterDigits, if_pos (figure_of_isDigit (hds d List.mem_cons_self)).digit]
    cases ds with
    | nil =>
      refine ⟨found, ?_⟩
      cases tail with
      | nil => rfl
      | cons c tail => simp [Numeral.afterDigits, htail c rfl]
    | cons e ds => exact ih (fun c hc => hds c (List.mem_cons_of_mem _ hc)) (by simp) _

/-! ## Numerals -/

theorem afterWhole_eq (hds : Digits ds) (htail : Ungrouped tail) :
    Numeral.afterWhole (ds ++ tail) = Numeral.afterDigits (ds ++ tail) [] := by
  have hgroups : ([3, 2, 1].filterMap (Numeral.dropDigits? · (ds ++ tail))).flatMap
      (fun r => Numeral.afterGroups r.length r) = [] := by
    refine List.flatMap_eq_nil_iff.2 fun r hr => ?_
    obtain ⟨n, -, hn⟩ := List.mem_filterMap.1 hr
    obtain ⟨ds', hds', rfl⟩ := dropDigits?_some rfl htail.first hn
    exact afterGroups_eq_nil (fun c hc => hds c (hds'.mem hc)) htail _
  rw [Numeral.afterWhole, hgroups, List.nil_append]

/-- What follows the whole part of a numeral. -/
def fractionChars (fs : List Char) : List Char := if fs.isEmpty then [] else '.' :: fs

/-- The characters of a numeral. -/
def numeralChars (negative : Bool) (ds fs : List Char) : List Char :=
  Decimal.signChars negative ++ (ds ++ fractionChars fs)

/-- A digit is no sign. -/
theorem dropSign_numeralChars (negative : Bool) {d : Char} (hd : d.isDigit = true) (ds fs tail : List Char) :
    Numeral.dropSign (numeralChars negative (d :: ds) fs ++ tail) = d :: ds ++ (fractionChars fs ++ tail) := by
  have hplus : d ≠ '+' := by rintro rfl; exact absurd hd (by decide)
  have hminus : d ≠ '-' := by rintro rfl; exact absurd hd (by decide)
  cases negative <;> simp [numeralChars, Decimal.signChars, Numeral.dropSign, hplus, hminus]

/-- A fraction is no group of digits. -/
theorem Ungrouped.fraction (hrest : Ungrouped rest) (fs : List Char) : Ungrouped (fractionChars fs ++ rest) := by
  cases fs with
  | nil => exact hrest
  | cons f fs =>
    refine ⟨fun c hc => ?_, fun cs' hcs' => ?_⟩
    · rw [← Option.some.inj (show some '.' = some c from hc)]
      decide
    · exact absurd (List.cons.inj hcs').1 (by decide)

/-- The whole fraction comes first. -/
theorem afterFraction_head (hfs : Digits fs) (hrest : Undigited rest) (hdot : rest.head? ≠ some '.') :
    ∃ more, Numeral.afterFraction (fractionChars fs ++ rest) = rest :: more := by
  cases fs with
  | nil =>
    refine ⟨[], ?_⟩
    unfold Numeral.afterFraction
    split
    · next h =>
      rw [show rest = _ from h] at hdot
      exact absurd rfl hdot
    · rfl
  | cons f fs => exact afterDigits_head hfs (by simp) hrest _

/-- The longest way to read a numeral comes first. -/
theorem afterNumeral_head (negative : Bool) (hds : Digits ds) (hne : ds ≠ []) (hfs : Digits fs) (hrest : Ungrouped rest)
    (hdot : rest.head? ≠ some '.') :
    ∃ more, Numeral.afterNumeral (numeralChars negative ds fs ++ rest) = rest :: more := by
  have hungrouped := hrest.fraction fs
  obtain ⟨more, hmore⟩ := afterDigits_head hds hne hungrouped.first []
  obtain ⟨more', hmore'⟩ := afterFraction_head hfs hrest.first hdot
  obtain ⟨d, ds', rfl⟩ := List.exists_cons_of_ne_nil hne
  unfold Numeral.afterNumeral
  rw [dropSign_numeralChars _ (hds d List.mem_cons_self)]
  dsimp only
  rw [afterWhole_eq hds hungrouped, hmore, List.flatMap_cons, hmore']
  exact ⟨_, rfl⟩


/-! ## Marks -/

/-- What can come after a number: nothing, a closing parenthesis, a comma and a blank, or a blank and
something that begins no mark. -/
inductive Closes : List Char → Prop
  | nil : Closes []
  | paren (cs : List Char) : Closes (')' :: cs)
  | comma (cs : List Char) : Closes (',' :: ' ' :: cs)
  | blank {c : Char} (cs : List Char) : isBlank c = false → c ≠ '%' → foldLetter c ∉ markInitials →
    Closes (' ' :: c :: cs)

theorem Closes.stops (h : Closes rest) : Stops rest := by
  cases h with
  | nil => exact stops_nil
  | paren | comma | blank => exact stops_cons (by decide)

theorem Closes.ungrouped (h : Closes rest) : Ungrouped rest := by
  refine ⟨fun c hc => isDigit_of_mem_stops (h.stops c hc), fun cs hcs => ?_⟩
  cases h with
  | nil => exact absurd hcs (by simp)
  | paren => exact absurd (List.cons.inj hcs).1 (by decide)
  | comma cs' =>
    rw [← (List.cons.inj hcs).2]
    exact fun c hc => Option.some.inj hc ▸ by decide
  | blank => exact absurd (List.cons.inj hcs).1 (by decide)

theorem Closes.head?_ne (h : Closes rest) : rest.head? ≠ some '.' := by
  cases h <;> simp

/-- What comes after a number is no mark. -/
theorem Closes.afterSuffix_eq (h : Closes rest) : Numeral.afterSuffix rest = [(none, rest)] := by
  cases h with
  | nil => rfl
  | paren | comma => exact Scan.afterSuffix_eq (by decide) (by decide) (by decide)
  | @blank c cs hb hp hc =>
    have hspace : foldLetter ' ' ∉ markInitials := by decide
    have hdrop : (' ' :: c :: cs).dropWhile isBlank = c :: cs := by
      rw [List.dropWhile_cons_of_pos (by decide), List.dropWhile_cons_of_neg (by simp [hb])]
    have hpercent : Numeral.afterPercent (' ' :: c :: cs) = [] := by
      unfold Numeral.afterPercent
      rw [hdrop]
      dsimp only
      rw [filterMap_readSuffix? hc (by decide +kernel)]
      split
      · next h => exact absurd (List.cons.inj h).1 hp
      · rfl
    have hmagnitude : Numeral.afterMagnitude (' ' :: c :: cs) = [] := by
      have hblank : Numeral.afterBlank (' ' :: c :: cs) = [c :: cs, ' ' :: c :: cs] := rfl
      rw [Numeral.afterMagnitude, hblank, List.flatMap_cons, List.flatMap_singleton,
        filterMap_readSuffix? hc (by decide +kernel), filterMap_readSuffix? hspace (by decide +kernel)]
      rfl
    rw [Numeral.afterSuffix, hpercent, hmagnitude]
    rfl

/-- A letter that is a mark comes before no mark. -/
theorem afterSuffix_letter (hletter : Numeral.suffixLetters.contains (foldLetter c) = true) (hc : c.isAlpha = true)
    (hends : Numeral.nameEnds rest = true) :
    ∃ more, Numeral.afterSuffix (c :: rest) = (some (.letter c), rest) :: more := by
  have hinitial := initial_of_isAlphanum (c := c) (by simp [Char.isAlphanum, hc])
  have hp : foldLetter c ∉ ['p'] := fun h => by
    rw [List.mem_singleton.1 h] at hletter
    exact absurd hletter (by decide)
  have hpercent : Numeral.afterPercent (c :: rest) = [] := by
    unfold Numeral.afterPercent
    rw [List.dropWhile_cons_of_neg (by simp [hinitial.blank])]
    dsimp only
    have hnone : ["percent", "pct"].filterMap (Numeral.readSuffix? (c :: rest)) = [] := by
      refine List.filterMap_eq_nil_iff.2 fun w hw => ?_
      have hfirst : ∀ w ∈ ["percent", "pct"], w.toList.head?.any ['p'].contains = true := by decide
      rw [Numeral.readSuffix?, readWord?_of_initial hp (hfirst w hw)]
    rw [hnone]
    split
    · next h =>
      rw [(List.cons.inj h).1] at hc
      exact absurd hc (by decide)
    · rfl
  rw [Numeral.afterSuffix, hpercent, Numeral.afterLetter, hletter, hends]
  exact ⟨_, rfl⟩

/-- The mark of a crore has two letters. -/
theorem afterSuffix_crore (h : Stops rest) :
    ∃ more, Numeral.afterSuffix ("Cr".toList ++ rest) = (some (.word "Cr".toList), rest) :: more := by
  have hnone : ∀ w : String, w.toList.all (!stops.contains ·) = true → readWord? w.toList "Cr".toList = none →
      Numeral.readSuffix? ("Cr".toList ++ rest) w = none := fun w hw hr => by
    rw [Numeral.readSuffix?, readWord?_append_none hw hr h]
  have hcrore : Numeral.readSuffix? ("Cr".toList ++ rest) "cr" = some ("Cr".toList, rest) := by
    have hread : readWord? "cr".toList "Cr".toList = some [] := by decide
    rw [Numeral.readSuffix?, readWord?_append hread, List.nil_append]
    dsimp only
    rw [wordEnds_of_stops h, if_pos rfl]
    rfl
  have hpercent : Numeral.afterPercent ("Cr".toList ++ rest) = [] := by
    have hwords : ["percent", "pct"].filterMap (Numeral.readSuffix? ("Cr".toList ++ rest)) = [] := by
      refine List.filterMap_eq_nil_iff.2 fun w hw => hnone w ?_ ?_ <;> (revert w; decide)
    unfold Numeral.afterPercent
    rw [show ("Cr".toList ++ rest).dropWhile isBlank = "Cr".toList ++ rest from
      List.dropWhile_cons_of_neg (by decide)]
    dsimp only
    rw [hwords]
    rfl
  have hwords : ∃ more, (Magnitude.words.map (·.1)).filterMap (Numeral.readSuffix? ("Cr".toList ++ rest)) =
      ("Cr".toList, rest) :: more := by
    have hsplit : Magnitude.words.map (·.1) = (Magnitude.words.map (·.1)).take 12 ++ "cr" :: ["bn", "tn"] := by decide
    have hfirst : ((Magnitude.words.map (·.1)).take 12).filterMap (Numeral.readSuffix? ("Cr".toList ++ rest)) = [] := by
      refine List.filterMap_eq_nil_iff.2 fun w hw => hnone w ?_ ?_ <;> (revert w; decide)
    rw [hsplit, List.filterMap_append, hfirst, List.nil_append, List.filterMap_cons, hcrore]
    exact ⟨_, rfl⟩
  obtain ⟨more, hmore⟩ := hwords
  have hmagnitude : Numeral.afterMagnitude ("Cr".toList ++ rest) =
      (("Cr".toList, rest) :: more).map fun p => (.word p.1, p.2) := by
    have hblank : Numeral.afterBlank ("Cr".toList ++ rest) = ["Cr".toList ++ rest] := rfl
    rw [Numeral.afterMagnitude, hblank, List.flatMap_singleton, hmore]
  have hletter : Numeral.afterLetter ("Cr".toList ++ rest) = [] := rfl
  rw [Numeral.afterSuffix, hpercent, hletter, hmagnitude]
  exact ⟨_, rfl⟩

/-- The characters of a mark, if there is one. -/
def markChars (u : Option UnitMark) : List Char := ((u.map UnitMark.spelling).getD "").toList

/-- **A mark is found again** as it was written. -/
theorem afterSuffix_mark {u : Option UnitMark} (hu : ∀ s, u ≠ some (.other s)) (h : Closes rest) :
    ∃ s more, s.map Numeral.Suffix.mark? = u.map some ∧
      Numeral.afterSuffix (markChars u ++ rest) = (s, rest) :: more := by
  have hends := nameEnds_of_stops h.stops
  have hletter : ∀ c : Char, Numeral.suffixLetters.contains (foldLetter c) = true → c.isAlpha = true →
      ∀ m, (Numeral.Suffix.letter c).mark? = some m → ∃ s more, s.map Numeral.Suffix.mark? = some (some m) ∧
        Numeral.afterSuffix (c :: rest) = (s, rest) :: more := fun c hc ha m hm => by
    obtain ⟨more, hmore⟩ := afterSuffix_letter hc ha hends
    exact ⟨some (.letter c), more, congrArg some hm, hmore⟩
  cases u with
  | none => exact ⟨none, [], rfl, h.afterSuffix_eq⟩
  | some u =>
    cases u with
    | percent =>
      have hpercent : ∃ more, Numeral.afterSuffix ('%' :: rest) = (some .percent, rest) :: more := by
        rw [Numeral.afterSuffix, Numeral.afterPercent, List.dropWhile_cons_of_neg (by decide)]
        exact ⟨_, rfl⟩
      obtain ⟨more, hmore⟩ := hpercent
      exact ⟨some .percent, more, rfl, hmore⟩
    | times => exact hletter 'x' (by decide) (by decide) _ (by decide)
    | magnitude m =>
      cases m with
      | thousand => exact hletter 'K' (by decide) (by decide) _ (by decide)
      | lakh => exact hletter 'L' (by decide) (by decide) _ (by decide)
      | million => exact hletter 'M' (by decide) (by decide) _ (by decide)
      | crore =>
        obtain ⟨more, hmore⟩ := afterSuffix_crore h.stops
        exact ⟨some (.word "Cr".toList), more, by decide, hmore⟩
      | billion => exact hletter 'B' (by decide) (by decide) _ (by decide)
      | trillion => exact hletter 'T' (by decide) (by decide) _ (by decide)
    | other s => exact absurd rfl (hu s)

/-! ## Numbers -/

variable {negative : Bool}

/-- A numeral begins with its sign or a digit. -/
theorem numeralChars_cons (negative : Bool) (fs : List Char) (hds : Digits ds) (hne : ds ≠ []) :
    ∃ c cs, numeralChars negative ds fs = c :: cs ∧ (c = '-' ∨ Figure c) := by
  obtain ⟨d, ds', rfl⟩ := List.exists_cons_of_ne_nil hne
  have hd := figure_of_isDigit (hds d List.mem_cons_self)
  cases negative with
  | true => exact ⟨_, _, rfl, .inl rfl⟩
  | false => exact ⟨d, _, rfl, .inr hd⟩

/-- What the front of a numeral is not. -/
theorem numeral_first (h : c = '-' ∨ Figure c) :
    isBlank c = false ∧ c ∉ ['\x22', '“', '\x27', '$', '₹'] ∧ foldLetter c ∉ ['r', 'i'] := by
  rcases h with rfl | h
  · decide
  · have hinitial := initial_of_isAlphanum h.alphanum
    exact ⟨hinitial.blank, fun hc => hinitial.opener (mem_of_all (by decide) hc),
      fun hc => h.letter (List.mem_append_right _ hc)⟩

theorem filter_digits (hds : Digits ds) : ds.filter (· != ',') = ds := List.filter_eq_self.2 fun c hc => by
  rw [bne_iff_ne]
  rintro rfl
  exact absurd (hds _ hc) (by decide)

/-- What a fraction is in the value of a numeral. -/
theorem fractionChars_parts (hfs : Digits fs) : (fractionChars fs).filter (· != ',') = fractionChars fs ∧
    (fractionChars fs).takeWhile isDigit = [] ∧ ((fractionChars fs).dropWhile isDigit).drop 1 = fs := by
  have hpoint : ¬ isDigit '.' = true := by decide
  cases fs with
  | nil => exact ⟨rfl, rfl, rfl⟩
  | cons f fs =>
    show ('.' :: f :: fs).filter (· != ',') = '.' :: f :: fs ∧ ('.' :: f :: fs).takeWhile isDigit = [] ∧
      (('.' :: f :: fs).dropWhile isDigit).drop 1 = f :: fs
    rw [List.filter_cons_of_pos (by decide), filter_digits hfs, List.takeWhile_cons_of_neg hpoint,
      List.dropWhile_cons_of_neg hpoint]
    exact ⟨rfl, rfl, rfl⟩

/-- The value of a numeral is that of its digits, the fraction counted. -/
theorem value_numeralChars (hds : Digits ds) (hne : ds ≠ []) (hfs : Digits fs) :
    Numeral.value (numeralChars negative ds fs) = ⟨negative, digitsValue (ds ++ fs), -(fs.length : Int)⟩ := by
  have hdigit : ∀ c ∈ ds, isDigit c = true := fun c hc => (figure_of_isDigit (hds c hc)).digit
  have hfraction := fractionChars_parts hfs
  obtain ⟨d, ds', rfl⟩ := List.exists_cons_of_ne_nil hne
  have hsign : Numeral.dropSign (numeralChars negative (d :: ds') fs) = d :: ds' ++ fractionChars fs := by
    have h := dropSign_numeralChars negative (hds d List.mem_cons_self) ds' fs []
    rwa [List.append_nil, List.append_nil] at h
  have hhead : ((numeralChars negative (d :: ds') fs).head? == some '-') = negative := by
    have hminus : d ≠ '-' := by rintro rfl; exact absurd (hds _ List.mem_cons_self) (by decide)
    cases negative <;> simp [numeralChars, Decimal.signChars, hminus]
  unfold Numeral.value
  dsimp only
  rw [hsign, hhead, List.filter_append, filter_digits hds, hfraction.1, List.takeWhile_append_of_pos hdigit,
    List.dropWhile_append_of_pos hdigit, hfraction.2.1, hfraction.2.2, List.append_nil]

/-- What comes after a numeral belongs to it no more. -/
theorem ungrouped_mark {u : Option UnitMark} (hu : ∀ s, u ≠ some (.other s)) (hrest : Closes rest) :
    Ungrouped (markChars u ++ rest) ∧ (markChars u ++ rest).head? ≠ some '.' := by
  have hmark : u = none ∨ ∃ d m, markChars u = d :: m ∧ isDigit d = false ∧ d ≠ '.' ∧ d ≠ ',' := by
    cases u with
    | none => exact .inl rfl
    | some u =>
      right
      cases u with
      | other s => exact absurd rfl (hu s)
      | magnitude m => cases m <;> exact ⟨_, _, rfl, by decide, by decide, by decide⟩
      | _ => exact ⟨_, _, rfl, by decide, by decide, by decide⟩
  rcases hmark with rfl | ⟨d, m, hm, hd, hdot, hcomma⟩
  · exact ⟨hrest.ungrouped, hrest.head?_ne⟩
  · rw [hm]
    exact ⟨⟨fun c hc => Option.some.inj hc ▸ hd, fun _ h => absurd (List.cons.inj h).1 hcomma⟩,
      fun h => hdot (Option.some.inj h)⟩

/-- A numeral that is read to its end is a number, with its mark. -/
theorem begins_numeral {cs : List Char} (hblank : isBlank c = false) (hquote : c ∉ ['\x22', '“', '\x27', '$', '₹'])
    (hletter : foldLetter c ∉ ['r', 'i']) {u : Option UnitMark} (hu : ∀ s, u ≠ some (.other s)) (hrest : Closes rest)
    (hnumeral : ∃ more, Numeral.afterNumeral (c :: cs ++ (markChars u ++ rest)) = (markChars u ++ rest) :: more) :
    Begins (c :: cs ++ markChars u) rest (some (.number (Numeral.value (c :: cs)) u false)) := by
  obtain ⟨s, more, hs, hsuffix⟩ := afterSuffix_mark hu hrest
  obtain ⟨more', hnumeral⟩ := hnumeral
  have hfind : Numeral.find? (c :: cs ++ markChars u ++ rest) = some ⟨false, c :: cs, s, rest⟩ := by
    have hcurrency : Numeral.afterCurrency (c :: cs ++ markChars u ++ rest) = [] := by
      rw [List.cons_append, List.cons_append]
      exact afterCurrency_eq_nil (fun h => hquote (List.mem_append_right ['\x22', '“', '\x27'] h)) hletter
    rw [Numeral.find?, hcurrency, List.append_assoc]
    simp only [List.map_nil, List.nil_append, List.findSome?_cons]
    rw [hnumeral, List.findSome?_cons, hsuffix]
    simp only [List.find?_cons, nameEnds_of_stops hrest.stops, Option.map_some]
    rw [List.take_left' (by rw [List.length_append, Nat.add_sub_cancel])]
  refine ⟨List.cons_ne_nil _ _, fun before => ?_⟩
  have hnumber : number? (c :: cs ++ markChars u ++ rest) =
      some (.ok ⟨some (.number (Numeral.value (c :: cs)) u false), rest⟩) := by
    rw [number?, hfind, Option.map_some, numberPiece]
    cases s with
    | none =>
      cases u with
      | none => rfl
      | some u => exact absurd hs (by simp)
    | some s =>
      cases u with
      | none => exact absurd hs (by simp)
      | some u =>
        have hs : s.mark? = some u := by simpa using hs
        simp only [hs]
  have hblanks : blanks? (c :: (cs ++ markChars u ++ rest)) = none := by simp [blanks?, hblank]
  have hquoted : quoted? before (c :: (cs ++ markChars u ++ rest)) = none :=
    quoted?_eq_none fun h => hquote (List.mem_append_left ['$', '₹'] h)
  rw [List.cons_append, List.cons_append] at hnumber ⊢
  rw [piece?, hblanks, hquoted, hnumber]
  rfl

/-- **A number is cut off as it was written**: its numeral and its mark. -/
theorem begins_number (negative : Bool) (hds : Digits ds) (hne : ds ≠ []) (hfs : Digits fs) {u : Option UnitMark}
    (hu : ∀ s, u ≠ some (.other s)) (hrest : Closes rest) :
    Begins (numeralChars negative ds fs ++ markChars u) rest
      (some (.number ⟨negative, digitsValue (ds ++ fs), -(fs.length : Int)⟩ u false)) := by
  obtain ⟨c, cs, hcs, hc⟩ := numeralChars_cons negative fs hds hne
  obtain ⟨hblank, hquote, hletter⟩ := numeral_first hc
  obtain ⟨hungrouped, hdot⟩ := ungrouped_mark hu hrest
  have hnumeral := afterNumeral_head negative hds hne hfs hungrouped hdot
  rw [← value_numeralChars hds hne hfs]
  rw [hcs] at hnumeral ⊢
  exact begins_numeral hblank hquote hletter hu hrest hnumeral

/-- A numeral may begin with its point. -/
theorem begins_fraction (hfs : Digits fs) (hne : fs ≠ []) {u : Option UnitMark} (hu : ∀ s, u ≠ some (.other s))
    (hrest : Closes rest) :
    Begins ('.' :: fs ++ markChars u) rest (some (.number ⟨false, digitsValue fs, -(fs.length : Int)⟩ u false)) := by
  have hvalue : Numeral.value ('.' :: fs) = ⟨false, digitsValue fs, -(fs.length : Int)⟩ := by
    have hcomma : ('.' :: fs).filter (· != ',') = '.' :: fs := List.filter_eq_self.2 fun c hc => by
      rw [bne_iff_ne]
      rintro rfl
      rcases List.mem_cons.1 hc with hc | hc
      · exact absurd hc (by decide)
      · exact absurd (hfs _ hc) (by decide)
    have hpoint : ¬ isDigit '.' = true := by decide
    have hsign : Numeral.dropSign ('.' :: fs) = '.' :: fs := rfl
    unfold Numeral.value
    dsimp only
    rw [hsign, hcomma, List.takeWhile_cons_of_neg hpoint, List.dropWhile_cons_of_neg hpoint]
    rfl
  have hnumeral : ∃ more, Numeral.afterNumeral ('.' :: fs ++ (markChars u ++ rest)) = (markChars u ++ rest) :: more :=
    afterDigits_head hfs hne (ungrouped_mark hu hrest).1.first []
  rw [← hvalue]
  exact begins_numeral (by decide) (by decide) (by decide) hu hrest hnumeral

/-! ## Words that begin with digits -/

theorem mem_afterNumeral (hds : Digits ds) (hne : ds ≠ []) (hc : c.isAlpha = true) {r : List Char}
    (h : r ∈ Numeral.afterNumeral (ds ++ c :: tail)) : ∃ ds', Digits ds' ∧ r = ds' ++ c :: tail := by
  have hundigited : Undigited (c :: tail) := fun d hd => Option.some.inj hd ▸ isDigit_of_isAlpha hc
  have hungrouped : Ungrouped (c :: tail) := ⟨hundigited, fun cs hcs => by
    rw [(List.cons.inj hcs).1] at hc
    exact absurd hc (by decide)⟩
  have hfirst : ∀ ds', Digits ds' → (ds' ++ c :: tail).head? ≠ some '.' := by
    intro ds' hds' hdot
    cases ds' with
    | nil =>
      rw [Option.some.inj hdot] at hc
      exact absurd hc (by decide)
    | cons d ds' =>
      have hd := hds' d List.mem_cons_self
      rw [Option.some.inj hdot] at hd
      exact absurd hd (by decide)
  obtain ⟨d, ds', rfl⟩ := List.exists_cons_of_ne_nil hne
  have hsign : Numeral.dropSign (d :: ds' ++ c :: tail) = d :: ds' ++ c :: tail := by
    have h := dropSign_numeralChars false (hds d List.mem_cons_self) ds' [] (c :: tail)
    simpa [numeralChars, Decimal.signChars, fractionChars] using h
  unfold Numeral.afterNumeral at h
  rw [hsign] at h
  dsimp only at h
  rcases List.mem_append.1 h with h | h
  · obtain ⟨s, hs, hr⟩ := List.mem_flatMap.1 h
    rw [afterWhole_eq hds hungrouped] at hs
    rcases mem_afterDigits hundigited hs with hs | ⟨ds'', hds'', rfl⟩
    · exact absurd hs (by simp)
    · have hsuffix : Digits ds'' := fun c hc => hds c (hds''.mem hc)
      unfold Numeral.afterFraction at hr
      split at hr
      · next heq => exact absurd (heq ▸ rfl) (hfirst ds'' hsuffix)
      · exact ⟨ds'', hsuffix, List.mem_singleton.1 hr⟩
  · split at h
    · next heq => exact absurd (heq ▸ rfl) (hfirst (d :: ds') hds)
    · exact absurd h (by simp)

/-- A word of the language that is cut off as it stands: digits, and then a letter that begins no
mark. -/
def isNumbered (w : List Char) : Bool :=
  !(w.takeWhile (·.isDigit)).isEmpty &&
    (w.dropWhile (·.isDigit)).head?.any (fun c => c.isAlpha && !markInitials.contains (foldLetter c)) &&
    w.all isNameTail && isUncompared w

theorem begins_numbered {w : List Char} (hw : isNumbered w = true) (hrest : Stops rest) :
    Begins w rest (some (wordContent w)) := by
  simp only [isNumbered, Bool.and_eq_true] at hw
  obtain ⟨⟨⟨hne, hletter⟩, htail⟩, hphrase⟩ := hw
  have hds : Digits (w.takeWhile (·.isDigit)) := List.all_eq_true.1 List.all_takeWhile
  obtain ⟨c, more, hmore⟩ : ∃ c more, w.dropWhile (·.isDigit) = c :: more := by
    cases hdrop : w.dropWhile (·.isDigit) with
    | nil => rw [hdrop] at hletter; exact absurd hletter (by simp)
    | cons c more => exact ⟨c, more, rfl⟩
  have hsplit : w = w.takeWhile (·.isDigit) ++ c :: more := by rw [← hmore, List.takeWhile_append_dropWhile]
  rw [hmore] at hletter
  generalize w.takeWhile (·.isDigit) = ds at *
  subst hsplit
  have hne : ds ≠ [] := by simpa using hne
  have hletter : c.isAlpha = true ∧ foldLetter c ∉ markInitials := by simpa using hletter
  obtain ⟨d, ds', rfl⟩ := List.exists_cons_of_ne_nil hne
  have hd := figure_of_isDigit (hds d List.mem_cons_self)
  have htail : (ds' ++ c :: more).all isNameTail = true := by
    rw [List.cons_append, List.all_cons, Bool.and_eq_true] at htail
    exact htail.2
  refine begins_of_uncompared (initial_of_isAlphanum hd.alphanum) htail hphrase hrest
    (find?_eq_none (fun r hr => ?_) fun r hr => ?_)
  · obtain ⟨-, hquote, hcurrency⟩ := numeral_first (.inr hd)
    rw [List.cons_append, afterCurrency_eq_nil (fun h => hquote (List.mem_append_right ['\x22', '“', '\x27'] h)) hcurrency] at hr
    exact absurd hr (by simp)
  · have hassoc : d :: (ds' ++ c :: more) ++ rest = d :: ds' ++ c :: (more ++ rest) := by simp
    rw [show d :: ds'.append (c :: more) ++ rest = _ from hassoc] at hr
    obtain ⟨ds'', hds'', rfl⟩ := mem_afterNumeral hds hne hletter.1 hr
    have hname : ∀ x : Char, x.isAlphanum = true → foldLetter x ∉ markInitials →
        isNameChar x = true ∧ isBlank x = false ∧ x ≠ '%' ∧ foldLetter x ∉ markInitials := by
      intro x hx hmark
      have hinitial := initial_of_isAlphanum hx
      refine ⟨hinitial.name, hinitial.blank, ?_, hmark⟩
      rintro rfl
      exact absurd hx (by decide)
    cases ds'' with
    | nil => exact ⟨c, _, rfl, hname c (by simp [Char.isAlphanum, hletter.1]) hletter.2⟩
    | cons x ds'' =>
      have hx := figure_of_isDigit (hds'' x List.mem_cons_self)
      exact ⟨x, _, rfl, hname x hx.alphanum fun h => hx.letter (List.mem_append_left _ h)⟩

end Scan
end EquityScreen
