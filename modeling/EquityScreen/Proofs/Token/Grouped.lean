/-
Numerals whose digits are set off by commas.

A whole number stands plainly or with its digits set off, in threes or, before the last three, in twos
(`DigitGrouping`). The pattern of a numeral could take less than is there, a few of the groups or a part of one; the
first way through it takes all of them (`Whole.afterNumeral_head`), and the value is that of the digits without the
commas (`Whole.value`).
-/
import EquityScreen.Proofs.Decimal.Writing
import EquityScreen.Proofs.Token.Numbers

namespace EquityScreen
namespace Scan

open Text

variable {ds gs rest tail w : List Char}

/-! ## Groups of digits -/

theorem dropDigits?_append (hds : Digits ds) (rest : List Char) : Numeral.dropDigits? ds.length (ds ++ rest) = some rest := by
  induction ds with
  | nil => rfl
  | cons d ds ih =>
    obtain ⟨hd, hds⟩ := List.forall_mem_cons.1 hds
    rw [List.length_cons, List.cons_append, Numeral.dropDigits?, if_pos (figure_of_isDigit hd).digit]
    exact ih hds

theorem dropDigits?_beyond {n : Nat} (hds : Digits ds) (hrest : Undigited rest) (h : ds.length < n) :
    Numeral.dropDigits? n (ds ++ rest) = none := by
  induction ds generalizing n with
  | nil =>
    obtain ⟨n, rfl⟩ := Nat.exists_eq_succ_of_ne_zero (Nat.ne_of_gt h)
    exact dropDigits?_eq_none hrest
  | cons d ds ih =>
    obtain ⟨hd, hds⟩ := List.forall_mem_cons.1 hds
    obtain ⟨n, rfl⟩ := Nat.exists_eq_succ_of_ne_zero (Nat.ne_of_gt (Nat.zero_lt_of_lt h))
    rw [List.cons_append, Numeral.dropDigits?, if_pos (figure_of_isDigit hd).digit]
    exact ih hds (Nat.lt_of_succ_lt_succ h)

/-- Groups of two or three digits, a comma in front of each. -/
inductive Groups : List Char → Prop
  | nil : Groups []
  | cons {ds gs : List Char} (hds : Digits ds) (hlength : ds.length = 2 ∨ ds.length = 3) (further : Groups gs) :
    Groups (',' :: (ds ++ gs))

theorem undigited_comma (cs : List Char) : Undigited (',' :: cs) := fun c hc => Option.some.inj hc ▸ by decide

theorem Groups.undigited (h : Groups gs) (htail : Undigited tail) : Undigited (gs ++ tail) := by
  cases h with
  | nil => exact htail
  | cons hds hlength further => exact undigited_comma _

/-- All groups together come first. -/
theorem afterGroups_head (h : Groups gs) (hne : gs ≠ []) (htail : Ungrouped tail) {fuel : Nat} (hfuel : gs.length ≤ fuel) :
    ∃ more, Numeral.afterGroups fuel (gs ++ tail) = tail :: more := by
  induction h generalizing fuel with
  | nil => exact absurd rfl hne
  | @cons ds gs hds hlength further ih =>
    obtain ⟨fuel, rfl⟩ := Nat.exists_eq_succ_of_ne_zero (Nat.ne_of_gt (Nat.lt_of_lt_of_le (Nat.succ_pos _) hfuel))
    have hfuel : gs.length ≤ fuel := by
      simp only [List.length_cons, List.length_append] at hfuel
      omega
    -- What is left after this group: the tail itself if it was the last one.
    have hfurther : ∃ more, Numeral.afterGroups fuel (gs ++ tail) ++ [gs ++ tail] = tail :: more := by
      by_cases hlast : gs = []
      · rw [hlast, List.nil_append]
        exact ⟨[], by rw [show tail = [] ++ tail from rfl, afterGroups_eq_nil digits_nil htail]; rfl⟩
      · obtain ⟨more, hmore⟩ := ih hlast hfuel
        exact ⟨more ++ [gs ++ tail], by rw [hmore, List.cons_append]⟩
    obtain ⟨more, hmore⟩ := hfurther
    have hdrop := dropDigits?_append hds (gs ++ tail)
    rw [List.cons_append, List.append_assoc, Numeral.afterGroups, List.flatMap_cons, List.flatMap_singleton]
    rcases hlength with hlength | hlength
    · rw [dropDigits?_beyond hds (further.undigited htail.first) (by omega), ← hlength, hdrop]
      exact ⟨more, hmore⟩
    · rw [← hlength, hdrop]
      dsimp only
      rw [hmore]
      exact ⟨_, rfl⟩

/-- A whole number as it may be written: its digits plainly, or groups behind one to three of them. -/
inductive Whole : List Char → Prop
  | plain {ds : List Char} (hds : Digits ds) (hne : ds ≠ []) : Whole ds
  | grouped {ds gs : List Char} (hds : Digits ds) (hne : ds ≠ []) (hlength : ds.length ≤ 3) (hgs : Groups gs) :
    Whole (ds ++ gs)

/-- The whole number is the first that may be taken. -/
theorem Whole.after_head (h : Whole w) (htail : Ungrouped tail) : ∃ more, Numeral.afterWhole (w ++ tail) = tail :: more := by
  have hplain : ∀ {ds}, Digits ds → ds ≠ [] → ∃ more, Numeral.afterWhole (ds ++ tail) = tail :: more := fun hds hne => by
    obtain ⟨more, hmore⟩ := afterDigits_head hds hne htail.first []
    exact ⟨more, by rw [afterWhole_eq hds htail, hmore]⟩
  cases h with
  | plain hds hne => exact hplain hds hne
  | @grouped ds gs hds hne hlength hgs =>
    by_cases hnone : gs = []
    · rw [hnone, List.append_nil]
      exact hplain hds hne
    · have hfuel : gs.length ≤ (gs ++ tail).length := by
        rw [List.length_append]
        exact Nat.le_add_right _ _
      obtain ⟨more, hmore⟩ := afterGroups_head hgs hnone htail hfuel
      have hlonger : ∀ n, ds.length < n → Numeral.dropDigits? n (ds ++ (gs ++ tail)) = none := fun n =>
        dropDigits?_beyond hds (hgs.undigited htail.first)
      have hstarts : ∃ starts, [3, 2, 1].filterMap (Numeral.dropDigits? · (ds ++ (gs ++ tail))) = (gs ++ tail) :: starts := by
        have hdrop := dropDigits?_append hds (gs ++ tail)
        have hpos := List.length_pos_iff.2 hne
        rcases (by omega : ds.length = 3 ∨ ds.length = 2 ∨ ds.length = 1) with h | h | h <;> rw [h] at hdrop hlonger
        · simp only [List.filterMap_cons, hdrop]
          exact ⟨_, rfl⟩
        · simp only [List.filterMap_cons, hlonger 3 (by decide), hdrop]
          exact ⟨_, rfl⟩
        · simp only [List.filterMap_cons, hlonger 3 (by decide), hlonger 2 (by decide), hdrop]
          exact ⟨_, rfl⟩
      obtain ⟨starts, hstarts⟩ := hstarts
      rw [List.append_assoc, Numeral.afterWhole, hstarts, List.flatMap_cons, hmore]
      exact ⟨_, rfl⟩

theorem Whole.first (h : Whole w) : ∃ d w', w = d :: w' ∧ d.isDigit = true := by
  have hdigits : ∀ {ds}, Digits ds → ds ≠ [] → ∃ d ds', ds = d :: ds' ∧ d.isDigit = true := fun hds hne => by
    obtain ⟨d, ds', rfl⟩ := List.exists_cons_of_ne_nil hne
    exact ⟨d, ds', rfl, hds d List.mem_cons_self⟩
  cases h with
  | plain hds hne => exact hdigits hds hne
  | grouped hds hne hlength hgs =>
    obtain ⟨d, ds', rfl, hd⟩ := hdigits hds hne
    exact ⟨d, ds' ++ _, rfl, hd⟩

/-! ## Numerals -/

/-- What may stand in front of a numeral. -/
def numeralSigns : List (List Char) := [[], ['+'], ['-']]

/-- A digit is no sign. -/
theorem dropSign_signed {sign : List Char} (hsign : sign ∈ numeralSigns) {d : Char} (hd : d.isDigit = true) (cs : List Char) :
    Numeral.dropSign (sign ++ d :: cs) = d :: cs := by
  have hplus : d ≠ '+' := by rintro rfl; exact absurd hd (by decide)
  have hminus : d ≠ '-' := by rintro rfl; exact absurd hd (by decide)
  simp only [numeralSigns, List.mem_cons, List.not_mem_nil, or_false] at hsign
  rcases hsign with rfl | rfl | rfl
  · simp [Numeral.dropSign, hplus, hminus]
  · rfl
  · rfl

variable {fs sign : List Char}

/-- **The whole numeral** is the first that may be taken. -/
theorem Whole.afterNumeral_head (h : Whole w) (hsign : sign ∈ numeralSigns) (hfs : Digits fs) (hrest : Ungrouped rest)
    (hdot : rest.head? ≠ some '.') :
    ∃ more, Numeral.afterNumeral (sign ++ (w ++ fractionChars fs) ++ rest) = rest :: more := by
  obtain ⟨more, hmore⟩ := h.after_head (hrest.fraction fs)
  obtain ⟨more', hmore'⟩ := afterFraction_head hfs hrest.first hdot
  obtain ⟨d, w', rfl, hd⟩ := h.first
  have hdrop : Numeral.dropSign (sign ++ (d :: w' ++ fractionChars fs) ++ rest) = d :: w' ++ (fractionChars fs ++ rest) := by
    rw [List.append_assoc, List.append_assoc, List.cons_append, dropSign_signed hsign hd]
  unfold Numeral.afterNumeral
  rw [hdrop]
  dsimp only
  rw [hmore, List.flatMap_cons, hmore']
  exact ⟨_, rfl⟩

/-- The value of a numeral is that of its digits without the commas, the fraction counted. -/
theorem Whole.value (h : Whole w) (hsign : sign ∈ numeralSigns) (hds : w.filter (· != ',') = ds) (hdigits : Digits ds)
    (hfs : Digits fs) :
    Numeral.value (sign ++ (w ++ fractionChars fs)) = ⟨sign == ['-'], digitsValue (ds ++ fs), -(fs.length : Int)⟩ := by
  have hdigit : ∀ c ∈ ds, isDigit c = true := fun c hc => (figure_of_isDigit (hdigits c hc)).digit
  obtain ⟨hfilter, htake, hdrop⟩ := fractionChars_parts hfs
  obtain ⟨d, w', rfl, hd⟩ := h.first
  have hhead : ((sign ++ (d :: w' ++ fractionChars fs)).head? == some '-') = (sign == ['-']) := by
    have hminus : d ≠ '-' := by rintro rfl; exact absurd hd (by decide)
    simp only [numeralSigns, List.mem_cons, List.not_mem_nil, or_false] at hsign
    rcases hsign with rfl | rfl | rfl
    · simp [hminus]
    · rfl
    · rfl
  unfold Numeral.value
  dsimp only
  rw [hhead, List.cons_append, dropSign_signed hsign hd, ← List.cons_append, List.filter_append, hds, hfilter,
    List.takeWhile_append_of_pos hdigit, List.dropWhile_append_of_pos hdigit, htake, hdrop, List.append_nil]

end Scan

/-! ## Whole numbers -/

/-- Digits with a comma before the last three of them, and before every `size` in front of these. -/
def setOff (size : Nat) : List Char → List Char
  | [] => []
  | d :: ds =>
    d :: (if 3 ≤ ds.length ∧ (ds.length - 3) % size = 0 then ',' :: setOff size ds else setOff size ds)

/-- How the digits of a whole number are set off: not at all, in threes, or, before the last three, in twos. -/
inductive DigitGrouping where
  | plain | western | indian
  deriving DecidableEq, Repr

/-- The digits of a whole number, set off. -/
def DigitGrouping.digits (g : DigitGrouping) (n : Nat) : List Char :=
  match g with
  | .plain => Nat.toDigits 10 n
  | .western => setOff 3 (Nat.toDigits 10 n)
  | .indian => setOff 2 (Nat.toDigits 10 n)

example : DigitGrouping.western.digits 1234567 = "1,234,567".toList := by decide

example : DigitGrouping.indian.digits 1234567 = "12,34,567".toList := by decide

open Scan

/-- Digits that are set off are one to three digits and groups behind them. -/
theorem setOff_groups {size : Nat} (hsize : size = 2 ∨ size = 3) {ds : List Char} (hds : Digits ds) (hne : ds ≠ []) :
    ∃ lead gs, setOff size ds = lead ++ gs ∧ Digits lead ∧ Groups gs ∧
      lead.length = (if ds.length ≤ 3 then ds.length else (ds.length - 4) % size + 1) := by
  induction ds with
  | nil => exact absurd rfl hne
  | cons d ds ih =>
    obtain ⟨hd, hds⟩ := List.forall_mem_cons.1 hds
    have hsingle : Digits [d] := List.forall_mem_singleton.2 hd
    cases ds with
    | nil => exact ⟨[d], [], rfl, hsingle, .nil, rfl⟩
    | cons d' ds =>
      obtain ⟨lead, gs, hlead, hdigits, hgs, hlength⟩ := ih hds (List.cons_ne_nil _ _)
      rw [setOff]
      generalize d' :: ds = ds at *
      by_cases hcomma : 3 ≤ ds.length ∧ (ds.length - 3) % size = 0
      · rw [if_pos hcomma, hlead]
        refine ⟨[d], ',' :: (lead ++ gs), rfl, hsingle, .cons hdigits ?_ hgs, ?_⟩
        · split at hlength <;> rcases hsize with rfl | rfl <;> omega
        · have hlong : ¬ (d :: ds).length ≤ 3 := by rw [List.length_cons]; omega
          have hshorter : (d :: ds).length - 4 = ds.length - 3 := by rw [List.length_cons]; omega
          rw [if_neg hlong, hshorter, hcomma.2]
          rfl
      · rw [if_neg hcomma, hlead]
        refine ⟨d :: lead, gs, rfl, List.forall_mem_cons.2 ⟨hd, hdigits⟩, hgs, ?_⟩
        rw [List.length_cons, hlength, List.length_cons]
        split <;> split <;> rcases hsize with rfl | rfl <;> omega

theorem filter_setOff (size : Nat) {ds : List Char} (hds : Digits ds) : (setOff size ds).filter (· != ',') = ds := by
  induction ds with
  | nil => rfl
  | cons d ds ih =>
    obtain ⟨hd, hds⟩ := List.forall_mem_cons.1 hds
    have hcomma : (d != ',') = true := by
      rw [bne_iff_ne]
      rintro rfl
      exact absurd hd (by decide)
    rw [setOff, List.filter_cons, if_pos hcomma]
    split
    · rw [List.filter_cons, if_neg (by decide), ih hds]
    · rw [ih hds]

namespace DigitGrouping

variable (g : DigitGrouping) (n : Nat)

/-- However its digits are set off, it is a whole number. -/
theorem whole : Whole (g.digits n) := by
  have hsetOff : ∀ {size}, size = 2 ∨ size = 3 → Whole (setOff size (Nat.toDigits 10 n)) := fun hsize => by
    obtain ⟨lead, gs, heq, hlead, hgs, hlength⟩ := setOff_groups hsize (Decimal.digits_toDigits n) Nat.toDigits_ne_nil
    have hpos : 0 < (Nat.toDigits 10 n).length := List.length_pos_iff.2 Nat.toDigits_ne_nil
    rw [heq]
    refine .grouped hlead (List.length_pos_iff.1 ?_) ?_ hgs
    all_goals split at hlength <;> rcases hsize with rfl | rfl <;> omega
  cases g with
  | plain => exact .plain (Decimal.digits_toDigits n) Nat.toDigits_ne_nil
  | western => exact hsetOff (.inr rfl)
  | indian => exact hsetOff (.inl rfl)

/-- Without its commas it is its digits. -/
theorem filter_digits : (g.digits n).filter (· != ',') = Nat.toDigits 10 n := by
  cases g with
  | plain => exact Scan.filter_digits (Decimal.digits_toDigits n)
  | western => exact filter_setOff 3 (Decimal.digits_toDigits n)
  | indian => exact filter_setOff 2 (Decimal.digits_toDigits n)

end DigitGrouping

end EquityScreen
