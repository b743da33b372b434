/-
Lower case character by character.

Small letters, digits and signs of the first 128 code points are left alone wherever they stand
(`lowerFrom_small_append`). Of all other characters only the capital sigma looks at its neighbours,
and it always leaves a sigma behind, so lower case of a text without one goes character by character
(`lowerFrom_eq_flatMap`).
-/
import EquityScreen.Catalog

namespace EquityScreen.Text

/-- A character of the first 128 code points that is no capital. -/
def isSmall (c : Char) : Bool := decide (c.toNat < 128) && !(decide ('A' ≤ c) && decide (c ≤ 'Z'))

variable {c : Char} {before after xs ys : List Char}

theorem lowerChar_small (h : isSmall c = true) : lowerChar before c after = [c] := by
  unfold isSmall at h
  rw [Bool.and_eq_true, decide_eq_true_eq, Bool.not_eq_true'] at h
  simp only [lowerChar, if_pos h.1, h.2, Bool.false_eq_true, if_false]

theorem lowerFrom_small_append (h : ∀ c ∈ xs, isSmall c = true) :
    lowerFrom before (xs ++ ys) = xs ++ lowerFrom (xs.reverse ++ before) ys := by
  induction xs generalizing before with
  | nil => rfl
  | cons x xs ih =>
    rw [List.forall_mem_cons] at h
    rw [List.cons_append, lowerFrom, lowerChar_small h.1, ih h.2, List.reverse_cons, List.append_assoc]
    rfl

theorem lowerFrom_append (before xs ys : List Char) :
    ∃ zs, lowerFrom before (xs ++ ys) = zs ++ lowerFrom (xs.reverse ++ before) ys := by
  induction xs generalizing before with
  | nil => exact ⟨[], rfl⟩
  | cons x xs ih =>
    obtain ⟨zs, hzs⟩ := ih (x :: before)
    refine ⟨lowerChar before x (xs ++ ys) ++ zs, ?_⟩
    rw [List.cons_append, lowerFrom, hzs, List.reverse_cons, List.append_assoc, List.append_assoc]
    rfl

/-- What stands in a row in small letters still does in lower case. -/
theorem infix_lowerFrom (h : ∀ c ∈ xs, isSmall c = true) (hxs : xs <:+: ys) (before : List Char) :
    xs <:+: lowerFrom before ys := by
  obtain ⟨front, rest, rfl⟩ := hxs
  obtain ⟨zs, hzs⟩ := lowerFrom_append before front (xs ++ rest)
  rw [List.append_assoc, hzs, lowerFrom_small_append h, ← List.append_assoc]
  exact ⟨zs, _, rfl⟩

/-! ## Sigma -/

/-- The small sigmas. -/
def isSigma (c : Char) : Bool := c == '\u03c2' || c == '\u03c3'

theorem lowerChar_sigma (before after : List Char) : ∃ c, lowerChar before '\u03a3' after = [c] ∧ isSigma c = true := by
  by_cases h : casedNext before && !casedNext after
  · exact ⟨'\u03c2', by simp [lowerChar, h], by decide⟩
  · exact ⟨'\u03c3', by simp [lowerChar, h], by decide⟩

theorem lowerChar_isSigma (h : isSigma c = true) : lowerChar before c after = [c] := by
  simp only [isSigma, Bool.or_eq_true, beq_iff_eq] at h
  rcases h with rfl | rfl
  · show lowerChar [] _ [] = _
    decide +kernel
  · show lowerChar [] _ [] = _
    decide +kernel

/-- Lower case of a character on its own. -/
def lowerAlone (c : Char) : List Char := lowerChar [] c []

theorem lowerChar_eq (h : c ≠ '\u03a3') : lowerChar before c after = lowerAlone c := by
  simp only [lowerAlone, lowerChar, beq_eq_false_iff_ne.2 h, Bool.false_eq_true, if_false]

theorem lowerFrom_eq_flatMap (h : '\u03a3' ∉ xs) : lowerFrom before xs = xs.flatMap lowerAlone := by
  induction xs generalizing before with
  | nil => rfl
  | cons x xs ih =>
    rw [List.mem_cons, not_or] at h
    rw [lowerFrom, lowerChar_eq (Ne.symm h.1), ih h.2, List.flatMap_cons]

/-- Lower case goes character by character up to a sigma. -/
theorem lowerFrom_append_of_not_mem (h : '\u03a3' ∉ xs) (before ys : List Char) :
    lowerFrom before (xs ++ ys) = xs.flatMap lowerAlone ++ lowerFrom (xs.reverse ++ before) ys := by
  induction xs generalizing before with
  | nil => rfl
  | cons x xs ih =>
    rw [List.mem_cons, not_or] at h
    rw [List.cons_append, lowerFrom, lowerChar_eq (Ne.symm h.1), ih h.2, List.flatMap_cons, List.reverse_cons]
    simp

/-- A sigma of either case leaves a small one. -/
theorem exists_isSigma_lowerFrom (h : ∃ c ∈ xs, c = '\u03a3' ∨ isSigma c = true) (before : List Char) :
    ∃ c ∈ lowerFrom before xs, isSigma c = true := by
  induction xs generalizing before with
  | nil => simp at h
  | cons x xs ih =>
    obtain ⟨c, hc, hsigma⟩ := h
    rw [lowerFrom]
    rcases List.mem_cons.1 hc with rfl | hc
    · rcases hsigma with rfl | hsigma
      · obtain ⟨c, hlower, hc⟩ := lowerChar_sigma before xs
        exact ⟨c, List.mem_append_left _ (by rw [hlower]; exact List.mem_singleton_self c), hc⟩
      · exact ⟨c, List.mem_append_left _ (by rw [lowerChar_isSigma hsigma]; exact List.mem_singleton_self c), hsigma⟩
    · obtain ⟨d, hd, hdsigma⟩ := ih ⟨c, hc, hsigma⟩ (x :: before)
      exact ⟨d, List.mem_append_right _ hd, hdsigma⟩

/-! ## Blanks -/

/-- A blank is left alone. -/
theorem lowerAlone_blank {c : Char} (h : isBlank c = true) : lowerAlone c = [c] := by
  have htable : ∀ n ∈ [0x85, 0xa0, 0x1680, 0x2028, 0x2029, 0x202f, 0x205f, 0x3000], shiftBy lowerRuns n = n := by
    decide +kernel
  have hspaces : ∀ i < 11, shiftBy lowerRuns (0x2000 + i) = 0x2000 + i := by decide +kernel
  simp only [isBlank, Bool.or_eq_true, Bool.and_eq_true, decide_eq_true_eq, beq_iff_eq] at h
  have hcapital : 'A'.toNat = 65 := rfl
  by_cases hsmall : c.toNat < 128
  · refine lowerChar_small ?_
    simp only [isSmall, decide_eq_true hsmall, Bool.true_and, Bool.not_eq_true', Bool.and_eq_false_iff,
      decide_eq_false_iff_not]
    refine .inl fun hle => ?_
    have hle : 'A'.toNat ≤ c.toNat := hle
    omega
  · have hsigma : c ≠ '\u03a3' := by
      rintro rfl
      exact absurd h (by decide)
    have hdotted : c ≠ '\u0130' := by
      rintro rfl
      exact absurd h (by decide)
    have hshift : shiftBy lowerRuns c.toNat = c.toNat := by
      by_cases hspace : 0x2000 ≤ c.toNat ∧ c.toNat ≤ 0x200a
      · have h := hspaces (c.toNat - 0x2000) (by omega)
        rwa [Nat.add_sub_cancel' hspace.1] at h
      · refine htable _ ?_
        simp only [List.mem_cons, List.not_mem_nil, or_false]
        omega
    rw [lowerAlone, lowerChar, if_neg hsmall, if_neg (by simpa using hsigma), if_neg (by simpa using hdotted),
      hshift, Char.ofNat_toNat]

theorem flatMap_lowerAlone_blanks (h : ∀ c ∈ xs, isBlank c = true) : xs.flatMap lowerAlone = xs := by
  induction xs with
  | nil => rfl
  | cons x xs ih =>
    rw [List.forall_mem_cons] at h
    rw [List.flatMap_cons, lowerAlone_blank h.1, ih h.2, List.singleton_append]

/-! ## Blanks at the ends -/

theorem isBlank_isSigma (h : isSigma c = true) : isBlank c = false := by
  simp only [isSigma, Bool.or_eq_true, beq_iff_eq] at h
  rcases h with rfl | rfl <;> decide

/-- A row with no character to drop in front stays when characters are dropped before it. -/
theorem suffix_dropWhile {p : Char → Bool} (h : xs <:+ ys) (hhead : ∀ c ∈ xs.head?, p c = false) :
    xs <:+ ys.dropWhile p := by
  induction ys with
  | nil => exact h
  | cons y ys ih =>
    rcases List.suffix_cons_iff.1 h with rfl | h'
    · have hkeep : (y :: ys).dropWhile p = y :: ys := List.dropWhile_cons_of_neg (by simp [hhead y rfl])
      exact ⟨[], hkeep.symm⟩
    · rw [List.dropWhile_cons]
      split
      · exact ih h'
      · exact h

theorem infix_dropWhile {p : Char → Bool} (h : xs <:+: ys) (hall : ∀ c ∈ xs, p c = false) :
    xs <:+: ys.dropWhile p := by
  obtain ⟨front, rest, rfl⟩ := h
  cases xs with
  | nil => exact List.nil_infix
  | cons x xs =>
    have hsuffix : x :: xs ++ rest <:+ (front ++ (x :: xs) ++ rest).dropWhile p := by
      refine suffix_dropWhile ⟨front, by rw [List.append_assoc]⟩ fun c hc => ?_
      rw [← Option.some.inj (show some x = some c from hc)]
      exact hall x List.mem_cons_self
    exact (List.prefix_append _ _).isInfix.trans hsuffix.isInfix

/-- What stands in a row without blanks still does when the ends are trimmed. -/
theorem infix_trimChars (h : xs <:+: ys) (hall : ∀ c ∈ xs, isBlank c = false) : xs <:+: trimChars ys := by
  have hreverse : xs.reverse <:+: (ys.dropWhile isBlank).reverse :=
    List.reverse_infix.2 (infix_dropWhile h hall)
  have hdrop := infix_dropWhile (p := isBlank) hreverse fun c hc => hall c (List.mem_reverse.1 hc)
  rw [← List.reverse_infix, List.reverse_reverse] at hdrop
  exact hdrop

/-- A beginning with no blank at either end is not trimmed. -/
theorem prefix_trimChars (hhead : ∀ c ∈ xs.head?, isBlank c = false)
    (hlast : ∀ c ∈ xs.getLast?, isBlank c = false) : xs <+: trimChars (xs ++ ys) := by
  cases xs with
  | nil => exact List.nil_prefix
  | cons x xs =>
    rw [trimChars, List.cons_append, List.dropWhile_cons_of_neg (by simp [hhead x rfl]), ← List.reverse_suffix,
      List.reverse_reverse]
    refine suffix_dropWhile ?_ (by rwa [List.head?_reverse])
    rw [← List.cons_append, List.reverse_append]
    exact List.suffix_append _ _

theorem mem_trimChars (h : c ∈ xs) (hc : isBlank c = false) : c ∈ trimChars xs := by
  obtain ⟨front, rest, rfl⟩ := List.append_of_mem h
  have hinfix : [c] <:+: trimChars (front ++ c :: rest) :=
    infix_trimChars ⟨front, rest, by simp⟩ (by simpa using hc)
  exact hinfix.subset (List.mem_singleton_self c)

end EquityScreen.Text
