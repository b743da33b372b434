/-
Decimals written out. What is written is a numeral, its digits and a fraction, and the decimal that the
numeral stands for has the value of the one that was written (`plainChars_numeral`). So it is when zeros
are left out at the end of the fraction or supplied there (`trimmed_numeral`).
-/
import EquityScreen.Proofs.Decimal.Padding
import EquityScreen.Proofs.Token.Numbers
import EquityScreen.Wording.Amount

namespace EquityScreen

namespace Text

/-! ## Rows of digits -/

/-- A row of the digits 0 to 9 writes the number that it is made from. -/
theorem appendDigits_toDigits (n : Nat) : appendDigits 0 (Nat.toDigits 10 n) = n := by
  have hdigit : ∀ c ∈ Nat.toDigits 10 n, c.isDigit = true := fun c hc =>
    Nat.isDigit_of_mem_toDigits (by decide) (by decide) hc
  have hsame : ∀ (cs : List Char) (m : Nat), (∀ c ∈ cs, c.isDigit = true) →
      appendDigits m cs = Nat.ofDigitChars 10 cs m := by
    intro cs
    induction cs with
    | nil => exact fun m _ => rfl
    | cons c cs ih =>
      intro m h
      rw [List.forall_mem_cons] at h
      have hvalue : (digitValue? c).getD 0 = c.toNat - '0'.toNat := by
        have hascii : c.toNat < 128 := by
          have hc := h.1
          simp only [Char.isDigit, Bool.and_eq_true, decide_eq_true_eq] at hc
          exact Nat.lt_of_le_of_lt (UInt32.le_iff_toNat_le.1 hc.2) (by decide)
        rw [digitValue?, if_pos hascii, if_pos h.1]
        rfl
      have hstep : appendDigits m (c :: cs) = appendDigits (10 * m + (digitValue? c).getD 0) cs := rfl
      rw [hstep, hvalue, ih _ h.2, Nat.ofDigitChars_cons]
  rw [hsame _ 0 hdigit, Nat.ofDigitChars_ten_toDigits]

theorem digitsValue_toDigits (n : Nat) : digitsValue (Nat.toDigits 10 n) = n := by
  rw [digitsValue_eq, appendDigits_toDigits]

theorem appendDigits_zeros (k : Nat) : appendDigits 0 (List.replicate k '0') = 0 := by
  induction k with
  | zero => rfl
  | succ k ih => exact ih

theorem digitsValue_zeros_append (k : Nat) (cs : List Char) : digitsValue (List.replicate k '0' ++ cs) = digitsValue cs := by
  simp only [digitsValue_eq, appendDigits, List.foldl_append]
  rw [show List.foldl _ 0 (List.replicate k '0') = 0 from appendDigits_zeros k]

theorem digitsValue_append_zeros (cs : List Char) (k : Nat) :
    digitsValue (cs ++ List.replicate k '0') = digitsValue cs * 10 ^ k := by
  have happend : appendDigits 0 (cs ++ List.replicate k '0') = appendDigits (appendDigits 0 cs) (List.replicate k '0') :=
    List.foldl_append
  rw [digitsValue_eq, digitsValue_eq, happend, appendDigits_eq, appendDigits_zeros, List.length_replicate, Nat.add_zero]

end Text

namespace Decimal

open Scan (Digits numeralChars fractionChars)
open Text (digitsValue)

/-- The decimal that a numeral stands for. -/
def ofNumeral (negative : Bool) (ds fs : List Char) : Decimal :=
  ⟨negative, digitsValue (ds ++ fs), -(fs.length : Int)⟩

/-- Zeros at the end of a fraction do not count. -/
theorem alike_ofNumeral_zeros (negative : Bool) (ds fs : List Char) (k : Nat) :
    Alike (ofNumeral negative ds fs) (ofNumeral negative ds (fs ++ List.replicate k '0')) := by
  have hpadded : ofNumeral negative ds (fs ++ List.replicate k '0') = (ofNumeral negative ds fs).padded k := by
    simp only [ofNumeral, padded, ← List.append_assoc, Text.digitsValue_append_zeros, List.length_append,
      List.length_replicate, mk.injEq, true_and]
    omega
  rw [hpadded]
  exact alike_padded _ k

/-- A numeral of the decimal's value, with no more digits after the point than the decimal has or are
asked for. -/
structure Numeral (places : Nat) (d : Decimal) (ds fs : List Char) : Prop where
  whole : Digits ds
  nonempty : ds ≠ []
  fraction : Digits fs
  length : fs.length ≤ max places (-d.exponent).toNat
  alike : Alike d (ofNumeral d.negative ds fs)

theorem digits_toDigits (n : Nat) : Digits (Nat.toDigits 10 n) := fun _ hc =>
  Nat.isDigit_of_mem_toDigits (by decide) (by decide) hc

theorem digits_zeros (k : Nat) : Digits (List.replicate k '0') := fun c hc => by
  rw [(List.mem_replicate.1 hc).2]
  rfl

/-- A point is set into a row of digits, of which zeros in front make one stand before it. -/
theorem pointed_eq (digits : List Char) {places : Nat} (hp : places ≠ 0) :
    ∃ ds fs, pointed digits places = ds ++ fractionChars fs ∧
      List.replicate (places + 1 - digits.length) '0' ++ digits = ds ++ fs ∧ ds ≠ [] ∧ fs.length = places := by
  unfold pointed
  rw [if_neg hp]
  dsimp only
  generalize hpadded : List.replicate (places + 1 - digits.length) '0' ++ digits = padded
  have hlength : places + 1 ≤ padded.length := by
    rw [← hpadded, List.length_append, List.length_replicate]
    omega
  have hfraction : (padded.drop (padded.length - places)).length = places := by
    rw [List.length_drop]
    omega
  refine ⟨padded.take (padded.length - places), padded.drop (padded.length - places), ?_,
    (List.take_append_drop ..).symm, fun h => ?_, hfraction⟩
  · rw [fractionChars, if_neg]
    rw [List.isEmpty_iff]
    exact fun h => hp (by rw [← hfraction, h]; rfl)
  · have := congrArg List.length h
    rw [List.length_take, List.length_nil] at this
    omega

/-- **A decimal is written out** as a numeral of its value. -/
theorem plainChars_numeral (d : Decimal) :
    ∃ ds fs, Numeral 0 d ds fs ∧ d.plainChars = numeralChars d.negative ds fs := by
  have hne : Nat.toDigits 10 d.coefficient ≠ [] := Nat.toDigits_ne_nil
  have hdigits := digits_toDigits d.coefficient
  unfold plainChars
  dsimp only
  split
  · next hneg =>
    obtain ⟨ds, fs, heq, hsplit, hds, hfs⟩ :=
      pointed_eq (Nat.toDigits 10 d.coefficient) (show (-d.exponent).toNat ≠ 0 by omega)
    have hall : Digits (ds ++ fs) := by
      rw [← hsplit]
      exact fun c hc => (List.mem_append.1 hc).elim (digits_zeros _ c) (hdigits c)
    refine ⟨ds, fs, ⟨fun c hc => hall c (List.mem_append_left _ hc), hds, fun c hc => hall c (List.mem_append_right _ hc),
      by omega, 0, 0, ?_⟩, by rw [heq]; rfl⟩
    simp only [padded_zero, ofNumeral, ← hsplit, Text.digitsValue_zeros_append, Text.digitsValue_toDigits, hfs]
    rw [show -(((-d.exponent).toNat : Nat) : Int) = d.exponent by omega]
  · split
    · next hzero =>
      refine ⟨_, [], ⟨hdigits, hne, Scan.digits_nil, Nat.zero_le _, alike_of_zero rfl hzero ?_⟩,
        by simp [numeralChars, fractionChars]⟩
      rw [ofNumeral, List.append_nil, Text.digitsValue_toDigits, hzero]
    · next hneg hzero =>
      refine ⟨Nat.toDigits 10 d.coefficient ++ List.replicate d.exponent.toNat '0', [], ⟨?_,
        List.append_ne_nil_of_left_ne_nil hne _, Scan.digits_nil, Nat.zero_le _, d.exponent.toNat, 0, ?_⟩,
        by simp [numeralChars, fractionChars]⟩
      · exact fun c hc => (List.mem_append.1 hc).elim (hdigits c) (digits_zeros _ c)
      · simp only [ofNumeral, List.append_nil, Text.digitsValue_append_zeros, Text.digitsValue_toDigits,
          padded, mk.injEq, true_and, List.length_nil]
        omega

/-! ## Trimming -/

/-- Zeros at the end of a list come back when they are supplied. -/
theorem dropTrailingZeros_append (cs : List Char) : ∃ k, dropTrailingZeros cs ++ List.replicate k '0' = cs := by
  have hzeros : ∀ c ∈ cs.reverse.takeWhile (· == '0'), c = '0' := fun c hc =>
    beq_iff_eq.1 (List.all_eq_true.1 List.all_takeWhile c hc)
  have hreplicate : (cs.reverse.takeWhile (· == '0')).reverse = List.replicate (cs.reverse.takeWhile (· == '0')).length '0' := by
    rw [List.eq_replicate_of_mem hzeros, List.reverse_replicate, List.length_replicate]
  refine ⟨(cs.reverse.takeWhile (· == '0')).length, ?_⟩
  rw [dropTrailingZeros, ← hreplicate, ← List.reverse_append, List.takeWhile_append_dropWhile, List.reverse_reverse]

theorem digits_dropTrailingZeros {cs : List Char} (h : Digits cs) : Digits (dropTrailingZeros cs) := by
  obtain ⟨k, hk⟩ := dropTrailingZeros_append cs
  exact fun c hc => h c (by rw [← hk]; exact List.mem_append_left _ hc)

/-- A numeral is taken apart at its point. -/
theorem splitPoint_numeralChars (negative : Bool) {ds fs : List Char} (hds : Digits ds) :
    splitPoint (numeralChars negative ds fs) = (signChars negative ++ ds, dropTrailingZeros fs) := by
  have hpoint : ∀ c ∈ signChars negative ++ ds, (c != '.') = true := by
    intro c hc
    rw [bne_iff_ne]
    rintro rfl
    rcases List.mem_append.1 hc with hc | hc
    · cases negative <;> simp [signChars] at hc
    · exact absurd (hds _ hc) (by decide)
  unfold splitPoint numeralChars fractionChars
  rw [← List.append_assoc, List.takeWhile_append_of_pos hpoint, List.dropWhile_append_of_pos hpoint]
  cases fs <;> simp

/-- A numeral is trimmed in its fraction, and keeps its value. -/
theorem trimmedChars_numeralChars (places : Nat) (negative : Bool) {ds fs : List Char} (hds : Digits ds) (hfs : Digits fs) :
    ∃ fs', Digits fs' ∧ trimmedChars places (numeralChars negative ds fs) = numeralChars negative ds fs' ∧
      fs'.length ≤ max places fs.length ∧ Alike (ofNumeral negative ds fs) (ofNumeral negative ds fs') := by
  obtain ⟨k, hk⟩ := dropTrailingZeros_append fs
  refine ⟨dropTrailingZeros fs ++ List.replicate (places - (dropTrailingZeros fs).length) '0', fun c hc => ?_, ?_, ?_, ?_⟩
  · exact (List.mem_append.1 hc).elim (digits_dropTrailingZeros hfs c) (digits_zeros _ c)
  · unfold trimmedChars
    rw [splitPoint_numeralChars negative hds]
    dsimp only
    unfold numeralChars fractionChars
    split <;> simp
  · have hlength := congrArg List.length hk
    simp only [List.length_append, List.length_replicate] at hlength ⊢
    omega
  · have hwhole := alike_ofNumeral_zeros negative ds (dropTrailingZeros fs) k
    rw [hk] at hwhole
    exact hwhole.symm.trans (alike_ofNumeral_zeros negative ds _ _)

/-- **A trimmed decimal** is a numeral of its value. -/
theorem trimmed_numeral (places : Nat) (d : Decimal) :
    ∃ ds fs, Numeral places d ds fs ∧ d.trimmed places = String.ofList (numeralChars d.negative ds fs) := by
  obtain ⟨ds, fs, h, hchars⟩ := plainChars_numeral d
  obtain ⟨fs', hfs', htrimmed, hlength, halike⟩ := trimmedChars_numeralChars places d.negative h.whole h.fraction
  refine ⟨ds, fs', ⟨h.whole, h.nonempty, hfs', ?_, h.alike.trans halike⟩, by rw [trimmed, hchars, htrimmed]⟩
  have := h.length
  omega

end Decimal
end EquityScreen
