/-
The ways in which a number may be written, and what each of them is cut into.

A whole number stands plainly or grouped, in front of it a currency mark and a sign, behind it a fraction and a mark of
percent, multiple or magnitude (`WrittenNumber`). Where a number ends as one does in a query, the first way through all
the pieces of the pattern is the whole of it, so it is cut off as one token of that value (`WrittenNumber.begins`).
-/
import EquityScreen.Proofs.Token.Crossing
import EquityScreen.Proofs.Token.Grouped
import EquityScreen.Proofs.Token.Marked

namespace EquityScreen

open Scan

/-! ## Written numbers -/

namespace Numeral

/-- The number that is found behind a currency mark, or where there is none. -/
def foundFrom (currency : Bool) (start : List Char) : Option Found :=
  (afterNumeral start).findSome? fun afterwards =>
    ((afterSuffix afterwards).find? fun p => nameEnds p.2).map fun (suffix, rest) =>
      ⟨currency, start.take (start.length - afterwards.length), suffix, rest⟩

theorem find?_eq (cs : List Char) : find? cs =
    ((afterCurrency cs).map (true, ·) ++ [(false, cs)]).findSome? fun p => foundFrom p.1 p.2 := rfl

end Numeral

/-- A number as it may be written. -/
structure WrittenNumber where
  currency : List Char
  sign : List Char
  grouping : DigitGrouping
  whole : Nat
  fraction : List Char
  mark : List Char
  unit : Option UnitMark
  currency_listed : currency = [] ∨ IsCurrency currency
  sign_listed : sign ∈ numeralSigns
  fraction_digits : Digits fraction
  mark_means : Marks mark unit

namespace WrittenNumber

open Text

/-- The characters of the numeral: sign, digits and fraction. -/
def numeral (n : WrittenNumber) : List Char := n.sign ++ (n.grouping.digits n.whole ++ fractionChars n.fraction)

/-- The characters of the number. -/
def chars (n : WrittenNumber) : List Char := n.currency ++ n.numeral ++ n.mark

/-- The exact value of the number, without its mark. -/
def value (n : WrittenNumber) : Decimal :=
  ⟨n.sign == ['-'], n.whole * 10 ^ n.fraction.length + digitsValue n.fraction, -(n.fraction.length : Int)⟩

/-- What the number says. -/
def content (n : WrittenNumber) : Content := .number n.value n.unit (!n.currency.isEmpty)

variable (n : WrittenNumber) {rest : List Char}

theorem value_numeral : Numeral.value n.numeral = n.value := by
  have hvalue : digitsValue (Nat.toDigits 10 n.whole ++ n.fraction) =
      n.whole * 10 ^ n.fraction.length + digitsValue n.fraction := by
    have happend : appendDigits 0 (Nat.toDigits 10 n.whole ++ n.fraction) =
        appendDigits (appendDigits 0 (Nat.toDigits 10 n.whole)) n.fraction := List.foldl_append
    rw [digitsValue_eq, digitsValue_eq, happend, appendDigits_eq, appendDigits_toDigits]
  rw [numeral, (n.grouping.whole n.whole).value n.sign_listed (n.grouping.filter_digits n.whole)
    (Decimal.digits_toDigits n.whole) n.fraction_digits, hvalue]
  rfl

/-- What the front of a numeral is not. -/
theorem numeral_cons : ∃ c cs, n.numeral = c :: cs ∧ isBlank c = false ∧ c ≠ '.' ∧
    c ∉ ['\x22', '“', '\x27', '$', '₹'] ∧ foldLetter c ∉ ['r', 'i'] := by
  obtain ⟨d, w, hd, hdigit⟩ := (n.grouping.whole n.whole).first
  have hsign := n.sign_listed
  simp only [numeralSigns, List.mem_cons, List.not_mem_nil, or_false] at hsign
  rw [numeral, hd]
  rcases hsign with hsign | hsign | hsign <;> rw [hsign]
  · obtain ⟨hblank, hquote, hletter⟩ := numeral_first (.inr (figure_of_isDigit hdigit))
    exact ⟨d, _, rfl, hblank, by rintro rfl; exact absurd hdigit (by decide), hquote, hletter⟩
  · exact ⟨'+', _, rfl, by decide, by decide, by decide, by decide⟩
  · exact ⟨'-', _, rfl, by decide, by decide, by decide, by decide⟩

/-- The whole number is found. -/
theorem find?_eq (hrest : Ends rest) : ∃ s, s.map Numeral.Suffix.mark? = n.unit.map some ∧
    Numeral.find? (n.chars ++ rest) = some ⟨!n.currency.isEmpty, n.numeral, s, rest⟩ := by
  obtain ⟨s, more, hs, hsuffix⟩ := n.mark_means.afterSuffix_head hrest
  obtain ⟨hungrouped, hdot⟩ := n.mark_means.behind hrest
  obtain ⟨more', hnumeral⟩ := (n.grouping.whole n.whole).afterNumeral_head n.sign_listed n.fraction_digits hungrouped hdot
  obtain ⟨c, cs, hcs, hblank, hpoint, hquote, hletter⟩ := n.numeral_cons
  refine ⟨s, hs, ?_⟩
  have hstart : n.chars ++ rest = n.currency ++ (n.numeral ++ (n.mark ++ rest)) := by
    rw [chars, List.append_assoc, List.append_assoc]
  have hfound : ∀ currency, Numeral.foundFrom currency (n.numeral ++ (n.mark ++ rest)) =
      some ⟨currency, n.numeral, s, rest⟩ := fun currency => by
    rw [Numeral.foundFrom, numeral, hnumeral, List.findSome?_cons, hsuffix, List.find?_cons, hrest.nameEnds]
    dsimp only [Option.map_some]
    rw [List.take_left' (by simp only [List.length_append]; omega)]
  rw [Numeral.find?_eq, hstart]
  rcases n.currency_listed with hnone | hcurrency
  · have hno : Numeral.afterCurrency (n.numeral ++ (n.mark ++ rest)) = [] := by
      rw [hcs, List.cons_append]
      exact afterCurrency_eq_nil (fun h => hquote (List.mem_append_right ['\x22', '“', '\x27'] h)) hletter
    rw [hnone, List.nil_append, hno, List.map_nil, List.nil_append, List.findSome?_cons, hfound]
    rfl
  · obtain ⟨d, ds, hds, -, -⟩ := hcurrency.first
    obtain ⟨others, hothers⟩ := hcurrency.afterCurrency_head hblank hpoint (cs ++ (n.mark ++ rest))
    rw [← List.cons_append, ← hcs] at hothers
    rw [hothers, List.map_cons, List.cons_append, List.findSome?_cons, hfound, hds]
    rfl

/-- What the front of a number is not. -/
theorem chars_cons : ∃ c cs, n.chars = c :: cs ∧ isBlank c = false ∧ c ∉ ['\x22', '“', '\x27'] := by
  rcases n.currency_listed with hnone | hcurrency
  · obtain ⟨c, cs, hcs, hblank, -, hquote, -⟩ := n.numeral_cons
    exact ⟨c, cs ++ n.mark, by rw [chars, hnone, hcs]; rfl, hblank, fun h => hquote (List.mem_append_left ['$', '₹'] h)⟩
  · obtain ⟨c, cs, hcs, hblank, hquote⟩ := hcurrency.first
    exact ⟨c, cs ++ n.numeral ++ n.mark, by rw [chars, hcs]; rfl, hblank, hquote⟩

/-- **A number is cut off as it was written**, whichever way it was. -/
theorem begins (hrest : Ends rest) : Begins n.chars rest (some n.content) := by
  obtain ⟨s, hs, hfind⟩ := n.find?_eq hrest
  obtain ⟨c, cs, hcs, hblank, hquote⟩ := n.chars_cons
  have hnumber : number? (n.chars ++ rest) = some (.ok ⟨some n.content, rest⟩) := by
    rw [number?, hfind, Option.map_some, numberPiece, content, n.value_numeral]
    cases s with
    | none =>
      have hunit : n.unit = none := by simpa using hs.symm
      rw [hunit]
    | some s =>
      obtain ⟨unit, hunit, hmark⟩ := Option.map_eq_some_iff.1 hs.symm
      rw [hunit]
      dsimp only
      rw [← hmark]
  have hblanks : blanks? (n.chars ++ rest) = none := by
    rw [hcs]
    simp [blanks?, hblank]
  have hquoted : ∀ before, quoted? before (n.chars ++ rest) = none := fun before => by
    rw [hcs]
    exact quoted?_eq_none hquote
  refine ⟨by rw [hcs]; exact List.cons_ne_nil _ _, fun before => ?_⟩
  rw [piece?, hblanks, hquoted, hnumber]
  rfl

end WrittenNumber

/-! ## Whole texts -/

open Text

/-- A comparison sign in front of a blank. -/
theorem begins_listedSign {sign : String} {op : Operator} (hsign : (sign, op) ∈ Operator.signs) {b : Char}
    (hb : isBlank b = true) (rest : List Char) : Begins sign.toList (b :: rest) (some (.compare op)) := by
  have hne : '=' ≠ b ∧ '>' ≠ b ∧ '<' ≠ b := by refine ⟨?_, ?_, ?_⟩ <;> (rintro rfl; exact absurd hb (by decide))
  have hfound : sign? (sign.toList ++ b :: rest) = some (.ok ⟨some (.compare op), b :: rest⟩) := by
    simp only [Operator.signs, List.mem_cons, Prod.mk.injEq, List.not_mem_nil, or_false] at hsign
    rcases hsign with ⟨rfl, rfl⟩ | ⟨rfl, rfl⟩ | ⟨rfl, rfl⟩ | ⟨rfl, rfl⟩ | ⟨rfl, rfl⟩ | ⟨rfl, rfl⟩ | ⟨rfl, rfl⟩ | ⟨rfl, rfl⟩ |
      ⟨rfl, rfl⟩ | ⟨rfl, rfl⟩ | ⟨rfl, rfl⟩ | ⟨rfl, rfl⟩ | ⟨rfl, rfl⟩
    all_goals simp [sign?, Operator.signs, hne]
    all_goals rfl
  obtain ⟨c, cs, hcs, hc⟩ : ∃ c cs, sign.toList = c :: cs ∧ c ∈ signInitials := by
    have hhead : ∀ p ∈ Operator.signs, p.1.toList.head?.any signInitials.contains = true := by decide
    have hinitial := hhead _ hsign
    cases hcs : sign.toList with
    | nil => rw [hcs] at hinitial; exact absurd hinitial (by simp)
    | cons c cs => exact ⟨c, cs, rfl, by rw [hcs] at hinitial; simpa using hinitial⟩
  have hopens := List.all_eq_true.1 (show signInitials.all opensNothing = true by decide +kernel) c hc
  rw [hcs] at hfound ⊢
  refine ⟨List.cons_ne_nil _ _, fun before => ?_⟩
  rw [List.cons_append] at hfound ⊢
  rw [piece?_of_opensNothing hopens, hfound]
  rfl

theorem begins_oneBlank {b c : Char} (hb : isBlank b = true) (hc : isBlank c = false) (rest : List Char) :
    Begins [b] (c :: rest) none := by
  refine ⟨List.cons_ne_nil _ _, fun before => ?_⟩
  have hblanks : blanks? (b :: c :: rest) = some (.ok ⟨none, c :: rest⟩) := by
    rw [blanks?, if_pos hb, List.dropWhile_cons_of_neg (by simp [hc])]
  rw [List.singleton_append, piece?, hblanks]
  rfl

/-- **A written number is one number token.** Where cutting comes to a comparison sign, a blank and a number that is
written in any of these ways and ends, it goes on behind the number, past the comparison and a single number of that
value, with its mark and with a currency if one was written. -/
theorem tokenize_writtenNumber {text : String} {ts : List Token} {p : Place} (hp : Scans (start text).2 ts p) {sign : String}
    {op : Operator} (hsign : (sign, op) ∈ Operator.signs) {b : Char} (hb : isBlank b = true) (n : WrittenNumber)
    {rest : List Char} (hrest : Ends rest) (hfollowing : p.following = sign.toList ++ b :: (n.chars ++ rest)) :
    ∃ comparison number q, comparison.said = (.compare op, sign) ∧
      number.said = (.number n.value n.unit (!n.currency.isEmpty), String.ofList n.chars) ∧
      Scans p [comparison, number] q ∧ q.following = rest ∧
      tokenize text = q.tokens.map ((start text).1 ++ ts ++ [comparison, number] ++ ·) := by
  obtain ⟨c, cs, hcs, hblank, -⟩ := n.chars_cons
  have hgap : Begins [b] (n.chars ++ rest) none := by
    rw [hcs]
    exact begins_oneBlank hb hblank _
  have hsigned : Crosses sign.toList ([b] ++ n.chars ++ rest) _ :=
    Crosses.of_begins (begins_listedSign hsign hb (n.chars ++ rest))
  have hcrosses := hsigned.append ((Crosses.of_begins hgap).append (Crosses.of_begins (n.begins hrest)))
  obtain ⟨us, q, hscans, hq, hsaid⟩ := hcrosses p (by rw [hfollowing]; simp)
  obtain ⟨comparison, us, rfl, hcomparison, hsaid⟩ := List.map_eq_cons_iff.1 hsaid
  obtain ⟨number, us, rfl, hnumber, hsaid⟩ := List.map_eq_cons_iff.1 hsaid
  obtain rfl := List.map_eq_nil_iff.1 hsaid
  refine ⟨comparison, number, q, ?_, hnumber, hscans, hq, ?_⟩
  · rw [hcomparison, String.ofList_toList]
  · rw [tokenize_eq, (hp.trans hscans).tokens]
    cases q.tokens <;> simp [Except.map]

/-- A negative amount in rupees, grouped the Indian way, with a fraction and a word of magnitude in capitals. -/
theorem tokenize_writtenNumber_crores :
    ∃ (comparison number : Token) (q : Place), comparison.said = (.compare .ge, ">=") ∧
      number.said = (.number ⟨true, 123456750, -2⟩ (some (.magnitude .crore)) true, "Rs.-12,34,567.50 CRORES") ∧
      q.following = " and B".toList ∧
      tokenize "PE >= Rs.-12,34,567.50 CRORES and B" = q.tokens.map ([⟨.name, "PE", 0⟩, comparison, number] ++ ·) := by
  let n : WrittenNumber := {
    currency := "Rs.".toList, sign := ['-'], grouping := .indian, whole := 1234567, fraction := "50".toList,
    mark := " CRORES".toList, unit := some (.magnitude .crore)
    currency_listed := .inr ⟨"rs.", by decide, by decide⟩
    sign_listed := by decide
    fraction_digits := by decide
    mark_means := .apart (by decide) (show InAnyCase "CRORES".toList "crores" by decide) (by decide) }
  have hname : (start "PE >= Rs.-12,34,567.50 CRORES and B").2.piece? =
      some (.ok ⟨some .name, " >= Rs.-12,34,567.50 CRORES and B".toList⟩) := by rfl
  have hblank : (⟨some 'E', 2, " >= Rs.-12,34,567.50 CRORES and B".toList⟩ : Place).piece? =
      some (.ok ⟨none, ">= Rs.-12,34,567.50 CRORES and B".toList⟩) := by rfl
  have hscans : Scans (start "PE >= Rs.-12,34,567.50 CRORES and B").2 [⟨.name, "PE", 0⟩]
      ⟨some ' ', 3, ">= Rs.-12,34,567.50 CRORES and B".toList⟩ := .token hname (.blank hblank (.done _))
  have hrest : Ends " and B".toList := .word (by decide) (by decide) (by decide) _
  obtain ⟨comparison, number, q, hcomparison, hnumber, -, hq, htokens⟩ :=
    tokenize_writtenNumber hscans (show (">=", .ge) ∈ Operator.signs by decide) (show isBlank ' ' = true by decide) n hrest
      (by decide)
  exact ⟨comparison, number, q, hcomparison, hnumber.trans (by decide), hq, htokens⟩

end EquityScreen
