/-
Decimal numbers as people write them: a sign, a whole coefficient and a power of ten. A number
keeps the digits it was written with, so 1.50 and 1.5 are two decimals of one value.

The only arithmetic is moving the decimal point. Its result is rounded to 28 significant digits, a
half going to the even neighbour, and its power of ten is bounded: a result with a first digit
beyond `10 ^ 999999` is refused, and near zero a result keeps no digit below `10 ^ -1000026`.

* `fitted_of_plain`: what has few digits and an ordinary power of ten is its own result.
-/
import EquityScreen.Rounding

namespace EquityScreen

-- A power of a whole number is the built-in one, whatever else is imported.
attribute [instance (20000), default_instance (20000)] instPowNat

/-- `± coefficient · 10 ^ exponent`. -/
structure Decimal where
  negative : Bool
  coefficient : Nat
  exponent : Int
  deriving DecidableEq, Repr

namespace Decimal

/-- The number of digits after the first in a number below `10 ^ 2 ^ level`. -/
def laterDigits : Nat → Nat → Nat
  | 0, _ => 0
  | level + 1, n =>
    let half := 2 ^ level
    if n < 10 ^ half then laterDigits level n else half + laterDigits level (n / 10 ^ half)

/-- The number of decimal digits of `n`; zero has one. -/
def digitCount (n : Nat) : Nat := laterDigits (Nat.log2 (Nat.log2 n + 1) + 1) n + 1

/-- A whole number as a decimal. -/
def ofInt (n : Int) : Decimal := ⟨n < 0, n.natAbs, 0⟩

/-- The power of ten of the first digit. -/
def leading (d : Decimal) : Int := d.exponent + digitCount d.coefficient - 1

/-- The most significant digits that a result keeps. -/
def precision : Nat := 28

/-- The greatest power of ten of the first digit of a result. -/
def greatestPower : Int := 999999

/-- The least power of ten of the last digit of a result. -/
def leastPower : Int := -1000026

/-- The decimal without its last `count` digits, rounded. More digits than there are leave zero,
for what they write is less than half a unit. -/
def withoutDigits (count : Nat) (d : Decimal) : Decimal :=
  if count = 0 then d
  else
    let c := if digitCount d.coefficient < count then 0 else roundDiv d.coefficient (10 ^ count)
    if c = 10 ^ precision then ⟨d.negative, 10 ^ (precision - 1), d.exponent + count + 1⟩
    else ⟨d.negative, c, d.exponent + count⟩

/-- How many digits of a result are given up, for its length or for being below the least power. -/
def excess (d : Decimal) : Nat :=
  max (digitCount d.coefficient - precision) (leastPower - d.exponent).toNat

/-- The decimal as a result of arithmetic, unless it is too large for one. -/
def fitted (d : Decimal) : Option Decimal :=
  if d.coefficient = 0 then
    some { d with exponent := max leastPower (min greatestPower d.exponent) }
  else if greatestPower < d.leading then none
  else
    let r := d.withoutDigits d.excess
    if greatestPower < r.leading then none else some r

theorem fitted_of_plain {d : Decimal} (hd : digitCount d.coefficient ≤ precision)
    (hlow : leastPower ≤ d.exponent) (hpow : d.exponent ≤ greatestPower)
    (hhigh : d.leading ≤ greatestPower) : d.fitted = some d := by
  have he : d.excess = 0 := by unfold excess; omega
  unfold fitted
  split
  · rw [Int.min_eq_right hpow, Int.max_eq_right hlow]
  · simp only [he, withoutDigits, if_true]
    rw [if_neg (by omega), if_neg (by omega)]

/-- The decimal times `10 ^ places`, unless that is too large. -/
def shift (d : Decimal) (places : Int) : Option Decimal :=
  fitted { d with exponent := d.exponent + places }

/-- The value is a whole number. A coefficient with fewer digits than places after the point is
whole only when it is zero. -/
def isWhole (d : Decimal) : Bool :=
  if 0 ≤ d.exponent then true
  else
    let places := (-d.exponent).toNat
    if digitCount d.coefficient ≤ places then d.coefficient == 0
    else d.coefficient % 10 ^ places == 0

/-- The value without its fraction. -/
def truncate (d : Decimal) : Int :=
  let magnitude :=
    if d.coefficient = 0 then 0
    else if 0 ≤ d.exponent then d.coefficient * 10 ^ d.exponent.toNat
    else d.coefficient / 10 ^ (-d.exponent).toNat
  if d.negative then -(magnitude : Int) else magnitude

/-- The magnitude is `10 ^ places` or more. -/
def reaches (d : Decimal) (places : Nat) : Bool :=
  d.coefficient != 0 && (places : Int) ≤ d.leading

/-- The value has at most `places` digits after the point that matter. -/
def fitsPlaces (d : Decimal) (places : Nat) : Bool :=
  isWhole { d with exponent := d.exponent + places }

/-! ## Text -/

/-- Digits with a point before the last `places` of them, zeros supplied in front. -/
def pointed (digits : List Char) (places : Nat) : List Char :=
  if places = 0 then digits
  else
    let padded := List.replicate (places + 1 - digits.length) '0' ++ digits
    padded.take (padded.length - places) ++ '.' :: padded.drop (padded.length - places)

/-- The sign as it is written. -/
def signChars (negative : Bool) : List Char := if negative then ['-'] else []

/-- The characters of `plainText`. -/
def plainChars (d : Decimal) : List Char :=
  let digits := Nat.toDigits 10 d.coefficient
  signChars d.negative ++
    if d.exponent < 0 then pointed digits (-d.exponent).toNat
    else if d.coefficient = 0 then digits
    else digits ++ List.replicate d.exponent.toNat '0'

/-- The number written out without a power of ten; every digit after the point is kept. -/
def plainText (d : Decimal) : String := String.ofList (plainChars d)

/-- The number as it was written, with a power of ten when the point would stand to the right of
the digits or more than six places to their left. -/
def text (d : Decimal) : String :=
  if d.exponent ≤ 0 && -6 ≤ d.leading then d.plainText
  else
    let digits := Nat.toDigits 10 d.coefficient
    let mantissa := pointed digits (digits.length - 1)
    let power := d.leading
    String.ofList (signChars d.negative ++ mantissa ++
      'E' :: (if power < 0 then '-' else '+') :: Nat.toDigits 10 power.natAbs)

end Decimal

end EquityScreen
