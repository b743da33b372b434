/-
Doubles written with a given number of digits: so many after the point, or so many in all. The
digits are those of the exact value, rounded at the last one, a half going to the even digit.

A bare point, one with no digit after it, is written only where it is asked for.
-/
import EquityScreen.Double.Shortest

namespace EquityScreen
namespace Double

/-- The point after the last digit, where one is asked for. -/
def barePoint (asked : Bool) : List Char := if asked then ['.'] else []

/-- Digits with zeros in front up to a count. -/
def zeroFilled (count : Nat) (digits : List Char) : List Char :=
  List.replicate (count - digits.length) '0' ++ digits

/-- The value of `steps` steps with so many digits after the point. -/
def fixedChars (point : Bool) (places steps : Nat) : List Char :=
  Decimal.pointed (Nat.toDigits 10 (roundDiv (steps * 10 ^ places) stepsPerOne)) places ++
    barePoint (point && places == 0)

/-- The first `count` digits of a value as a number, and the power of ten of the first one. -/
def leadingDigits (count steps : Nat) : Nat × Int :=
  if steps = 0 then (0, 0)
  else
    let first := firstPlace steps
    let (p, q) := tenPower (first + 1 - count)
    let c := roundDiv (steps * q) (p * stepsPerOne)
    if c = 10 ^ count then (10 ^ (count - 1), first + 1) else (c, first)

/-- One digit, a point, so many digits, and a power of ten. -/
def scientificChars (point : Bool) (places steps : Nat) : List Char :=
  let (c, first) := leadingDigits (places + 1) steps
  Decimal.pointed (zeroFilled (places + 1) (Nat.toDigits 10 c)) places ++
    barePoint (point && places == 0) ++ layout.powerChars first

/-- Digits without the zeros at their end; of zeros alone one is left. -/
def significant (digits : List Char) : List Char :=
  match (digits.reverse.dropWhile (· == '0')).reverse with
  | [] => ['0']
  | ds => ds

/-- At most `count` digits, at least one, with a power of ten when the number is as large as all of
them or less than a ten-thousandth. In full no zero at the end is left out. -/
def generalChars (full : Bool) (count steps : Nat) : List Char :=
  let count := max count 1
  let (c, first) := leadingDigits count steps
  let filled := zeroFilled count (Nat.toDigits 10 c)
  let digits := if full then filled else significant filled
  if first < layout.leastPlain || (count : Int) ≤ first then
    Decimal.pointed digits (digits.length - 1) ++ barePoint (full && digits.length == 1) ++
      layout.powerChars first
  else
    let places : Int := digits.length - 1 - first
    if places ≤ 0 then digits ++ List.replicate (-places).toNat '0' ++ barePoint full
    else Decimal.pointed digits places.toNat

/-- The whole part of a double, which the infinities and not-a-number do not have. -/
def whole? : Double → Option Int
  | .finite negative steps _ _ => some (signedSteps negative (steps / stepsPerOne))
  | _ => none

end Double
end EquityScreen
