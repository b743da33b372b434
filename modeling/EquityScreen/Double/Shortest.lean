/-
The shortest decimal that reads back as a given double: of all decimals with the fewest digits that
round to it, the nearest.

A decimal rounds to a double when it lies between the halfway points to its two neighbours; the
halfway points themselves belong to it when its last binary digit is even. For one digit, two, and
so on up to seventeen, the two multiples of the power of ten around the value are tried.
-/
import EquityScreen.Double

namespace EquityScreen
namespace Double

/-- The halfway points below and above a positive number of steps, in quarter steps, and whether
they still round to it. -/
structure Interval where
  low : Nat
  high : Nat
  closed : Bool
  deriving DecidableEq, Repr

/-- The interval of the double with `steps` steps. The gap below a power of two is half as wide. -/
def Interval.around (steps : Nat) : Interval :=
  let unit := 2 ^ (steps.log2 - 52)
  let m := steps / unit
  let below := if m = 2 ^ 52 && 1 < unit then unit else 2 * unit
  ⟨4 * steps - below, 4 * steps + 2 * unit, m % 2 == 0⟩

/-- A power of ten as a fraction. -/
def tenPower (k : Int) : Nat × Nat :=
  if 0 ≤ k then (10 ^ k.toNat, 1) else (1, 10 ^ (-k).toNat)

/-- The decimal `c · 10 ^ k` lies in the interval. -/
def Interval.holds (i : Interval) (c : Nat) (k : Int) : Bool :=
  let (p, q) := tenPower k
  let x := 4 * c * p * stepsPerOne
  if i.closed then i.low * q ≤ x && x ≤ i.high * q else i.low * q < x && x < i.high * q

/-- The power of ten of the first digit of the value of `steps` steps. -/
def firstPlace (steps : Nat) : Int :=
  (Decimal.digitCount (steps * 10 ^ 324 / stepsPerOne) : Int) - 325

/-- Of two neighbours, `c` and the next number, the one that reads back; if both do, the nearer one,
and of two as near the even one. `value` is compared with the point half way between them. -/
def nearer? (value middle c : Nat) : Bool → Bool → Option Nat
  | true, false => some c
  | false, true => some (c + 1)
  | true, true =>
    some (if value < middle then c else if middle < value then c + 1 else if c % 2 = 0 then c else c + 1)
  | false, false => none

/-- The multiple of `10 ^ k` that reads back, of two the nearer one. -/
def candidate? (steps : Nat) (k : Int) : Option Nat :=
  let (p, q) := tenPower k
  let c := steps * q / (p * stepsPerOne)
  let i := Interval.around steps
  nearer? (2 * (steps * q)) ((2 * c + 1) * (p * stepsPerOne)) c (i.holds c k) (i.holds (c + 1) k)

/-- A number without the zeros at its end, and how many there were. -/
def stripZeros : Nat → Nat → Nat × Nat
  | 0, c => (c, 0)
  | fuel + 1, c =>
    if c % 10 = 0 && c ≠ 0 then let (d, n) := stripZeros fuel (c / 10); (d, n + 1) else (c, 0)

/-- Tries `digits` digits and more, at most `fuel` times, and gives what is found with its number of
digits. -/
def search (found? : Nat → Option Nat) : Nat → Nat → Nat × Nat
  | 0, digits => ((found? digits).getD 0, digits)
  | fuel + 1, digits =>
    match found? digits with
    | some c => (c, digits)
    | none => search found? fuel (digits + 1)

/-- The power of ten of the last of so many digits of a number of steps. -/
def lastPlace (steps digits : Nat) : Int := firstPlace steps + 1 - digits

/-- The shortest decimal of a positive number of steps, with no zero at its end. -/
def shortest (steps : Nat) : Nat × Int :=
  let found := search (fun digits => candidate? steps (lastPlace steps digits)) 16 1
  let stripped := stripZeros 20 found.1
  (stripped.1, lastPlace steps found.2 + stripped.2)

/-- The decimal that a finite double is written as. -/
def toDecimal (negative : Bool) (steps : Nat) : Decimal :=
  if steps = 0 then ⟨negative, 0, 0⟩
  else ⟨negative, (shortest steps).1, (shortest steps).2⟩

/-- How the text of a double is laid out. -/
structure Layout where
  /-- The least power of ten of the first digit that is written without a power. -/
  leastPlain : Int
  /-- The greatest such power. -/
  greatestPlain : Int
  /-- The fewest digits of a written power. -/
  powerDigits : Nat
  deriving DecidableEq, Repr

/-- From `0.0001` up to below `10 ^ 16` a number is written without a power; a power has a sign
and at least two digits. -/
def layout : Layout := ⟨-4, 15, 2⟩

/-- A power of ten as it is written: its sign and its digits. -/
def Layout.powerChars (l : Layout) (power : Int) : List Char :=
  let digits := Nat.toDigits 10 power.natAbs
  'e' :: (if power < 0 then '-' else '+') ::
    (List.replicate (l.powerDigits - digits.length) '0' ++ digits)

/-- A decimal laid out with a point or a power. -/
def Layout.chars (l : Layout) (d : Decimal) : List Char :=
  let digits := Nat.toDigits 10 d.coefficient
  let first := if d.coefficient = 0 then 0 else d.leading
  Decimal.signChars d.negative ++
    if l.leastPlain ≤ first && first ≤ l.greatestPlain then
      if d.exponent < 0 then Decimal.pointed digits (-d.exponent).toNat
      else digits ++ List.replicate d.exponent.toNat '0' ++ ['.', '0']
    else Decimal.pointed digits (digits.length - 1) ++ l.powerChars first

/-- The text of a double: the fewest digits that read back, always with a point or a power. -/
def text : Double → String
  | .nan => "nan"
  | .infinite negative => if negative then "-inf" else "inf"
  | .finite negative steps _ _ => String.ofList (layout.chars (toDecimal negative steps))

end Double
end EquityScreen
