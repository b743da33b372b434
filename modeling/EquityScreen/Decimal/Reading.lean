/-
Reading a decimal number from a text of its own: blanks around it and underscores anywhere are
passed over, digits of every script count, and a power of ten may follow. The notation also
writes the infinities and quiet and signalling not-a-number values.
-/
import EquityScreen.Decimal
import EquityScreen.Text.Blank
import EquityScreen.Text.Digit

namespace EquityScreen

/-- What the decimal notation can write. -/
inductive Quantity where
  | finite (value : Decimal)
  | infinite (negative : Bool)
  | nan (negative signalling : Bool) (payload : Nat)
  deriving DecidableEq, Repr

namespace Quantity

open Text

/-- ASCII form of the characters of a numeral: digits of every script become ASCII digits. -/
def asciiDigit (c : Char) : Char :=
  match digitValue? c with
  | some v => Char.ofNat (48 + v)
  | none => c

/-- The optional sign in front, and the rest. -/
def readSign : List Char → Bool × List Char
  | '-' :: cs => (true, cs)
  | '+' :: cs => (false, cs)
  | cs => (false, cs)

/-- The power of ten at the end of a numeral: nothing, or `e` with a whole number. -/
def readPower? : List Char → Option Int
  | [] => some 0
  | c :: cs =>
    if c == 'e' || c == 'E' then
      let (negative, ds) := readSign cs
      if ds.isEmpty || !ds.all Char.isDigit then none
      else some (if negative then -(digitsValue ds : Int) else digitsValue ds)
    else none

/-- The greatest power of ten of a first digit. -/
def greatestLeading : Int := 999999999999999999

/-- The least power of ten of a last digit. -/
def leastExponent : Int := -1999999999999999997

/-- A numeral with digits, an optional point among or beside them, and an optional power. -/
def readDigits? (negative : Bool) (cs : List Char) : Option Decimal :=
  let whole := cs.takeWhile Char.isDigit
  let afterWhole := cs.dropWhile Char.isDigit
  let (fraction, rest) :=
    match afterWhole with
    | '.' :: ds => (ds.takeWhile Char.isDigit, ds.dropWhile Char.isDigit)
    | ds => ([], ds)
  if whole.isEmpty && fraction.isEmpty then none
  else (readPower? rest).map fun power =>
    ⟨negative, digitsValue (whole ++ fraction), power - fraction.length⟩

/-- A numeral with a power of ten that the notation reaches. -/
def readNumeral? (negative : Bool) (cs : List Char) : Option Decimal :=
  (readDigits? negative cs).filter fun d =>
    d.leading ≤ greatestLeading && leastExponent ≤ d.exponent

/-- The text after an optional sign, when it names an infinity or a not-a-number value. -/
def readSpecial? (negative : Bool) (cs : List Char) : Option Quantity :=
  let small := cs.map Char.toLower
  if small == "inf".toList || small == "infinity".toList then some (.infinite negative)
  else
    let (signalling, rest) := if small.head? == some 's' then (true, small.drop 1) else (false, small)
    if rest.take 3 == "nan".toList && (rest.drop 3).all Char.isDigit then
      some (.nan negative signalling (digitsValue (rest.drop 3)))
    else none

/-- Reads a whole text as a decimal number. -/
def read? (s : String) : Option Quantity :=
  let cs := ((trimChars s.toList).filter (· != '_')).map asciiDigit
  let (negative, rest) := readSign cs
  match readNumeral? negative rest with
  | some d => some (.finite d)
  | none => readSpecial? negative rest

/-- The text of a quantity, digits as they were written. -/
def text : Quantity → String
  | .finite d => d.text
  | .infinite negative => if negative then "-Infinity" else "Infinity"
  | .nan negative signalling payload =>
    (if negative then "-" else "") ++ (if signalling then "sNaN" else "NaN") ++
      (if payload = 0 then "" else toString payload)

/-- Why a quantity cannot be calculated with. -/
inductive Fault where
  | signalling
  | tooLarge
  deriving DecidableEq, Repr

/-- A decimal as a result, unless it is too large for one. -/
def ofResult : Option Decimal → Except Fault Quantity
  | some d => .ok (.finite d)
  | none => .error .tooLarge

/-- Times `10 ^ places`. The infinities stay; a signalling value has no result. -/
def shift (places : Int) : Quantity → Except Fault Quantity
  | .finite d => ofResult (d.shift places)
  | .nan _ true _ => .error .signalling
  | q => .ok q

end Quantity

end EquityScreen
