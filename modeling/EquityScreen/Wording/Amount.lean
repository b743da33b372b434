/-
Values the way a reader would type them: percents with their sign, multiples with two places, large
amounts abbreviated, texts between quotes.

An amount is abbreviated by the largest magnitude that it reaches and that leaves at most two
places after the point; where none does, it is written out.
-/
import EquityScreen.Config
import EquityScreen.Field

namespace EquityScreen

/-- Why a plan cannot be put into words. -/
inductive WordingError where
  | unknownField (key : String)
  /-- The value is no finite number, or has too many digits for two places. -/
  | unwritable (value : Value)
  /-- The value is too large to be calculated with. -/
  | tooLarge (value : Value)
  deriving DecidableEq

/-- The wording of the error. -/
def WordingError.message : WordingError → String
  | .unknownField key => s!"Field not in catalog: {key}"
  | .unwritable _ | .tooLarge _ => ""

/-! ## Decimal text -/

/-- The list without the zeros at its end. -/
def dropTrailingZeros (cs : List Char) : List Char :=
  (cs.reverse.dropWhile (· == '0')).reverse

/-- The digits before the point of a plain numeral and the digits after it that matter. -/
def splitPoint (cs : List Char) : List Char × List Char :=
  (cs.takeWhile (· != '.'), dropTrailingZeros ((cs.dropWhile (· != '.')).drop 1))

/-- A numeral with a fraction of at least `places` digits and no more zeros at its end than that
takes. -/
def trimmedChars (places : Nat) (cs : List Char) : List Char :=
  let (whole, fraction) := splitPoint cs
  let fraction := fraction ++ List.replicate (places - fraction.length) '0'
  if fraction.isEmpty then whole else whole ++ '.' :: fraction

/-- A decimal with at least `places` places and otherwise no zeros at its end. -/
def Decimal.trimmed (places : Nat) (d : Decimal) : String :=
  String.ofList (trimmedChars places d.plainChars)

/-- A quantity with at least `places` places; what is not finite is written by its name. -/
def Quantity.trimmed (places : Nat) : Quantity → String
  | .finite d => d.trimmed places
  | q => String.ofList (trimmedChars places q.text.toList)

/-! ## Amounts -/

/-- A decimal needs more significant digits than are kept when it is written with `places`
places. -/
def Decimal.tooLongFor (places : Nat) (d : Decimal) : Bool :=
  (Decimal.precision : Int) < d.leading + 1 + places

/-- Why a quantity cannot be written as a value of a field. -/
inductive AmountError where
  /-- It is no finite number, or has too many digits for two places. -/
  | unwritable
  | tooLarge
  deriving DecidableEq, Repr

/-- A fault in calculating with a quantity. -/
def AmountError.ofFault : Quantity.Fault → AmountError
  | .signalling => .unwritable
  | .tooLarge => .tooLarge

/-- A result of arithmetic, unless it is too large for one. -/
def AmountError.result : Option Decimal → Except AmountError Decimal
  | some d => .ok d
  | none => .error .tooLarge

/-- An amount abbreviated by the first magnitude that fits. -/
def Decimal.abbreviated (d : Decimal) : List Magnitude → Except AmountError String
  | [] => .ok (d.trimmed 0)
  | m :: ms => do
    let size ← AmountError.result d.fitted
    if size.reaches m.places then
      let scaled ← AmountError.result (d.shift (-(m.places : Int)))
      if scaled.tooLongFor 2 then .error .unwritable
      else if scaled.fitsPlaces 2 then .ok (scaled.trimmed 0 ++ m.mark)
      else d.abbreviated ms
    else d.abbreviated ms

/-- The quantity that a value is; a text may spell one out. -/
def Value.quantity? : Value → Option Quantity
  | .number n => some n.toQuantity
  | .text s => Quantity.read? s

/-- A quantity on a field of the kind. -/
def Quantity.worded (k : Kind) (style : CurrencyStyle) (q : Quantity) : Except AmountError String :=
  match k with
  | .percentage =>
    match q.shift 2 with
    | .ok r => .ok (r.trimmed 1 ++ "%")
    | .error f => .error (.ofFault f)
  | .ratio => .ok (q.trimmed 2)
  | _ =>
    match q with
    | .finite d => d.abbreviated style.magnitudes
    | _ => .error .unwritable

/-- What is wrong with a value. -/
def AmountError.on (v : Value) : AmountError → WordingError
  | .unwritable => .unwritable v
  | .tooLarge => .tooLarge v

/-- A value on a field of the kind. -/
def Value.worded (k : Kind) (style : CurrencyStyle) (v : Value) : Except WordingError String :=
  match k with
  | .text => .ok ("\x22" ++ v.written ++ "\x22")
  | .sector => .ok v.written
  | k =>
    match v.quantity? with
    | none => .error (.unwritable v)
    | some q => (q.worded k style).mapError (AmountError.on v)

end EquityScreen
