/-
Numbers of the universe and of plans: whole numbers of any size and doubles. They are told apart
in answers but compared by exact value; a not-a-number value is below, above and equal to nothing.
-/
import EquityScreen.Double.Shortest
import EquityScreen.Decimal.Reading

namespace EquityScreen

/-- A whole number or a double. -/
inductive Number where
  | int (n : Int)
  | double (x : Double)
  deriving DecidableEq

namespace Number

/-- A place on the number line with both ends. -/
inductive Place where
  | least
  | at (steps : Int)
  | greatest
  deriving DecidableEq, Repr

/-- The place of a number; not-a-number has none. A whole number is so many times `2 ^ 1074`
steps. -/
def place? : Number → Option Place
  | .int n => some (.at (n * stepsPerOne))
  | .double .nan => none
  | .double (.infinite negative) => some (if negative then .least else .greatest)
  | .double (.finite negative steps _ _) => some (.at (Double.signedSteps negative steps))

/-- One place lies strictly before another. -/
def Place.before : Place → Place → Bool
  | .at a, .at b => a < b
  | .least, .least => false
  | .least, _ => true
  | .at _, .greatest => true
  | _, _ => false

/-- `a` is less than `b`. -/
def lt (a b : Number) : Bool :=
  match a.place?, b.place? with
  | some p, some q => p.before q
  | _, _ => false

/-- `a` and `b` have the same value. -/
def same (a b : Number) : Bool :=
  match a.place?, b.place? with
  | some p, some q => p == q
  | _, _ => false

/-- `a` is less than or the same as `b`. -/
def le (a b : Number) : Bool := lt a b || same a b

/-- Not a number. -/
def isNaN : Number → Bool
  | .double x => x.isNaN
  | .int _ => false

/-- The text of a number: digits, or the text of a double. -/
def text : Number → String
  | .int n => toString n
  | .double x => x.text

/-- The double nearest `coefficient / 10 ^ places`. -/
def decimal (coefficient places : Nat) : Number :=
  .double (.ofDecimal ⟨false, coefficient, -(places : Int)⟩)

/-- The double nearest a number. -/
def toDouble : Number → Double
  | .int n => .ofInt n
  | .double x => x

/-- Reads a number: digits with an optional sign are a whole number, any other numeral is a
double. -/
def read? (s : String) : Option Number :=
  let (negative, rest) := Quantity.readSign s.toList
  if !rest.isEmpty && rest.all Char.isDigit then
    let n : Int := Text.digitsValue rest
    some (.int (if negative then -n else n))
  else
    match Quantity.readDigits? negative rest, Quantity.read? s with
    | some d, _ | none, some (.finite d) => some (.double (.ofDecimal d))
    | none, some (.infinite negative) => some (.double (.infinite negative))
    | none, some (.nan ..) => some (.double .nan)
    | none, none => none

/-- The quantity that a number is rendered from. -/
def toQuantity : Number → Quantity
  | .int n => .finite (.ofInt n)
  | .double .nan => .nan false false 0
  | .double (.infinite negative) => .infinite negative
  | .double (.finite negative steps _ _) => .finite (Double.toDecimal negative steps)

end Number

end EquityScreen
