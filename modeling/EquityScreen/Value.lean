/-
Values of a security's fields and of the right side of a comparison: numbers and texts.
-/
import EquityScreen.Number

namespace EquityScreen

/-- A number or a text. -/
inductive Value where
  | number (n : Number)
  | text (s : String)
  deriving DecidableEq

namespace Value

/-- The value written as a text; a text is written as it is. -/
def written : Value → String
  | .number n => n.text
  | .text s => s

/-- A value that stands for no value at all. -/
def isNaN : Value → Bool
  | .number n => n.isNaN
  | .text _ => false

end Value

/-- A cell is missing when it is empty or holds not-a-number. -/
def isMissing : Option Value → Bool
  | none => true
  | some v => v.isNaN

end EquityScreen
