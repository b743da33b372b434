/-
Marks after a number: the percent sign, the `x` of a multiple, and the magnitudes of Western and
Indian usage.
-/
namespace EquityScreen

/-- Thousand, lakh, million, crore, billion and trillion. -/
inductive Magnitude where
  | thousand | lakh | million | crore | billion | trillion
  deriving DecidableEq, Repr

namespace Magnitude

/-- The canonical mark. -/
def mark : Magnitude → String
  | .thousand => "K"
  | .lakh => "L"
  | .million => "M"
  | .crore => "Cr"
  | .billion => "B"
  | .trillion => "T"

/-- The power of ten that the mark multiplies by. -/
def places : Magnitude → Nat
  | .thousand => 3
  | .lakh => 5
  | .million => 6
  | .crore => 7
  | .billion => 9
  | .trillion => 12

/-- All magnitudes, smallest first. -/
def all : List Magnitude := [.thousand, .lakh, .million, .crore, .billion, .trillion]

end Magnitude

/-- The mark of a number; `other` is a mark that means nothing. -/
inductive UnitMark where
  | percent
  | times
  | magnitude (m : Magnitude)
  | other (mark : String)
  deriving DecidableEq, Repr

namespace UnitMark

/-- The canonical spelling of a mark. -/
def spelling : UnitMark → String
  | .percent => "%"
  | .times => "x"
  | .magnitude m => m.mark
  | .other mark => mark

/-- The mark with a canonical spelling; an empty text is no mark. -/
def ofSpelling? (s : String) : Option UnitMark :=
  if s == "" then none
  else if s == "%" then some .percent
  else if s == "x" then some .times
  else match Magnitude.all.find? (·.mark == s) with
    | some m => some (.magnitude m)
    | none => some (.other s)

end UnitMark

end EquityScreen
