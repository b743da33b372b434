/-
Sets of characters given as ranges of code points.
-/
namespace EquityScreen.Text

/-- The code point lies in one of the ranges, ends included. -/
def within (ranges : List (Nat × Nat)) (n : Nat) : Bool :=
  ranges.any fun r => r.1 ≤ n && n ≤ r.2

end EquityScreen.Text
