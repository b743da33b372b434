/-
Messages with places for values. A doubled percent sign stands for a single one; a message without
values is taken as it is.
-/
import EquityScreen.Log.Placing

namespace EquityScreen.Log

/-- Fills in what is left of a message of `size` characters, in at most `fuel` steps. -/
def fillFrom (size : Nat) : Nat → List Char → Supply → Except MessageError (List Char)
  | _, [], s => if s.spent then .ok [] else .error .tooManyValues
  | 0, _ :: _, _ => .ok []
  | fuel + 1, '%' :: '%' :: cs, s => (fillFrom size fuel cs s).map ('%' :: ·)
  | fuel + 1, '%' :: cs, s => do
    let (p, s, rest) ← Placeholder.read s cs
    let (d, s) ← s.next
    let placed ← p.placed (size - rest.length - 1) d
    return placed ++ (← fillFrom size fuel rest s)
  | fuel + 1, c :: cs, s => (fillFrom size fuel cs s).map (c :: ·)

/-- A message with its values filled in. Every step passes over a character, so there are enough
steps. -/
def fill (template : String) (values : List Datum) : Except MessageError String :=
  if values.isEmpty then .ok template
  else
    let cs := template.toList
    (fillFrom cs.length cs.length cs (.of values)).map String.ofList

end EquityScreen.Log
