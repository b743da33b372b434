/-
The columns that an answer shows: some always, then the fields that the plan refers to, then their
relatives.
-/
import EquityScreen.Config
import EquityScreen.Plan

namespace EquityScreen

/-- Columns that are always shown. -/
def defaultColumns : List String := ["symbol", "name", "sector", "price", "changePct", "mcap", "pe"]

/-- Fields that bring others with them. -/
def relatedColumns : List (List String × List String) := [
  (["pe", "pb"], ["pe", "pb", "ps"]),
  (["roe", "roa"], ["roe", "roa", "roce"]),
  (["return1y", "return3y", "cagr3y", "return1m", "return3m", "return6m"],
    ["return1y", "return3y", "cagr3y"]),
  (["volume", "avgVolume20d", "volumeChange5d"], ["volume", "avgVolume20d", "volumeChange5d"])]

/-- The relatives of the fields that a plan refers to. -/
def relatives (referenced : List String) : List String :=
  relatedColumns.flatMap fun (triggers, related) =>
    if triggers.any referenced.contains then related else []

/-- The columns that an answer to a plan shows, at most `most` of them. -/
def Plan.columns (p : Plan) (most : Int) : List String :=
  let referenced := p.referencedFields
  takeSigned most (Plan.firstOccurrences (defaultColumns ++ referenced ++ relatives referenced))

end EquityScreen
