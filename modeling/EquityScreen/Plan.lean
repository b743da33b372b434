/-
Plans: what a query asks for, ready to be run; and the intent behind a query.
-/
import EquityScreen.Predicate.Form

namespace EquityScreen

/-- The direction of an order. -/
inductive Direction where
  | ascending | descending
  deriving DecidableEq, Repr

namespace Direction

/-- The word for a direction. -/
def word : Direction → String
  | .ascending => "ascending"
  | .descending => "descending"

/-- The other direction. -/
def flipped : Direction → Direction
  | .ascending => .descending
  | .descending => .ascending

end Direction

/-- An order by the value of a field. -/
structure Ranking where
  field : String
  direction : Direction
  deriving DecidableEq, Repr

/-- A filter, an order and a limit. -/
structure Plan where
  predicate : Predicate := .all
  sort : Option Ranking := none
  limit : Option Int := none
  /-- The limit keeps the last rows instead of the first. -/
  fromBottom : Bool := false
  deriving DecidableEq

namespace Plan

/-- Nothing is asked for. -/
def isEmpty (p : Plan) : Bool := p.predicate == .all && p.sort.isNone && p.limit.isNone

/-- The list without the elements that stand further left already. -/
def firstOccurrences (keys : List String) : List String :=
  keys.foldl (fun seen k => if seen.contains k then seen else seen ++ [k]) []

/-- The keys of the fields that a plan refers to, filters before the order, each once. -/
def referencedFields (p : Plan) : List String :=
  firstOccurrences (p.predicate.fields ++ (p.sort.map (·.field)).toList)

/-- Two plans that mean the same whatever the order and the grouping of their filters. -/
def equivalent (p q : Plan) : Bool :=
  p.predicate.sameForm q.predicate && p.sort == q.sort && p.limit == q.limit &&
    p.fromBottom == q.fromBottom

end Plan

/-- What a query is for. A refinement carries the number that it was written with. -/
inductive Intent where
  | newScreen
  | refinement (index : Option Int)
  | help
  | clear
  deriving DecidableEq, Repr

/-- A piece of a query that could not be used, and why. -/
structure Skipped where
  text : String
  reason : String
  deriving DecidableEq, Repr

/-- A qualitative phrase and the filter that it was read as. -/
structure Heuristic where
  phrase : String
  predicate : Predicate
  deriving DecidableEq

end EquityScreen
