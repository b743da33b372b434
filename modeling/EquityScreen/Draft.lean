/-
A plan in the making: the clauses of a query are added one after the other. Filters join the row of
items from which the filter tree is built; sectors either do too or hold for the whole query, by
what stands beside them; a later order or limit replaces an earlier one.
-/
import EquityScreen.Clause.Read

namespace EquityScreen

/-- What the clauses so far say. -/
structure Draft where
  items : List Item := []
  /-- Sectors that the whole query is about. -/
  included : List String := []
  /-- Sectors that the whole query leaves out. -/
  excluded : List String := []
  sort : Option Ranking := none
  limit : Option Nat := none
  fromBottom : Bool := false
  skipped : List Skipped := []
  heuristics : List Heuristic := []
  clauseCount : Nat := 0
  /-- Why reading stopped, if it did. -/
  breakdown : Option CoercionError := none

namespace Draft

/-- The next clause is tied to what stands before it. -/
def joins (d : Draft) : Bool :=
  match d.items.getLast? with
  | some .and | some .or | some .opening => true
  | _ => false

/-- One clause more counts as understood. -/
def counted (d : Draft) : Draft := { d with clauseCount := d.clauseCount + 1 }

/-- A filter more. -/
def addFilter (d : Draft) (p : Predicate) : Draft :=
  { d.counted with items := d.items ++ [.filter p] }

/-- A filter more, from a qualitative phrase. -/
def addHeuristic (d : Draft) (phrase : String) (p : Predicate) : Draft :=
  { d.addFilter p with heuristics := d.heuristics ++ [⟨phrase, p⟩] }

/-- The names of both lists, each once. -/
def union (names more : List String) : List String :=
  more.foldl (fun l n => if l.contains n then l else l ++ [n]) names

/-- A piece more that could not be used. -/
def addSkipped (d : Draft) (s : Skipped) : Draft := { d with skipped := d.skipped ++ [s] }

/-- Reading stops, unless it did so before. -/
def stopped (d : Draft) (e : CoercionError) : Draft :=
  { d with breakdown := d.breakdown <|> some e }

/-- Sectors beside a connective are a filter of their own; other sectors hold for the whole
query. -/
def addSectors (d : Draft) (names : List String) (beforeOr : Bool) : Draft :=
  if d.joins || beforeOr then d.addFilter (.sectorIn (.ofList names))
  else { d.counted with included := union d.included names }

/-- In place of a clause that has no opposite: leaves out a symbol, or is skipped. -/
def withoutOpposite (d : Draft) (phrase reason : String) : Option String → Draft
  | some symbol => d.addFilter (.compare ⟨"symbol", .ne, .text symbol⟩)
  | none => d.addSkipped ⟨phrase, reason⟩

/-- The opposite of a clause. Sectors that would hold for the whole query stay noted as such. -/
def addReversed (d : Draft) (phrase : String) (symbol : Option String) : Clause → Draft
  | .filter p =>
    match p.negate with
    | .ok q => d.addFilter q
    | .error _ => d
  | .heuristic _ p =>
    match p.negate with
    | .ok q => d.addHeuristic phrase q
    | .error _ => d
  | .sectors names beforeOr =>
    if d.joins || beforeOr then d.addFilter (.sectorOut (.ofList names))
    else { d with included := union d.included names }.withoutOpposite phrase "nothing to exclude" symbol
  | .skipped s => d.withoutOpposite phrase s.reason symbol
  | .breakdown e => d.stopped e
  | _ => d.withoutOpposite phrase "nothing to exclude" symbol

/-- One clause more. -/
def add (d : Draft) : Clause → Draft
  | .mark i => { d with items := d.items ++ [i] }
  | .filter p => d.addFilter p
  | .heuristic phrase p => d.addHeuristic phrase p
  | .sectors names beforeOr => d.addSectors names beforeOr
  | .excludedSectors names => { d.counted with excluded := union d.excluded names }
  | .order o => { d.counted with sort := some o }
  | .limit count fromBottom => { d.counted with limit := some count, fromBottom }
  | .filler => d
  | .skipped s => d.addSkipped s
  | .breakdown e => d.stopped e
  | .reversed c phrase symbol => d.addReversed phrase symbol c

/-- Reads at most `fuel` clauses from the tokens. -/
def gather (c : Catalog) : Nat → List Token → Draft → Draft
  | 0, _, d => d
  | _ + 1, [], d => d
  | fuel + 1, t :: ts, d =>
    let r := Clause.read c t ts
    gather c fuel ((t :: ts).drop r.used) (r.clauses.foldl add d)

/-- What the tokens say. -/
def ofTokens (c : Catalog) (ts : List Token) : Draft := gather c ts.length ts {}

/-- The filter with the sectors of the whole query. -/
def predicate (d : Draft) : Predicate :=
  let tree := Predicate.ofItems d.items
  let tree := if d.included.isEmpty then tree else tree.conjoin (.sectorIn (.ofList d.included))
  if d.excluded.isEmpty then tree else tree.conjoin (.sectorOut (.ofList d.excluded))

/-- The plan that the draft amounts to. -/
def plan (d : Draft) : Plan :=
  { predicate := d.predicate, sort := d.sort, limit := d.limit.map Int.ofNat,
    fromBottom := d.fromBottom }

end Draft

end EquityScreen
