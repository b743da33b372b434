/-
Clauses: what a stretch of tokens says by itself, whatever was said before it.
-/
import EquityScreen.Catalog.Coercion
import EquityScreen.Grouping
import EquityScreen.Plan
import EquityScreen.Token

namespace EquityScreen

/-- What a stretch of tokens says. -/
inductive Clause where
  /-- A connective or a parenthesis. -/
  | mark (i : Item)
  | filter (p : Predicate)
  /-- A qualitative phrase and the filter that it stands for. -/
  | heuristic (phrase : String) (p : Predicate)
  /-- A list of sectors; `beforeOr` says that an "or" comes next. -/
  | sectors (names : List String) (beforeOr : Bool)
  | excludedSectors (names : List String)
  | order (o : Ranking)
  | limit (count : Nat) (fromBottom : Bool)
  | filler
  | skipped (s : Skipped)
  /-- A value that could not be worked out; nothing is read after it. -/
  | breakdown (e : CoercionError)
  /-- The opposite of a clause. `phrase` is the text with the exclude word; `symbol` is the symbol to
  leave out where the clause has no opposite. -/
  | reversed (c : Clause) (phrase : String) (symbol : Option String)

/-- A clause or two, and the number of tokens that they take up. -/
structure Reading where
  clauses : List Clause
  used : Nat

/-- Why a comparison could not be read. -/
inductive ClauseError where
  | noValue
  | unknownSector (text : String)
  | unexpectedValue (label text : String)
  | coercion (e : CoercionError)
  | unsupported (op : Operator) (label : String)
  | betweenTexts
  deriving DecidableEq, Repr

/-- Why reading stops at a comparison, if it does. -/
def ClauseError.breakdown? : ClauseError → Option CoercionError
  | .coercion e => if e.isBreakdown then some e else none
  | _ => none

/-- The wording of the reason for skipping a comparison. -/
def ClauseError.message : ClauseError → String
  | .noValue => "comparison is missing a value"
  | .unknownSector text => s!"unknown sector {Text.quoted text}"
  | .unexpectedValue label text => s!"expected a value for {label}, got {Text.quoted text}"
  | .coercion e => e.message
  | .unsupported op label => s!"{op.sign} is not supported for {label}"
  | .betweenTexts => "between needs two numbers"

end EquityScreen
