/-
Tokens of a query, and the words that are read as keywords, comparisons and marks of magnitude.
-/
import EquityScreen.Decimal
import EquityScreen.Field
import EquityScreen.Text.Joined
import EquityScreen.UnitMark

namespace EquityScreen

/-- The keywords of the query language, whatever their spelling. -/
inductive Keyword where
  | and | or | inside | exclude | top | bottom | ascending | descending | sector | help | clear
  | sort | by
  deriving DecidableEq, Repr

namespace Keyword

/-- The canonical spelling of a keyword. -/
def name : Keyword → String
  | .and => "and"
  | .or => "or"
  | .inside => "in"
  | .exclude => "exclude"
  | .top => "top"
  | .bottom => "bottom"
  | .ascending => "ascending"
  | .descending => "descending"
  | .sector => "sector"
  | .help => "help"
  | .clear => "clear"
  | .sort => "sort"
  | .by => "by"

/-- Every keyword with its spellings. -/
def spellings : List (Keyword × List String) := [
  (.and, ["and", "&&", "plus"]),
  (.or, ["or"]),
  (.inside, ["in", "within"]),
  (.exclude, ["exclude", "excluding", "excludes", "except", "not", "without", "omit", "remove",
    "minus", "ex", "excl", "drop", "non"]),
  (.top, ["top", "first"]),
  (.bottom, ["bottom"]),
  (.ascending, ["ascending", "asc"]),
  (.descending, ["descending", "desc"]),
  (.sector, ["sector", "sectors"]),
  (.help, ["help", "syntax"]),
  (.clear, ["clear", "reset"]),
  (.sort, ["sort", "sorted", "order", "ordered", "rank", "ranked"]),
  (.by, ["by"])]

/-- The keyword with a spelling, given in lower case. -/
def ofSpelling? (s : String) : Option Keyword :=
  (spellings.find? (·.2.contains s)).map (·.1)

end Keyword

namespace Operator

/-- Comparisons written as signs, the longer ones first. -/
def signs : List (String × Operator) := [
  (">=", .ge), ("<=", .le), ("=>", .ge), ("=<", .le), ("==", .eq), ("!=", .ne), ("<>", .ne),
  ("≥", .ge), ("≤", .le), ("≠", .ne), ("<", .lt), (">", .gt), ("=", .eq)]

/-- Comparisons written as words, a phrase before any phrase that it starts with. -/
def phrases : List (String × Operator) := [
  ("greater than or equal to", .ge), ("less than or equal to", .le), ("not equal to", .ne),
  ("greater than", .gt), ("no more than", .le), ("no less than", .ge), ("higher than", .gt),
  ("lower than", .lt), ("fewer than", .lt), ("more than", .gt), ("less than", .lt),
  ("exceeding", .gt), ("at least", .ge), ("equal to", .eq), ("at most", .le), ("exceeds", .gt),
  ("between", .between), ("equals", .eq), ("up to", .le), ("above", .gt), ("below", .lt),
  ("under", .lt), ("upto", .le), ("over", .gt)]

end Operator

namespace Magnitude

/-- Magnitudes written as one letter directly after the number. -/
def letters : List (Char × Magnitude) :=
  [('k', .thousand), ('l', .lakh), ('m', .million), ('b', .billion), ('t', .trillion)]

/-- Magnitudes written as words. -/
def words : List (String × Magnitude) := [
  ("thousand", .thousand), ("trillion", .trillion), ("million", .million), ("billion", .billion),
  ("crores", .crore), ("lakhs", .lakh), ("crore", .crore), ("lakh", .lakh), ("lacs", .lakh),
  ("lac", .lakh), ("mn", .million), ("mm", .million), ("cr", .crore), ("bn", .billion),
  ("tn", .trillion)]

end Magnitude

/-- What a token says. -/
inductive Content where
  | name
  | number (value : Decimal) (unit : Option UnitMark) (currency : Bool)
  | compare (op : Operator)
  | keyword (k : Keyword)
  | quoted (phrase : String)
  | refinement (index : Nat)
  | comma | openParen | closeParen
  deriving DecidableEq, Repr

/-- A token: what it says, the characters it was read from, and where they start. -/
structure Token where
  content : Content
  text : String
  position : Nat
  deriving DecidableEq, Repr

namespace Token

/-- The text in lower case, as words are looked up. -/
def word (t : Token) : String := Text.lower t.text

/-- An ordinary word. -/
def isName (t : Token) : Bool := t.content == .name

/-- A comparison. -/
def isCompare (t : Token) : Bool :=
  match t.content with
  | .compare _ => true
  | _ => false

/-- The given keyword. -/
def isKeyword (t : Token) (k : Keyword) : Bool := t.content == .keyword k

/-- The texts of tokens with a space between them. -/
def joinedText (ts : List Token) : String := Text.joined " " (ts.map (·.text))

end Token

end EquityScreen
