/-
What a screener can be set to: how many rows and columns it shows, how many plans it remembers, and
how it abbreviates large amounts.
-/
import EquityScreen.Number
import EquityScreen.UnitMark

namespace EquityScreen

/-- Usage in abbreviating large amounts. -/
inductive CurrencyStyle where
  | western | indian
  deriving DecidableEq, Repr

namespace CurrencyStyle

/-- The name of a style. -/
def name : CurrencyStyle → String
  | .western => "western"
  | .indian => "indian"

/-- All styles. -/
def all : List CurrencyStyle := [.western, .indian]

/-- The style with a name. -/
def ofName? (s : String) : Option CurrencyStyle := all.find? (·.name == s)

/-- The magnitudes that a style abbreviates with, largest first. -/
def magnitudes : CurrencyStyle → List Magnitude
  | .western => [.trillion, .billion, .million, .thousand]
  | .indian => [.crore, .lakh]

end CurrencyStyle

/-- The settings of a screener. -/
structure Config where
  /-- The most rows of an answer; a negative number leaves out that many at the end. -/
  maxResults : Int := 500
  /-- How many plans are remembered. -/
  historySize : Int := 20
  /-- From more matches than this an answer advises to order and limit them. -/
  largeResult : Int := 50
  /-- The most columns of an answer, counted as rows are. -/
  maxColumns : Int := 12
  style : CurrencyStyle := .western
  /-- The milliseconds from which a query counts as slow. -/
  slowThreshold : Number := .decimal 250 0
  deriving DecidableEq

/-- The first `n` of a list; a negative `n` leaves out that many at the end. -/
def takeSigned (n : Int) (l : List α) : List α :=
  if 0 ≤ n then l.take n.toNat else l.take (l.length - n.natAbs)

end EquityScreen
