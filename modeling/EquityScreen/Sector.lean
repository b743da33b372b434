/-
The sector vocabulary: the sectors in the order in which they are listed, and every spelling that
means one of them. Spellings are looked up in lower case with single spaces.

A word that is also ordinary English ("it") counts as a sector only in capitals or when a word
beside it says that a sector is meant.
-/
import EquityScreen.Text.Blank
import EquityScreen.Text.Case

namespace EquityScreen
namespace Sector

open Text

/-- Every sector with its spellings, in listing order. -/
def spellings : List (String × List String) := [
  ("IT", ["it", "tech", "technology", "software", "information technology", "it services"]),
  ("Banking", ["banking", "bank", "banks"]),
  ("Financials", ["financials", "finance", "financial", "financial services", "nbfc", "nbfcs",
    "insurance"]),
  ("Pharma", ["pharma", "pharmaceutical", "pharmaceuticals", "drug", "drugs"]),
  ("Healthcare", ["healthcare", "health", "health care", "hospital", "hospitals"]),
  ("Biotech", ["biotech", "biotechnology", "bio"]),
  ("FMCG", ["fmcg", "staples", "consumer staples", "food"]),
  ("Consumer Discretionary", ["consumer discretionary", "consumer", "discretionary", "retail"]),
  ("Auto", ["auto", "autos", "automobile", "automobiles", "automotive", "ev", "evs"]),
  ("Energy", ["energy", "renewables"]),
  ("Oil & Gas", ["oil & gas", "oil", "gas", "oil and gas", "petroleum"]),
  ("Power", ["power", "electricity"]),
  ("Utilities", ["utilities", "utility"]),
  ("Metals", ["metals", "metal", "steel", "mining"]),
  ("Materials", ["materials", "material"]),
  ("Chemicals", ["chemicals", "chemical", "specialty chemicals"]),
  ("Cement", ["cement"]),
  ("Industrials", ["industrials", "industrial", "manufacturing", "capital goods"]),
  ("Infrastructure", ["infrastructure", "infra"]),
  ("Real Estate", ["real estate", "realty", "property", "housing"]),
  ("Telecom", ["telecom", "telecommunication", "telecommunications"]),
  ("Media", ["media", "entertainment"])]

/-- The sectors in listing order. -/
def listed : List String := spellings.map (·.1)

/-- Spellings that are also ordinary words. -/
def ambiguous : List String := ["it"]

/-- The sector with a spelling, given in lower case with single spaces. -/
def named? (spelling : String) : Option String :=
  (spellings.find? (·.2.contains spelling)).map (·.1)

/-- A term as it is looked up. -/
def normalForm (term : String) : String := respace (lower term)

/-- The sector that a term of a query means. `anchored` says that the words around it ask for a
sector. -/
def resolve? (term : String) (anchored : Bool) : Option String :=
  let form := normalForm term
  if ambiguous.contains form && !anchored && !isUpper term then none else named? form

/-- The sector of a security as it counts for filters: the vocabulary's name when the text is one
of its spellings, else the text without blanks at either end. -/
def normalize (raw : String) : String := (named? (normalForm raw)).getD (trim raw)

/-- Position in the vocabulary; names outside it come after all of its own. -/
def rank (name : String) : Nat := listed.idxOf name

/-- Vocabulary order, names outside the vocabulary last and by code points. -/
def inOrder (a b : String) : Bool :=
  rank a < rank b || (rank a == rank b && a ≤ b)

/-- Names in vocabulary order. -/
def sorted (names : List String) : List String := names.mergeSort inOrder

end Sector
end EquityScreen
