/-
What an answer says besides its rows: the plan in words, and advice. Advice comes in this order:
how to get fewer or more matches, how qualitative words were read, and what was left out.
-/
import EquityScreen.Screening
import EquityScreen.Wording.Sentence

namespace EquityScreen

open Text (joined)

/-- An answer's own account of itself. -/
structure Account where
  interpretation : String
  suggestions : List String
  deriving DecidableEq, Repr

/-- The field that an order is advised by: the first figure that the plan refers to, else the
market capitalization. -/
def Plan.rankField (c : Catalog) (p : Plan) : String :=
  (p.referencedFields.find? fun key => ((c.field? key).map (·.kind.isNumeric)).getD false).getD
    "mcap"

/-- Advice on a plan that nothing matches: loosen the tightest clause. -/
def loosenHint (c : Catalog) (style : CurrencyStyle) (p : Plan) (clauses : List Selectivity) :
    Except WordingError String :=
  match clauses, p.predicate.conjuncts with
  | s :: _, _ =>
    (s.clause.phrase c style).map fun text =>
      s!"No matches: try loosening {text} (only {s.passing} of {s.size} pass it)"
  | [], q :: _ => (q.phrase c style).map fun text => s!"No matches: try loosening {text}"
  | [], [] => .ok "No matches: the universe is empty"

/-- Advice on a plan with many matches and no order or no limit. -/
def crowdHint (c : Catalog) (p : Plan) (matchCount : Int) : Except WordingError String :=
  let key := (p.sort.map (·.field)).getD (p.rankField c)
  (c.named key).map fun f =>
    s!"{matchCount} matches: add a sort and limit, e.g. \"top 10 by {f.label}\""

/-- Advice on the number of matches. -/
def countHint (c : Catalog) (config : Config) (p : Plan) (matchCount : Int)
    (clauses : List Selectivity) : Except WordingError (List String) :=
  if matchCount = 0 then (loosenHint c config.style p clauses).map ([·])
  else if config.largeResult < matchCount && (p.sort.isNone || p.limit.isNone) then
    (crowdHint c p matchCount).map ([·])
  else .ok []

/-- How a qualitative phrase was read. -/
def Heuristic.note (c : Catalog) (style : CurrencyStyle) (h : Heuristic) :
    Except WordingError String :=
  (h.predicate.phrase c style).map fun text => s!"interpreted '{h.phrase}' as {text}"

/-- What was left out. -/
def Skipped.note (s : Skipped) : String := s!"ignored: {s.text}"

/-- The number of a refinement as it is written; one without a number says so. -/
def refinementNumber : Option Int → String
  | some n => toString n
  | none => "None"

/-- What stands before the sentence of a refinement. -/
def Intent.preface : Intent → String
  | .refinement n => s!"+{refinementNumber n} refinement of previous results. "
  | _ => ""

/-- The account of an answer. -/
def Account.of (c : Catalog) (config : Config) (p : Plan) (intent : Intent) (matchCount : Int)
    (skipped : List Skipped) (heuristics : List Heuristic) (clauses : List Selectivity) :
    Except WordingError Account := do
  let sentence ← p.sentence c config.style
  let hint ← countHint c config p matchCount clauses
  let notes ← heuristics.mapM (Heuristic.note c config.style)
  return { interpretation := intent.preface ++ sentence,
           suggestions := hint ++ notes ++ skipped.map Skipped.note }

/-! ## Fixed texts -/

/-- Queries to try. -/
def exampleQueries : List String := [
  "Try: \"stocks with PE < 15 and ROE > 20%\"",
  "Try: \"energy sector Mcap > $5B\"",
  "Try: \"IT stocks with low PE, top 10 by market cap\"",
  "Type \"help\" for the full syntax guide"]

/-- The answer to a query that could not be understood. -/
def notUnderstood (query : String) : String :=
  s!"I couldn't understand \"{Text.trim query}\". Try rephrasing or type \"help\" for the syntax guide."

/-- How many fields the guide shows. -/
def guideFields : Nat := 20

/-- The guide to the query language. -/
def guide (c : Catalog) : String :=
  joined "\n" ([
    "Screener Query Syntax",
    "",
    "Filters:",
    "  PE < 15",
    "  Mcap > $5B  (also 5000Cr, 50000L)",
    "  ROE >= 20%",
    "  Dividend Yield between 2% and 5%",
    "  low PE, high ROE, cheap, profitable, large cap",
    "",
    "Combining:",
    "  PE < 15 and ROE > 20% or sector = IT  (and binds tighter)",
    "  (PE < 15 or PB < 2) and ROE > 15%",
    "",
    "Sectors:",
    "  in energy sector",
    "  IT stocks",
    "  exclude pharma, healthcare",
    "",
    "Sorting:",
    "  top 20 by market cap",
    "  sorted by PE ascending",
    "  highest dividend yield",
    "",
    "Follow-ups:",
    "  +1 exclude energy",
    "  +1 top 5",
    "  clear",
    "",
    "Fields (sample):"] ++
    (c.fields.take guideFields).map (fun f => s!"  {f.label}: {f.description}") ++ [
    "",
    "Sectors:",
    "  " ++ joined ", " Sector.listed])

end EquityScreen
