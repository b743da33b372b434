/-
Words with a meaning of their own in a query: those that carry none, qualitative words and phrases,
superlatives, and the names of ready-made orders. All are given in lower case.
-/
import EquityScreen.Catalog
import EquityScreen.Plan

namespace EquityScreen
namespace Vocabulary

/-- Words that are dropped without a trace. -/
def fillers : List String := [
  "a", "an", "the", "all", "any", "me", "my", "us", "please", "pls", "show", "showing", "list",
  "find", "get", "give", "display", "fetch", "screen", "screening", "filter", "search", "looking",
  "look", "want", "stock", "stocks", "share", "shares", "company", "companies", "equity",
  "equities", "security", "securities", "names", "scrips", "ones", "with", "having", "have",
  "has", "that", "which", "who", "whose", "where", "is", "are", "be", "of", "for", "on", "at",
  "to", "from", "only", "just", "also", "some", "i", "can", "you", "what", "whats", "ratio",
  "value", "than", "then", "its", "their", "them", "those", "these", "sorted", "sort", "ordered",
  "order", "limited", "limit", "space", "industry", "segment", "results", "previous", "refine",
  "refining", "refinement", "now", "and", "or", "by", "add", "adding"]

/-- Words after a sector name that make an ambiguous one count. -/
def anchors : List String :=
  ["stocks", "stock", "companies", "company", "shares", "names", "space", "industry", "counters",
    "scrips"]

/-- What a word before a field asks for. -/
inductive Quality where
  | low | high | good | bad
  deriving DecidableEq, Repr

/-- Qualitative words. -/
def qualities : List (String × Quality) := [
  ("low", .low), ("lower", .low), ("small", .low), ("little", .low), ("less", .low),
  ("high", .high), ("higher", .high), ("large", .high), ("big", .high), ("huge", .high),
  ("more", .high), ("good", .good), ("strong", .good), ("healthy", .good), ("great", .good),
  ("solid", .good), ("decent", .good), ("better", .good), ("excellent", .good), ("poor", .bad),
  ("weak", .bad), ("bad", .bad)]

/-- The comparison with the threshold that a quality asks of a field. Low and high are absolute;
good and bad follow the favourable side of the field, if it has one. -/
def Quality.operator? (q : Quality) (f : Field) : Option Operator :=
  match q with
  | .low => some .lt
  | .high => some .gt
  | .good => f.higherIsBetter.map fun better => if better then .gt else .lt
  | .bad => f.higherIsBetter.map fun better => if better then .lt else .gt

/-- Words that ask for an order by the field after them. -/
def superlatives : List (String × Direction) := [
  ("highest", .descending), ("largest", .descending), ("biggest", .descending),
  ("most", .descending), ("maximum", .descending), ("max", .descending), ("lowest", .ascending),
  ("smallest", .ascending), ("least", .ascending), ("minimum", .ascending), ("min", .ascending),
  ("cheapest", .ascending)]

/-- One comparison of a phrase; without a value it is with the threshold of the field. -/
structure PhraseTerm where
  field : String
  op : Operator
  value : Option Number

/-- Market capitalizations from which a company counts as mid-sized and as large. -/
def midCap : Number := .int 50000000000
def largeCap : Number := .int 200000000000

/-- Phrases that stand for comparisons. -/
def phrases : List (List String × List PhraseTerm) := [
  (["cheap", "undervalued"], [⟨"pe", .lt, none⟩]),
  (["expensive", "overvalued"], [⟨"pe", .gt, none⟩]),
  (["profitable"], [⟨"roe", .gt, none⟩]),
  (["dividend paying"], [⟨"dividendYield", .gt, some (.decimal 0 0)⟩]),
  (["debt free", "debtfree"], [⟨"debtToEquity", .lt, some (.decimal 1 1)⟩]),
  (["large cap", "largecap", "bluechip", "blue chip"], [⟨"mcap", .ge, some largeCap⟩]),
  (["mid cap", "midcap"], [⟨"mcap", .ge, some midCap⟩, ⟨"mcap", .lt, some largeCap⟩]),
  (["small cap", "smallcap"], [⟨"mcap", .lt, some midCap⟩]),
  (["oversold"], [⟨"rsi", .lt, some (.decimal 30 0)⟩]),
  (["overbought"], [⟨"rsi", .gt, some (.decimal 70 0)⟩]),
  (["volume dropping", "volume falling", "volume decreasing", "decreasing volume",
    "falling volume"], [⟨"volumeChange5d", .lt, some (.decimal 0 0)⟩]),
  (["volume rising", "volume increasing", "increasing volume", "rising volume"],
    [⟨"volumeChange5d", .gt, some (.decimal 0 0)⟩])]

/-- The most words in a phrase. -/
def phraseWords : Nat := 2

/-- The comparisons that a phrase stands for. -/
def phrase? (s : String) : Option (List PhraseTerm) :=
  (phrases.find? (·.1.contains s)).map (·.2)

/-- The filter of a phrase, with the thresholds of a catalog. -/
def termsPredicate? (c : Catalog) (terms : List PhraseTerm) : Option Predicate :=
  terms.foldl (fun p t => do
    let p ← p
    let value ← t.value <|> (c.field? t.field).bind (·.threshold)
    return p.conjoin (.compare ⟨t.field, t.op, .number value⟩)) (some .all)

/-- Orders that a superlative may name, with the direction for "biggest". -/
def orders : List (String × Ranking) := [
  ("volume drop", ⟨"volumeChange5d", .ascending⟩),
  ("volume fall", ⟨"volumeChange5d", .ascending⟩),
  ("volume decline", ⟨"volumeChange5d", .ascending⟩),
  ("volume rise", ⟨"volumeChange5d", .descending⟩),
  ("volume gain", ⟨"volumeChange5d", .descending⟩),
  ("volume spike", ⟨"volumeChange5d", .descending⟩)]

/-- The most words in the name of an order. -/
def orderWords : Nat := 2

end Vocabulary
end EquityScreen
