import EquityScreen.Advice
import EquityScreen.Catalog
import EquityScreen.Catalog.Builtin
import EquityScreen.Catalog.Coercion
import EquityScreen.Clause
import EquityScreen.Clause.Compare
import EquityScreen.Clause.Names
import EquityScreen.Clause.Read
import EquityScreen.Config
import EquityScreen.Decimal
import EquityScreen.Decimal.Reading
import EquityScreen.Double
import EquityScreen.Double.Places
import EquityScreen.Double.Shortest
import EquityScreen.Draft
import EquityScreen.Field
import EquityScreen.Grouping
import EquityScreen.Log.Datum
import EquityScreen.Log.Entry
import EquityScreen.Log.Message
import EquityScreen.Log.Placeholder
import EquityScreen.Log.Placing
import EquityScreen.Log.Scope
import EquityScreen.Log.Setup
import EquityScreen.Log.Timing
import EquityScreen.Number
import EquityScreen.Plan
import EquityScreen.Predicate
import EquityScreen.Predicate.Form
import EquityScreen.Query
import EquityScreen.Rounding
import EquityScreen.Screening
import EquityScreen.Sector
import EquityScreen.SectorSet
import EquityScreen.Security
import EquityScreen.Session
import EquityScreen.Session.Columns
import EquityScreen.Session.Context
import EquityScreen.Settings
import EquityScreen.Table
import EquityScreen.Text.Blank
import EquityScreen.Text.Case
import EquityScreen.Text.CaseTable
import EquityScreen.Text.Digit
import EquityScreen.Text.Fold
import EquityScreen.Text.Joined
import EquityScreen.Text.Printable
import EquityScreen.Text.Quoted
import EquityScreen.Text.Ranges
import EquityScreen.Text.WordChar
import EquityScreen.Token
import EquityScreen.Token.Numeral
import EquityScreen.Token.Scan
import EquityScreen.UnitMark
import EquityScreen.Value
import EquityScreen.Vocabulary
import EquityScreen.Wording.Amount
import EquityScreen.Wording.Sentence
import EquityScreen.Proofs.Predicate.Negation
import EquityScreen.Proofs.Clause.Operand
import EquityScreen.Proofs.Draft.Exclusion
import EquityScreen.Proofs.Catalog.Names
import EquityScreen.Proofs.Decimal.Digits
import EquityScreen.Proofs.Double.Shortest
import EquityScreen.Proofs.Double.Reading
import EquityScreen.Proofs.Double.Whole
import EquityScreen.Proofs.Double.Nearest
import EquityScreen.Proofs.Wording.Amount
import EquityScreen.Proofs.Wording.Value
import EquityScreen.Proofs.Grouping.Closed
import EquityScreen.Proofs.Predicate.Comparisons
import EquityScreen.Proofs.Catalog.Regular
import EquityScreen.Proofs.Clause.Reading
import EquityScreen.Proofs.Catalog.Coercion
import EquityScreen.Proofs.Catalog.Exact
import EquityScreen.Proofs.Clause.Sound
import EquityScreen.Proofs.Draft.Sound
import EquityScreen.Proofs.Token.Contents
import EquityScreen.Proofs.Screening.Total
import EquityScreen.Proofs.Wording.Sentence
import EquityScreen.Proofs.Session.Total
import EquityScreen.Proofs.Grouping.Formula
import EquityScreen.Proofs.Text.Case
import EquityScreen.Proofs.Catalog.Spelling
import EquityScreen.Proofs.Clause.Naming
import EquityScreen.Proofs.Clause.Writing
import EquityScreen.Proofs.Clause.Sectors
import EquityScreen.Proofs.Draft.Expression
import EquityScreen.Proofs.Screening.Expression
import EquityScreen.Proofs.Query.Expression
import EquityScreen.Proofs.Screening.Order
import EquityScreen.Proofs.Screening.Rows
import EquityScreen.Proofs.Screening.Refinement
import EquityScreen.Proofs.Clause.Progress
import EquityScreen.Proofs.Draft.Excluded
import EquityScreen.Proofs.Session.Narrowing
import EquityScreen.Proofs.Token.Cutting
import EquityScreen.Proofs.Token.Numbers
import EquityScreen.Proofs.Token.Spelling
import EquityScreen.Proofs.Query.WellFormed
import EquityScreen.Proofs.Decimal.Padding
import EquityScreen.Proofs.Decimal.Value
import EquityScreen.Proofs.Decimal.Fitted
import EquityScreen.Proofs.Decimal.Writing
import EquityScreen.Proofs.Predicate.Form
import EquityScreen.Proofs.Session.Memory
import EquityScreen.Proofs.Session.Step
import EquityScreen.Proofs.Session.Independence
import EquityScreen.Proofs.Predicate.Meaning
import EquityScreen.Proofs.Screening.Equivalent
import EquityScreen.Proofs.Screening.Again
import EquityScreen.Proofs.Query.Asking
import EquityScreen.Proofs.Session.Standing
import EquityScreen.Proofs.Grouping.Blocks
import EquityScreen.Proofs.Session.Filtering
import EquityScreen.Proofs.Text.Lower
import EquityScreen.Proofs.Text.Words
import EquityScreen.Proofs.Catalog.Registration
import EquityScreen.Proofs.Clause.Labels
import EquityScreen.Proofs.Clause.Framing
import EquityScreen.Proofs.Wording.Clauses
import EquityScreen.Proofs.Wording.Filters
import EquityScreen.Proofs.Draft.Parts
import EquityScreen.Proofs.Draft.Sentence
import EquityScreen.Proofs.Query.Sentence
import EquityScreen.Proofs.Screening.Complement
import EquityScreen.Proofs.Token.Pieces
import EquityScreen.Proofs.Token.Places
import EquityScreen.Proofs.Token.Misspelled
import EquityScreen.Proofs.Clause.Pausing
import EquityScreen.Proofs.Draft.Ordered
import EquityScreen.Proofs.Token.Parting
import EquityScreen.Proofs.Wording.Legible
import EquityScreen.Proofs.Query.Order
import EquityScreen.Proofs.Screening.Refusal
import EquityScreen.Proofs.Grouping.Descent
import EquityScreen.Proofs.Draft.Cursor
import EquityScreen.Proofs.Clause.Statement
import EquityScreen.Proofs.Query.Recovery
import EquityScreen.Proofs.Token.Crossing
import EquityScreen.Proofs.Query.Quoting
import EquityScreen.Proofs.Token.Slices
import EquityScreen.Proofs.Token.Grouped
import EquityScreen.Proofs.Token.Marked
import EquityScreen.Proofs.Token.WrittenNumber
import EquityScreen.Proofs.Predicate.Laws
import EquityScreen.Proofs.Clause.Qualitative
import EquityScreen.Proofs.Draft.Heuristics
import EquityScreen.Proofs.Query.Heuristics
import EquityScreen.Proofs.Table.Columns
import EquityScreen.Proofs.Table.Rows
import EquityScreen.Proofs.Screening.Failure
import EquityScreen.Proofs.Table.Missing
import EquityScreen.Proofs.Table.Writing
import EquityScreen.Proofs.Session.Loosening
import EquityScreen.Proofs.Query.Symbols
import EquityScreen.Proofs.Wording.Rearranged
import EquityScreen.Proofs.Log.Nesting
import EquityScreen.Proofs.Log.Entry
