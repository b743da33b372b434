/-
A screening session: queries are answered in turn, each in the light of the screen before it.

Whatever is wrong with the text of a query is part of the answer. A query fails only when its plan
cannot be run or put into words, or its text cannot be read; a query that fails, and one
that is answered with help or with an error, leaves the memory of the session as it was.
-/
import EquityScreen.Advice
import EquityScreen.Query
import EquityScreen.Session.Columns
import EquityScreen.Session.Context

namespace EquityScreen

/-- What kind of answer a response is. -/
inductive ResponseKind where
  | screener | help | error
  deriving DecidableEq, Repr

/-- An answer to a query. -/
structure Response where
  kind : ResponseKind := .screener
  rows : List Security := []
  columns : List String := []
  interpretation : String := ""
  suggestions : List String := []
  total : Nat := 0

/-- Why a query has no answer. -/
inductive Failure where
  | lex (e : ReadError)
  | screen (e : ScreenError)
  | wording (e : WordingError)
  deriving DecidableEq

/-- The answer to a text that could not be understood. -/
def Response.notUnderstood (text : String) : Response where
  kind := .error
  interpretation := EquityScreen.notUnderstood text
  suggestions := exampleQueries

/-- The answer to a refinement of nothing. -/
def Response.nothingStanding (e : NothingStanding) : Response where
  kind := .error
  interpretation := e.message
  suggestions := exampleQueries

/-- The answer to a call for help. -/
def Response.guide (c : Catalog) : Response where
  kind := .help
  interpretation := EquityScreen.guide c

/-- The answer to a fresh start. -/
def Response.cleared : Response where
  kind := .help
  interpretation := "Context cleared. Start a new screen."

/-- A session in progress. -/
structure Session where
  catalog : Catalog
  config : Config
  securities : List Security
  context : Context

/-- One thing that happens in a session. -/
inductive Event where
  | query (text : String)
  /-- A query that was read elsewhere. -/
  | asked (q : Query)
  | clear
  /-- From here on there are other securities. -/
  | provide (securities : List Security)

namespace Session

/-- A session that nothing happened in. -/
def new (catalog : Catalog) (config : Config) (securities : List Security) :
    Except CapacityError Session :=
  (Context.new config.historySize).map fun context => { catalog, config, securities, context }

/-- The tightest clauses of a plan that nothing matches. -/
def tightest (s : Session) (base : List Security) (p : Plan) (total : Nat) :
    Except ScreenError (List Selectivity) :=
  if total = 0 then selectivity s.catalog base p else .ok []

/-- Runs a plan and gives an account of it. -/
def answerPlan (s : Session) (q : Query) (r : Resolved) : Except Failure Response := do
  let base := r.base.getD s.securities
  let found ← (screen s.catalog s.config.maxResults base r.plan).mapError .screen
  let clauses ← (s.tightest base r.plan found.total).mapError .screen
  let account ← (Account.of s.catalog s.config r.plan q.intent found.total q.skipped q.heuristics
    clauses).mapError .wording
  return { rows := found.rows, columns := r.plan.columns s.config.maxColumns,
           interpretation := account.interpretation, suggestions := account.suggestions,
           total := found.total }

/-- Answers a screen or a refinement, and remembers it. -/
def answerScreen (s : Session) (q : Query) : Except Failure Response × Context :=
  match s.context.resolve q.intent q.plan with
  | .error e => (.ok (.nothingStanding e), s.context)
  | .ok r =>
    match s.answerPlan q r with
    | .error e => (.error e, s.context)
    | .ok response => (.ok response, s.context.record r.plan response.rows)

/-- Answers a query that was read. -/
def answerQuery (s : Session) (q : Query) : Except Failure Response × Context :=
  match q.intent with
  | .help => (.ok (.guide s.catalog), s.context)
  | .clear => (.ok .cleared, s.context.cleared)
  | _ => s.answerScreen q

/-- Answers a text. -/
def answerText (s : Session) (text : String) : Except Failure Response × Context :=
  if Text.trim text == "" then (.ok (.notUnderstood text), s.context)
  else match Query.parse s.catalog text with
    | .error (.lex e) => (.error (.lex e), s.context)
    | .error (.empty _) => (.ok (.notUnderstood text), s.context)
    | .ok q => s.answerQuery q

/-- The session after an answer. -/
def remember (s : Session) (answer : Except Failure Response × Context) :
    Option (Except Failure Response) × Session :=
  (some answer.1, { s with context := answer.2 })

/-- What an event is answered with, if it is a query, and the session after it. -/
def step (s : Session) : Event → Option (Except Failure Response) × Session
  | .query text => s.remember (s.answerText text)
  | .asked q => s.remember (s.answerQuery q)
  | .clear => (none, { s with context := s.context.cleared })
  | .provide securities => (none, { s with securities })

/-- What events are answered with, one after the other, and the session after them. -/
def run (s : Session) : List Event → List (Option (Except Failure Response)) × Session
  | [] => ([], s)
  | e :: es =>
    let (answer, next) := s.step e
    let (answers, last) := next.run es
    (answer :: answers, last)

end Session

end EquityScreen
