/-
Reading a query: requests for help and for a fresh start are recognised first, everything else is
cut into tokens and read clause by clause. A query without a single usable clause is refused, and
so is one with a number too large to be worked out.
-/
import EquityScreen.Draft
import EquityScreen.Token.Scan

namespace EquityScreen

/-- A query as it was understood. -/
structure Query where
  intent : Intent
  plan : Plan := {}
  skipped : List Skipped := []
  heuristics : List Heuristic := []
  clauseCount : Nat := 0
  text : String := ""

/-- Why a text cannot be read to its end: it cannot be cut into tokens, or one of its numbers cannot
be worked out. -/
inductive ReadError where
  | spelling (e : LexError)
  | breakdown (e : CoercionError)
  deriving DecidableEq, Repr

instance : Coe LexError ReadError := ⟨.spelling⟩

/-- Why a query was refused: it cannot be read, or nothing of it is usable. -/
inductive QueryError where
  | lex (e : ReadError)
  | empty (text : String)
  deriving DecidableEq, Repr

/-- The wording of a refusal. -/
def QueryError.message : QueryError → String
  | .lex _ => ""
  | .empty _ => "No screening clause could be understood"

namespace Query

open Text

/-! ## Requests -/

/-- The text after the first of the phrases that it starts with, in any case. -/
def afterOneOf (phrases : List String) (cs : List Char) : Option (List Char) :=
  phrases.findSome? fun p => readWord? p.toList cs

/-- Only the marks, with blanks around them, are left. -/
def onlyMarks (marks : List Char) (most : Option Nat) (cs : List Char) : Bool :=
  let cs := cs.dropWhile isBlank
  let run := cs.takeWhile marks.contains
  (match most with | some n => run.length ≤ n | none => true) &&
    (cs.dropWhile marks.contains).all isBlank

/-- A text that is nothing but a call for help. -/
def isBareHelp (cs : List Char) : Bool :=
  let cs := cs.dropWhile isBlank
  match cs with
  | '?' :: _ => onlyMarks ['?', '.', '!'] none (cs.dropWhile (· == '?'))
  | _ =>
    match afterOneOf ["help", "syntax"] cs with
    | some rest => onlyMarks ['?', '.', '!'] none rest
    | none => false

/-- "How do I" or "how to", as words, at a place. -/
def asksHow (before : Option Char) (cs : List Char) : Bool :=
  !(before.map isWordChar).getD false &&
    ["how do i", "how to"].any fun p =>
      match readWord? p.toList cs with
      | some rest => wordEnds rest
      | none => false

/-- "How do I" or "how to", as words, anywhere. -/
def asksHowFrom (before : Option Char) : List Char → Bool
  | [] => false
  | c :: cs => asksHow before (c :: cs) || asksHowFrom (some c) cs

/-- A text that asks for help. -/
def asksForHelp (cs : List Char) : Bool := isBareHelp cs || asksHowFrom none cs

/-- What follows blanks, of which there is one at least. -/
def afterBlanks? : List Char → Option (List Char)
  | c :: cs => if isBlank c then some (cs.dropWhile isBlank) else none
  | [] => none

/-- What a fresh start may be asked for: everything, the filters, the history, and so on. -/
def afterObject? (cs : List Char) : Option (List Char) := do
  let cs ← afterBlanks? cs
  let cs := ((afterOneOf ["the"] cs).bind afterBlanks?).getD cs
  afterOneOf ["context", "session", "history", "all", "everything", "filters"] cs

/-- A text that asks for a fresh start. -/
def asksToClear (cs : List Char) : Bool :=
  match afterOneOf ["clear", "reset", "start over", "new session"] (cs.dropWhile isBlank) with
  | none => false
  | some rest => onlyMarks ['.', '!'] (some 1) ((afterObject? rest).getD rest)

/-- The request of tokens that hold one keyword and otherwise words without meaning. -/
def request? (ts : List Token) : Option Intent :=
  match ts.filter (!Clause.isFiller ·) with
  | [t] => if t.isKeyword .help then some .help else if t.isKeyword .clear then some .clear else none
  | _ => none

/-! ## Plans -/

/-- The intent that the first token announces, and the tokens after the announcement. -/
def announced : List Token → Intent × List Token
  | [] => (.newScreen, [])
  | t :: ts =>
    match t.content with
    | .refinement n => (.refinement (some n), ts)
    | _ => (.newScreen, t :: ts)

/-- Reads tokens. -/
def ofTokens (c : Catalog) (ts : List Token) : Except QueryError Query :=
  match request? ts with
  | some intent => .ok { intent }
  | none =>
    let (intent, rest) := announced ts
    let d := Draft.ofTokens c rest
    match d.breakdown with
    | some e => .error (.lex (.breakdown e))
    | none =>
      if d.clauseCount = 0 then .error (.empty (Token.joinedText ts))
      else .ok { intent, plan := d.plan, skipped := d.skipped, heuristics := d.heuristics,
                 clauseCount := d.clauseCount }

/-- Reads a text. -/
def parse (c : Catalog) (text : String) : Except QueryError Query :=
  let cs := text.toList
  if asksForHelp cs then .ok { intent := .help, text }
  else if asksToClear cs then .ok { intent := .clear, text }
  else match tokenize text with
    | .error e => .error (.lex e)
    | .ok ts =>
      match ofTokens c ts with
      | .ok q => .ok { q with text }
      | .error e => .error e

end Query

end EquityScreen
