/-
What log lines say about the session and the query that they belong to. Contexts are entered and
left like nested blocks: while one is open its ids and pairs are in force and nothing of the ones
around it; when it is left, what was in force before is restored.
-/
import EquityScreen.Log.Datum

namespace EquityScreen.Log

/-- The ids and pairs in force. -/
structure Scope where
  session : String := ""
  query : String := ""
  pairs : Pairs := []

/-- An id with its name, unless it is empty. -/
def named (name id : String) : Pairs := if id = "" then [] else [(name, .text id)]

/-- What a scope adds to a log line: its ids, and its pairs over them. -/
def Scope.bound (s : Scope) : Pairs :=
  Pairs.putAll (named "session_id" s.session ++ named "query_id" s.query) s.pairs

/-- An open context: its number, its own pairs, and the scope that was in force before it. -/
structure Block where
  number : Nat
  own : Pairs
  before : Scope

/-- The scope in force, the open contexts, innermost first, and the number of contexts so far. -/
structure Nesting where
  scope : Scope := {}
  blocks : List Block := []
  entered : Nat := 0

namespace Nesting

/-- Enters a context; one without a query id is given a fresh one. -/
def enter (n : Nesting) (fresh session query : String) (pairs : Pairs) : Nesting where
  scope := ⟨session, if query = "" then fresh else query, pairs⟩
  blocks := ⟨n.entered, pairs, n.scope⟩ :: n.blocks
  entered := n.entered + 1

/-- Adds pairs to what is in force, and to the own pairs of the context with a number. -/
def bindAt (n : Nesting) (number : Nat) (pairs : Pairs) : Nesting where
  scope := { n.scope with pairs := Pairs.putAll n.scope.pairs pairs }
  blocks := n.blocks.map fun b =>
    if b.number = number then { b with own := Pairs.putAll b.own pairs } else b
  entered := n.entered

/-- Adds pairs to the innermost context. -/
def bind (n : Nesting) (pairs : Pairs) : Nesting :=
  match n.blocks with
  | [] => n
  | b :: _ => n.bindAt b.number pairs

/-- Leaves the innermost context. -/
def leave (n : Nesting) : Nesting :=
  match n.blocks with
  | [] => n
  | b :: bs => { n with scope := b.before, blocks := bs }

end Nesting

end EquityScreen.Log
