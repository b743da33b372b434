/-
Reading clauses: `read` takes the clause at the front of a row of tokens, whatever the tokens are.
Every reading takes up at least one token, so reading to the end needs no more readings than there
are tokens.
-/
import EquityScreen.Clause.Compare
import EquityScreen.Text.Fold

namespace EquityScreen
namespace Clause

/-- The tokens skipped for a reason. -/
def skip (ts : List Token) (n : Nat) (reason : String) : Clause × Nat :=
  (.skipped ⟨Token.joinedText (ts.take n), reason⟩, n)

/-- The direction said in so many words, else `default`; and the number of tokens. -/
def directionAt (default : Direction) : List Token → Direction × Nat
  | t :: _ =>
    if t.isKeyword .ascending then (.ascending, 1)
    else if t.isKeyword .descending then (.descending, 1)
    else (default, 0)
  | [] => (default, 0)

/-! ## Words -/

/-- The order that a superlative asks for: a ready-made order, or by the field after it. The first
token is the superlative. -/
def superlative? (c : Catalog) (d : Direction) (ts : List Token) : Option (Clause × Nat) :=
  let named := Clause.longest? Vocabulary.orderWords (Vocabulary.orders.lookup ·) (ts.drop 1)
  match named with
  | some (o, n) =>
    let direction := if d = .ascending then o.direction.flipped else o.direction
    some (.order { o with direction }, n + 1)
  | none => (fieldAt? c (ts.drop 1)).map fun (f, n) => (.order ⟨f.key, d⟩, n + 1)

/-- A hyphen counts as a space in a phrase. -/
def unhyphenated (s : String) : String :=
  String.ofList (s.toList.map fun ch => if ch == '-' then ' ' else ch)

/-- A qualitative phrase at the front; before a comparison it is none. -/
def phrase? (c : Catalog) (ts : List Token) : Option (Clause × Nat) := do
  let (terms, n) ← longest? Vocabulary.phraseWords (Vocabulary.phrase? <| unhyphenated ·) ts
  if compareNext (ts.drop n) then none
  else do
    let p ← Vocabulary.termsPredicate? c terms
    return (.heuristic (Token.joinedText (ts.take n)) p, n)

/-- A qualitative word before a field; before a comparison it is none. -/
def quality? (c : Catalog) (ts : List Token) (q : Vocabulary.Quality) : Option (Clause × Nat) := do
  let (f, n) ← fieldAt? c (ts.drop 1)
  if compareNext (ts.drop (n + 1)) then none
  else match q.operator? f, f.threshold with
    | some op, some threshold =>
      return (.heuristic (Token.joinedText (ts.take (n + 1)))
        (.compare ⟨f.key, op, .number threshold⟩), n + 1)
    | _, _ => return skip ts (n + 1) s!"no default threshold for {f.label}"

/-- A field at the front, its name `n` tokens long: a comparison, an order, or nothing usable. -/
def fieldClause (f : Field) (n : Nat) (ts : List Token) : Clause × Nat :=
  match ts.drop n with
  | [] => skip ts n "no comparison given"
  | t :: _ =>
    match t.content with
    | .compare op => readComparison f n op ts
    | .keyword .ascending => (.order ⟨f.key, .ascending⟩, n + 1)
    | .keyword .descending => (.order ⟨f.key, .descending⟩, n + 1)
    | _ => skip ts n "no comparison given"

/-- An "or" is the next token that means something. -/
def orAhead (ts : List Token) : Bool := nextIs .or (ts.dropWhile isFiller)

/-- The clause of a list of sectors that takes up the first `n` tokens. -/
def sectorClause (names : List String) (n : Nat) (ts : List Token) : Clause × Nat :=
  (.sectors names (orAhead (ts.drop n)), n)

/-- What is left to try when no other reading fits: a sector, a word without meaning, or an unknown
term. -/
def plainWord (t : Token) (ts : List Token) : Clause × Nat :=
  match sectorList ts false with
  | ([], _) =>
    if Vocabulary.fillers.contains t.word || (Vocabulary.qualities.lookup t.word).isSome then (.filler, 1)
    else skip ts 1 "unrecognized term"
  | (names, n) => sectorClause names n ts

/-- The clause that starts with an ordinary word; `t` is the first of the tokens `ts`. -/
def readWord (c : Catalog) (t : Token) (ts : List Token) : Clause × Nat :=
  ((Vocabulary.superlatives.lookup t.word).bind (superlative? c · ts) <|>
    phrase? c ts <|>
    (Vocabulary.qualities.lookup t.word).bind (quality? c ts) <|>
    (fieldAt? c ts).map fun (f, n) => fieldClause f n ts).getD (plainWord t ts)

/-! ## Keywords -/

/-- A word in capitals that may be a symbol, when a reading took up nothing but it. -/
def symbolOf? (t : Token) (used : Nat) : Option String :=
  if used = 1 && Text.isUpper t.text && t.text.toList.all Text.isQueryAlnum then
    some (Text.upper (Text.trim t.text))
  else none

/-- The opposite of the clause after an exclude word and the words that belong to it, `n` tokens. -/
def reverse (c : Catalog) (n : Nat) (ts : List Token) : Clause × Nat :=
  let start := n + ((ts.drop n).takeWhile isFiller).length
  match ts.drop start with
  | [] => skip ts start "nothing to exclude"
  | t :: more =>
    if t.isName then
      let (operand, used) := readWord c t (t :: more)
      (.reversed operand (Token.joinedText (ts.take (start + used))) (symbolOf? t used), start + used)
    else skip ts start "nothing to exclude"

/-- After an exclude word: sectors to leave out, or a clause to reverse. -/
def exclude (c : Catalog) (ts : List Token) : Clause × Nat :=
  let start := if nextIs .inside (ts.drop 1) then 2 else 1
  let start := start + sectorWord (ts.drop start)
  match sectorList (ts.drop start) true with
  | ([], _) => reverse c start ts
  | (names, n) => (.excludedSectors names, start + n)

/-- After "in": sectors. -/
def inside (ts : List Token) : Clause × Nat :=
  let start := 1 + sectorWord (ts.drop 1)
  match sectorList (ts.drop start) true with
  | ([], _) => (.filler, start)
  | (names, n) => sectorClause names (start + n) ts

/-- The order by the field that follows, if any; `n` tokens come before it. -/
def orderBy (c : Catalog) (default : Direction) (n : Nat) (ts : List Token) : List Clause × Nat :=
  match fieldAt? c (ts.drop n) with
  | none => ([], n)
  | some (f, m) =>
    let (direction, k) := directionAt default (ts.drop (n + m))
    ([.order ⟨f.key, direction⟩], n + m + k)

/-- The order by the field that follows unless a comparison comes after the field. -/
def orderUnlessCompared (c : Catalog) (default : Direction) (n : Nat) (ts : List Token) :
    List Clause × Nat :=
  match fieldAt? c (ts.drop n) with
  | none => ([], n)
  | some (_, m) => if compareNext (ts.drop (n + m)) then ([], n) else orderBy c default n ts

/-- After "top" or "bottom": a count, with or without a field to order by, or a field alone. The
lowest of a field are the first in ascending order. -/
def limitClause (c : Catalog) (bottom : Bool) (ts : List Token) : List Clause × Nat :=
  let default : Direction := if bottom then .ascending else .descending
  match ts.drop 1 with
  | [] => ([], 1)
  | t :: _ =>
    match t.content with
    | .number d unit _ =>
      if unit.isSome || !d.isWhole || d.negative || d.coefficient = 0 then
        let (s, n) := skip ts 2 "limit must be a whole number"
        ([s], n)
      else
        let ordered :=
          if nextIs .by (ts.drop 2) then orderBy c default 3 ts else orderUnlessCompared c default 2 ts
        (.limit d.truncate.toNat (bottom && ordered.1.isEmpty) :: ordered.1, ordered.2)
    | _ => orderUnlessCompared c default 1 ts

/-- The clauses that start with a keyword. -/
def readKeyword (c : Catalog) (k : Keyword) (ts : List Token) : List Clause × Nat :=
  match k with
  | .and => ([.mark .and], 1)
  | .or => ([.mark .or], 1)
  | .exclude => single (exclude c ts)
  | .inside => single (inside ts)
  | .top => limitClause c false ts
  | .bottom => limitClause c true ts
  | .ascending => orderOnly .ascending
  | .descending => orderOnly .descending
  | .sort => orderBy c .descending (if nextIs .by (ts.drop 1) then 2 else 1) ts
  | .by => orderBy c .descending 1 ts
  | .sector =>
    match ts.drop 1 with
    | t :: _ =>
      match t.content, c.field? "sector" with
      | .compare op, some f => single (readComparison f 1 op ts)
      | _, _ => ([.filler], 1)
    | [] => ([.filler], 1)
  | .help | .clear => ([.filler], 1)
where
  /-- One clause. -/
  single (r : Clause × Nat) : List Clause × Nat := ([r.1], r.2)
  /-- The order by the field after a direction. -/
  orderOnly (d : Direction) : List Clause × Nat :=
    match fieldAt? c (ts.drop 1) with
    | none => ([], 1)
    | some (f, n) => ([.order ⟨f.key, d⟩], n + 1)

/-! ## Everything -/

/-- A comparison without a field takes the number or the word after it along. -/
def strayComparison : List Token → Nat
  | t :: _ =>
    match t.content with
    | .number .. | .name => 2
    | _ => 1
  | [] => 1

/-- The clauses at the front of the tokens `t :: ts`. -/
def read (c : Catalog) (t : Token) (ts : List Token) : Reading :=
  let tokens := t :: ts
  let one (r : Clause × Nat) : Reading := ⟨[r.1], r.2⟩
  match t.content with
  | .comma | .refinement _ => ⟨[], 1⟩
  | .openParen => ⟨[.mark .opening], 1⟩
  | .closeParen => ⟨[.mark .closing], 1⟩
  | .keyword k => let (clauses, n) := readKeyword c k tokens; ⟨clauses, n⟩
  | .number .. => one (skip tokens 1 "number without a field")
  | .compare _ => one (skip tokens (strayComparison ts) "comparison without a field")
  | .quoted phrase =>
    match Sector.resolve? phrase true with
    | some sector => one (sectorClause [sector] 1 tokens)
    | none => one (skip tokens 1 "unrecognized phrase")
  | .name => one (readWord c t tokens)

end Clause
end EquityScreen
