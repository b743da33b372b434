/-
Names in a row of tokens: fields of the catalog, sectors, and lists of sectors. The longest name
wins.
-/
import EquityScreen.Catalog.Coercion
import EquityScreen.Token
import EquityScreen.Vocabulary

namespace EquityScreen
namespace Clause

/-- The most words in the name of a field, and of a sector. -/
def fieldWords : Nat := 4
def sectorWords : Nat := 3

/-- The numbers from `n` down to one. -/
def countdown : Nat → List Nat
  | 0 => []
  | n + 1 => (n + 1) :: countdown n

/-- A word without meaning of its own. -/
def isFiller (t : Token) : Bool := t.isName && Vocabulary.fillers.contains t.word

/-- The next token is the keyword. -/
def nextIs (k : Keyword) : List Token → Bool
  | [] => false
  | t :: _ => t.isKeyword k

/-- The next token is a comparison. -/
def compareNext : List Token → Bool
  | [] => false
  | t :: _ => t.isCompare

/-- The first `n` tokens as words in lower case: an ordinary word, and then ordinary words and
keywords. -/
def words? (ts : List Token) (n : Nat) : Option (List String) :=
  match ts.take n with
  | [] => none
  | t :: more =>
    if more.length + 1 = n && t.isName && more.all (fun u => u.isName || isKeywordToken u) then
      some ((t :: more).map (·.word))
    else none
where
  /-- A keyword of any kind. -/
  isKeywordToken (t : Token) : Bool :=
    match t.content with
    | .keyword _ => true
    | _ => false

/-- The longest name at the front, of at most `most` words, and the number of its words. -/
def longest? (most : Nat) (meaning? : String → Option α) (ts : List Token) : Option (α × Nat) :=
  (countdown most).findSome? fun n => do
    let ws ← words? ts n
    let a ← meaning? (Text.joined " " ws)
    return (a, n)

/-- The field that a name means in a query; the empty key means none. -/
def fieldNamed? (c : Catalog) (name : String) : Option Field := do
  let key ← c.resolve? name
  if key == "" then none else c.field? key

/-- The field at the front, and the number of its words. -/
def fieldAt? (c : Catalog) (ts : List Token) : Option (Field × Nat) :=
  longest? fieldWords (fieldNamed? c) ts

/-- A word that asks for a sector before it comes next. -/
def anchorNext : List Token → Bool
  | [] => false
  | t :: _ => t.isKeyword .sector || (t.isName && Vocabulary.anchors.contains t.word)

/-- The first `n` tokens as a term that may name a sector: one quoted phrase, or words, among which
"and" may stand. -/
def sectorTerm? (ts : List Token) (n : Nat) : Option String :=
  match ts.take n with
  | [] => none
  | t :: more =>
    if more.length + 1 < n then none
    else match t.content with
      | .quoted phrase => if n = 1 then some phrase else none
      | .name =>
        if more.all (fun u => u.isName || u.isKeyword .and) then some (Token.joinedText (t :: more))
        else none
      | _ => none

/-- The sector at the front, and the number of its tokens. -/
def sectorAt? (ts : List Token) (anchored : Bool) : Option (String × Nat) :=
  (countdown sectorWords).findSome? fun n => do
    let term ← sectorTerm? ts n
    let sector ← Sector.resolve? term (anchored || anchorNext (ts.drop n))
    return (sector, n)

/-- The next token is the article. -/
def articleNext : List Token → Bool
  | [] => false
  | t :: _ => t.isName && t.word == "the"

/-- The next token separates the sectors of a list. -/
def separatorNext : List Token → Bool
  | [] => false
  | t :: _ => t.content == .comma || t.isKeyword .and || t.isKeyword .or

/-- The sectors of a list from its front on, after those found already, and the number of tokens
up to the last of them. -/
def sectorsFrom (anchored : Bool) : Nat → List Token → List String → List String × Nat
  | 0, _, found => (found, 0)
  | fuel + 1, ts, found =>
    let article := if articleNext ts then 1 else 0
    match sectorAt? (ts.drop article) anchored with
    | none => (found, 0)
    | some (sector, n) =>
      let found := if found.contains sector then found else found ++ [sector]
      let used := article + n
      let rest := ts.drop used
      if separatorNext rest && (sectorAt? (rest.drop 1) anchored).isSome then
        match sectorsFrom anchored fuel (rest.drop 1) found with
        | (found, 0) => (found, used)
        | (found, more) => (found, used + 1 + more)
      else (found, used)

/-- One if the keyword "sector" comes next, else zero. -/
def sectorWord (ts : List Token) : Nat := if nextIs .sector ts then 1 else 0

/-- The list of sectors at the front with the keyword that may follow it, and the number of
tokens. -/
def sectorList (ts : List Token) (anchored : Bool) : List String × Nat :=
  let (names, used) := sectorsFrom anchored ts.length ts []
  if names.isEmpty then ([], 0) else (names, used + sectorWord (ts.drop used))

end Clause
end EquityScreen
