/-
Cutting a query into tokens. At each place the first pattern that fits wins: blanks, quoted text, a
number, a comparison, a word, then punctuation; a character that fits none is passed over. A
refinement mark counts only at the very start.

Patterns disregard case. A phrase or a magnitude matched through a letter that only folds to the
right one (a dotless i, a long s) is in no table, and cutting fails there.
-/
import EquityScreen.Token.Numeral

namespace EquityScreen

/-- A spelling that a pattern lets through and no table lists. -/
inductive LexError where
  | unlisted (spelling : String)
  deriving DecidableEq, Repr

namespace Scan

open Text

/-- The content of a pattern that fits, and what is left after it. Blanks have no content. -/
structure Piece where
  content : Option Content
  rest : List Char
  deriving DecidableEq, Repr

/-- What a pattern finds at a place. -/
abbrev Outcome := Option (Except LexError Piece)

/-- A run of blanks. -/
def blanks? : List Char → Outcome
  | c :: cs => if isBlank c then some (.ok ⟨none, cs.dropWhile isBlank⟩) else none
  | [] => none

/-- Text up to a closing quote. -/
def upTo? (close : Char) (cs : List Char) : Option (List Char × List Char) :=
  match cs.dropWhile (· != close) with
  | _ :: rest => some (cs.takeWhile (· != close), rest)
  | [] => none

/-- The piece of a quoted phrase. -/
def phrasePiece (inner rest : List Char) : Except LexError Piece :=
  .ok ⟨some (.quoted (String.ofList (trimChars inner))), rest⟩

/-- The character is a letter or digit of the query language. -/
def isAlnumAt : Option Char → Bool
  | some c => isQueryAlnum c
  | none => false

/-- Quoted text: between straight or curly double quotes, or between apostrophes that hold something
and have no letter or digit on their outer sides. -/
def quoted? (before : Option Char) : List Char → Outcome
  | '\x22' :: cs => (upTo? '\x22' cs).map fun p => phrasePiece p.1 p.2
  | '“' :: cs => (upTo? '”' cs).map fun p => phrasePiece p.1 p.2
  | '\x27' :: cs =>
    if isAlnumAt before then none
    else match upTo? '\x27' cs with
      | some (inner, rest) =>
        if inner.isEmpty || isAlnumAt rest.head? then none else some (phrasePiece inner rest)
      | none => none
  | _ => none

/-- The piece of a number. -/
def numberPiece (f : Numeral.Found) : Except LexError Piece :=
  match f.suffix with
  | none => .ok ⟨some (.number (Numeral.value f.numeral) none f.currency), f.rest⟩
  | some s =>
    match s.mark? with
    | some unit => .ok ⟨some (.number (Numeral.value f.numeral) (some unit) f.currency), f.rest⟩
    | none =>
      .error (.unlisted (match s with | .word spelled => String.ofList spelled | _ => ""))

/-- A number. -/
def number? (cs : List Char) : Outcome := (Numeral.find? cs).map numberPiece

/-- A comparison sign. -/
def sign? (cs : List Char) : Outcome :=
  Operator.signs.findSome? fun (s, op) =>
    if s.toList.isPrefixOf cs then some (.ok ⟨some (.compare op), cs.drop s.length⟩) else none

/-- The words of a phrase in any case, blanks between them. -/
def readPhrase? : List (List Char) → List Char → Option (List Char)
  | [], cs => some cs
  | [w], cs => readWord? w cs
  | w :: ws, cs =>
    match readWord? w cs with
    | some (c :: rest) => if isBlank c then readPhrase? ws (rest.dropWhile isBlank) else none
    | _ => none

/-- A comparison in words. -/
def phrase? (cs : List Char) : Outcome :=
  Operator.phrases.findSome? fun (s, _) =>
    match readPhrase? (splitWords s.toList) cs with
    | some rest =>
      if wordEnds rest then
        let spelled := respace (lower (String.ofList (cs.take (cs.length - rest.length))))
        some (match Operator.phrases.lookup spelled with
          | some op => .ok ⟨some (.compare op), rest⟩
          | none => .error (.unlisted spelled))
      else none
    | none => none

/-- A word is a keyword if it spells one. -/
def wordContent (spelled : List Char) : Content :=
  match Keyword.ofSpelling? (lower (String.ofList spelled)) with
  | some k => .keyword k
  | none => .name

/-- A word. -/
def word? : List Char → Outcome
  | c :: cs =>
    if isNameChar c then
      some (.ok ⟨some (wordContent (c :: cs.takeWhile isNameTail)), cs.dropWhile isNameTail⟩)
    else none
  | [] => none

/-- Punctuation. -/
def punctuation? : List Char → Outcome
  | '&' :: '&' :: cs => some (.ok ⟨some (wordContent ['&', '&']), cs⟩)
  | '&' :: cs => some (.ok ⟨some (wordContent ['&']), cs⟩)
  | ',' :: cs => some (.ok ⟨some .comma, cs⟩)
  | '(' :: cs => some (.ok ⟨some .openParen, cs⟩)
  | ')' :: cs => some (.ok ⟨some .closeParen, cs⟩)
  | _ => none

/-- The first pattern that fits at a place; `before` is the character in front of it. -/
def piece? (before : Option Char) (cs : List Char) : Outcome :=
  blanks? cs <|> quoted? before cs <|> number? cs <|> sign? cs <|> phrase? cs <|> word? cs <|>
    punctuation? cs

/-- The tokens from a place on, in at most `fuel` steps. -/
def tokensFrom : Nat → Option Char → Nat → List Char → Except LexError (List Token)
  | 0, _, _, _ => .ok []
  | _ + 1, _, _, [] => .ok []
  | fuel + 1, before, position, c :: cs =>
    match piece? before (c :: cs) with
    | none => tokensFrom fuel (some c) (position + 1) cs
    | some (.error e) => .error e
    | some (.ok ⟨content, rest⟩) =>
      let slice := (c :: cs).take (cs.length + 1 - rest.length)
      let further := tokensFrom fuel slice.getLast? (position + slice.length) rest
      match content with
      | none => further
      | some content => further.map (⟨content, String.ofList slice, position⟩ :: ·)

/-- The text is over or goes on with a blank. -/
def pauses : List Char → Bool
  | [] => true
  | c :: _ => isBlank c

/-- A refinement mark at the start of a query, blanks before it: a plus sign and a number that stands
alone. Gives the token and what is left. -/
def refinement? (cs : List Char) : Option (Token × List Char) :=
  match cs.dropWhile isBlank with
  | '+' :: rest =>
    let digits := rest.takeWhile isDigit
    let afterwards := rest.dropWhile isDigit
    if digits.isEmpty || !pauses afterwards then none
    else
      let position := cs.length - rest.length - 1
      some (⟨.refinement (digitsValue digits), String.ofList ('+' :: digits), position⟩, afterwards)
  | _ => none

end Scan

/-- The tokens of a query. -/
def tokenize (text : String) : Except LexError (List Token) :=
  let cs := text.toList
  match Scan.refinement? cs with
  | some (t, rest) =>
    (Scan.tokensFrom rest.length t.text.toList.getLast? (cs.length - rest.length) rest).map (t :: ·)
  | none => Scan.tokensFrom cs.length none 0 cs

end EquityScreen
