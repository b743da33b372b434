/-
Numbers in a query: an optional currency sign, a numeral whose thousands may be set off by commas in
groups of two or three, and an optional mark of percent, multiple or magnitude. No letter, digit or
underscore may follow directly.

A numeral can often be cut short in several ways. Each piece lists what it may leave over, in order
of preference; the number is the first way through all the pieces that ends well.
-/
import EquityScreen.Token
import EquityScreen.Text.Blank
import EquityScreen.Text.Digit
import EquityScreen.Text.Fold
import EquityScreen.Text.WordChar

namespace EquityScreen
namespace Numeral

open Text

/-- What is left after exactly `n` digits. -/
def dropDigits? : Nat → List Char → Option (List Char)
  | 0, cs => some cs
  | _ + 1, [] => none
  | n + 1, c :: cs => if isDigit c then dropDigits? n cs else none

/-- What may be left after one digit or more, the longest run first; `found` comes after it. -/
def afterDigits : List Char → List (List Char) → List (List Char)
  | [], found => found
  | c :: cs, found => if isDigit c then afterDigits cs (cs :: found) else found

/-- What may be left after groups of a comma and two or three digits, at most `fuel` groups. -/
def afterGroups : Nat → List Char → List (List Char)
  | 0, _ => []
  | fuel + 1, ',' :: cs =>
    [3, 2].flatMap fun n =>
      match dropDigits? n cs with
      | some rest => afterGroups fuel rest ++ [rest]
      | none => []
  | _ + 1, _ => []

/-- What may be left after a whole number, grouped readings first. -/
def afterWhole (cs : List Char) : List (List Char) :=
  ([3, 2, 1].filterMap (dropDigits? · cs)).flatMap (fun r => afterGroups r.length r) ++
    afterDigits cs []

/-- What may be left after a point and digits, or after nothing. -/
def afterFraction (cs : List Char) : List (List Char) :=
  match cs with
  | '.' :: ds => afterDigits ds [cs]
  | _ => [cs]

/-- The characters after an optional sign. -/
def dropSign : List Char → List Char
  | '+' :: cs => cs
  | '-' :: cs => cs
  | cs => cs

/-- What may be left after a numeral. -/
def afterNumeral (cs : List Char) : List (List Char) :=
  let unsigned := dropSign cs
  (afterWhole unsigned).flatMap afterFraction ++
    match unsigned with
    | '.' :: ds => afterDigits ds []
    | _ => []

/-- What may be left after an optional blank, the blank taken first. -/
def afterBlank (cs : List Char) : List (List Char) :=
  match cs with
  | c :: rest => if isBlank c then [rest, cs] else [cs]
  | [] => [cs]

/-- What may be left after a currency sign. -/
def afterCurrency (cs : List Char) : List (List Char) :=
  (match cs with
    | c :: rest => if c == '$' || c == '₹' then [rest] else []
    | [] => []) ++
  (match readWord? "rs".toList cs with
    | some ('.' :: rest) => afterBlank rest ++ ['.' :: rest]
    | some rest => afterBlank rest
    | none => []) ++
  (match readWord? "inr".toList cs with
    | some rest => afterBlank rest
    | none => [])

/-- A mark as it was written. -/
inductive Suffix where
  | percent
  | letter (c : Char)
  | word (spelled : List Char)
  deriving DecidableEq, Repr

/-- The letters that may follow a number directly. -/
def suffixLetters : List Char := 'x' :: Magnitude.letters.map (·.1)

/-- No letter, digit or underscore of the query language comes next. -/
def nameEnds : List Char → Bool
  | [] => true
  | c :: _ => !isNameChar c

/-- A word in any case, complete; gives its characters and what is left. -/
def readSuffix? (cs : List Char) (word : String) : Option (List Char × List Char) :=
  match readWord? word.toList cs with
  | some rest => if wordEnds rest then some (cs.take word.length, rest) else none
  | none => none

/-- The percent sign or a word for it, after any blanks. -/
def afterPercent (cs : List Char) : List (Suffix × List Char) :=
  let cs := cs.dropWhile isBlank
  (match cs with
    | '%' :: rest => [(.percent, rest)]
    | _ => []) ++
  (["percent", "pct"].filterMap (readSuffix? cs)).map fun p => (.percent, p.2)

/-- A letter directly after the number. -/
def afterLetter : List Char → List (Suffix × List Char)
  | [] => []
  | c :: rest =>
    if suffixLetters.contains (foldLetter c) && nameEnds rest then [(.letter c, rest)] else []

/-- A word of magnitude after at most one blank. -/
def afterMagnitude (cs : List Char) : List (Suffix × List Char) :=
  (afterBlank cs).flatMap fun rest =>
    ((Magnitude.words.map (·.1)).filterMap (readSuffix? rest)).map fun p => (.word p.1, p.2)

/-- The marks that may follow a number, and no mark. -/
def afterSuffix (cs : List Char) : List (Option Suffix × List Char) :=
  (afterPercent cs ++ afterLetter cs ++ afterMagnitude cs).map (fun p => (some p.1, p.2)) ++
    [(none, cs)]

/-- A number as it was found: whether a currency sign came first, the numeral, the mark, and what
is left. -/
structure Found where
  currency : Bool
  numeral : List Char
  suffix : Option Suffix
  rest : List Char
  deriving DecidableEq, Repr

/-- The number at the front of a text. -/
def find? (cs : List Char) : Option Found :=
  ((afterCurrency cs).map (true, ·) ++ [(false, cs)]).findSome? fun (currency, start) =>
    (afterNumeral start).findSome? fun afterwards =>
      ((afterSuffix afterwards).find? fun p => nameEnds p.2).map fun (suffix, rest) =>
        ⟨currency, start.take (start.length - afterwards.length), suffix, rest⟩

/-- The exact value of a numeral. -/
def value (cs : List Char) : Decimal :=
  let digits := (dropSign cs).filter (· != ',')
  let whole := digits.takeWhile isDigit
  let fraction := (digits.dropWhile isDigit).drop 1
  ⟨cs.head? == some '-', digitsValue (whole ++ fraction), -(fraction.length : Int)⟩

/-- The mark that a spelling means. A word is looked up in lower case; one that was matched through
a letter that only folds to the right one is in no table. -/
def Suffix.mark? : Suffix → Option UnitMark
  | .percent => some .percent
  | .letter c =>
    let f := foldLetter c
    if f == 'x' then some .times else (Magnitude.letters.lookup f).map .magnitude
  | .word spelled =>
    (Magnitude.words.lookup (lower (String.ofList spelled))).map .magnitude

end Numeral
end EquityScreen
