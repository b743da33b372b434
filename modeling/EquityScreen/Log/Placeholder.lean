/-
Places for values in a message. A place begins with a percent sign and ends with a letter that says
how a value is written. Between them may stand, in this order: the name of a value between
parentheses, flags, a width, a point with a precision, and a letter of size, which says nothing. A
width or a precision may be an asterisk: then it is the next value.

Whatever is wrong is reported where it is met, so an asterisk without a value comes before a
mistake behind it.
-/
import EquityScreen.Log.Datum
import EquityScreen.Text.Digit

namespace EquityScreen.Log

/-- Why a message cannot be filled in. -/
inductive MessageError where
  | tooFewValues
  | tooManyValues
  /-- A name is asked for and the values have none. -/
  | withoutNames
  | unknownName (name : String)
  | unclosedName
  | unfinished
  /-- The value in the place of an asterisk is no whole number. -/
  | sizeNotWhole
  /-- The value in the place of an asterisk is beyond all sizes. -/
  | sizeTooLarge
  | widthTooLarge
  | precisionTooLarge
  /-- A whole number with more digits than can be written. -/
  | tooManyDigits
  | unsupported (letter : Char) (position : Nat)
  | notReal (letter : Char) (kind : String)
  | notWhole (letter : Char) (kind : String)
  | notFigure (kind : String)
  | figureTooLarge
  | infinite
  | notANumber
  | notCharacter
  | noSuchCharacter
  deriving DecidableEq, Repr

/-- What kind of mistake an error is. -/
inductive Mistake where
  /-- A value is of the wrong kind, or there are too many or too few. -/
  | values
  /-- A name has no value. -/
  | name
  /-- The message or a value cannot be read. -/
  | form
  /-- A number is out of range. -/
  | range
  deriving DecidableEq, Repr

namespace MessageError

/-- The kind of mistake. -/
def mistake : MessageError → Mistake
  | .tooFewValues | .tooManyValues | .withoutNames | .sizeNotWhole | .notReal .. | .notWhole ..
  | .notFigure _ | .notCharacter => .values
  | .unknownName _ => .name
  | .unclosedName | .unfinished | .widthTooLarge | .precisionTooLarge | .unsupported ..
  | .notANumber => .form
  | .sizeTooLarge | .tooManyDigits | .figureTooLarge | .infinite | .noSuchCharacter => .range

/-- A letter as an error names it: only the first 127 code points are shown. -/
def letterShown (c : Char) : Char := if 31 ≤ c.toNat && c.toNat ≤ 126 then c else '?'

/-- The wording of the error. -/
def message : MessageError → String
  | .tooFewValues => "not enough arguments for format string"
  | .tooManyValues => "not all arguments converted during string formatting"
  | .withoutNames => "format requires a mapping"
  | .unknownName name => Text.quoted name
  | .unclosedName => "incomplete format key"
  | .unfinished => "incomplete format"
  | .sizeNotWhole => "* wants int"
  | .sizeTooLarge => "size out of range"
  | .widthTooLarge => "width too big"
  | .precisionTooLarge => "precision too big"
  | .tooManyDigits => "precision too large"
  | .unsupported letter position =>
    s!"unsupported format character '{letterShown letter}' (0x{String.ofList (Nat.toDigits 16 letter.toNat)}) at index {position}"
  | .notReal letter kind => s!"%{letter} format: a real number is required, not {kind}"
  | .notWhole letter kind => s!"%{letter} format: an integer is required, not {kind}"
  | .notFigure kind => s!"must be real number, not {kind}"
  | .figureTooLarge => "int too large to convert to float"
  | .infinite => "cannot convert float infinity to integer"
  | .notANumber => "cannot convert float NaN to integer"
  | .notCharacter => "%c requires int or char"
  | .noSuchCharacter => "%c arg not in range(0x110000)"

end MessageError

/-! ## Values -/

/-- The values that wait for a place, and the names that others may be asked for by. -/
structure Supply where
  names : Option Pairs := none
  waiting : List Datum
  deriving Inhabited

namespace Supply

/-- The supply of some values. A record that is the only value and has fields gives names. -/
def of : List Datum → Supply
  | [.record (f :: fs)] => ⟨some (f :: fs), [.record (f :: fs)]⟩
  | values => ⟨none, values⟩

/-- The next value, and the supply after it. -/
def next (s : Supply) : Except MessageError (Datum × Supply) :=
  match s.waiting with
  | d :: ds => .ok (d, { s with waiting := ds })
  | [] => .error .tooFewValues

/-- The supply with the value of a name as the only one waiting. -/
def ask (s : Supply) (name : String) : Except MessageError Supply :=
  match (s.names.getD []).value? name with
  | some d => .ok { s with waiting := [d] }
  | none => .error (.unknownName name)

/-- No value is left over. Where there are names none counts as left over. -/
def spent (s : Supply) : Bool := s.names.isSome || s.waiting.isEmpty

end Supply

/-! ## Flags and sizes -/

/-- A place for a value. -/
structure Placeholder where
  /-- The value stands at the left of its place. -/
  left : Bool := false
  /-- Numbers have a sign. -/
  signed : Bool := false
  /-- Numbers without a sign have a blank in its place. -/
  blank : Bool := false
  /-- Numbers are written in full: with the mark of their base, or a point, or all zeros. -/
  full : Bool := false
  /-- Numbers are filled up with zeros. -/
  zeros : Bool := false
  width : Option Nat := none
  precision : Option Nat := none
  letter : Char := 's'
  deriving DecidableEq, Repr

/-- The largest width. -/
def largestWidth : Nat := 2 ^ 63 - 1

/-- The largest precision. -/
def largestPrecision : Nat := 2 ^ 31 - 1

/-- The next value as a size of at most so much, of either sign. -/
def Supply.size (s : Supply) (largest : Nat) : Except MessageError (Int × Supply) := do
  let (d, s) ← s.next
  match d.whole? with
  | none => .error .sizeNotWhole
  | some n =>
    if (largest : Int) < n || n < -(largest : Int) - 1 then .error .sizeTooLarge else .ok (n, s)

namespace Placeholder

/-- The place with a flag, if the character is one. -/
def flagged? (p : Placeholder) (c : Char) : Option Placeholder :=
  if c = '-' then some { p with left := true }
  else if c = '+' then some { p with signed := true }
  else if c = ' ' then some { p with blank := true }
  else if c = '#' then some { p with full := true }
  else if c = '0' then some { p with zeros := true }
  else none

/-- Reads flags. -/
def readFlags (p : Placeholder) : List Char → Placeholder × List Char
  | [] => (p, [])
  | c :: cs =>
    match p.flagged? c with
    | some q => q.readFlags cs
    | none => (p, c :: cs)

/-- The characters up to the parenthesis that closes so many others and itself, and the rest. -/
def readName? : Nat → List Char → Option (List Char × List Char)
  | _, [] => none
  | 0, ')' :: cs => some ([], cs)
  | open_ + 1, ')' :: cs => (readName? open_ cs).map fun (name, rest) => (')' :: name, rest)
  | open_, c :: cs =>
    (readName? (if c = '(' then open_ + 1 else open_) cs).map fun (name, rest) => (c :: name, rest)

/-- Reads a name between parentheses, if there is one. -/
def readNamed (s : Supply) : List Char → Except MessageError (Supply × List Char)
  | '(' :: cs =>
    if s.names.isNone then .error .withoutNames
    else match readName? 0 cs with
      | none => .error .unclosedName
      | some (name, rest) => (s.ask (String.ofList name)).map (·, rest)
  | cs => .ok (s, cs)

/-- Reads digits, if there are any. -/
def readDigits? (cs : List Char) : Option (Nat × List Char) :=
  let digits := cs.takeWhile Char.isDigit
  if digits.isEmpty then none else some (Text.digitsValue digits, cs.dropWhile Char.isDigit)

/-- Reads a width, if there is one. A negative one puts the value at the left. -/
def readWidth (p : Placeholder) (s : Supply) :
    List Char → Except MessageError (Placeholder × Supply × List Char)
  | '*' :: cs => do
    let (n, s) ← s.size largestWidth
    return ({ p with width := some n.natAbs, left := p.left || n < 0 }, s, cs)
  | cs =>
    match readDigits? cs with
    | none => .ok (p, s, cs)
    | some (n, rest) =>
      if largestWidth < n then .error .widthTooLarge
      else .ok ({ p with width := some n }, s, rest)

/-- Reads a point and a precision, if there is a point. Without a precision, and with a negative
one, it is zero. -/
def readPrecision (p : Placeholder) (s : Supply) :
    List Char → Except MessageError (Placeholder × Supply × List Char)
  | '.' :: '*' :: cs => do
    let (n, s) ← s.size largestPrecision
    return ({ p with precision := some n.toNat }, s, cs)
  | '.' :: cs =>
    match readDigits? cs with
    | none => .ok ({ p with precision := some 0 }, s, cs)
    | some (n, rest) =>
      if largestPrecision < n then .error .precisionTooLarge
      else .ok ({ p with precision := some n }, s, rest)
  | cs => .ok (p, s, cs)

/-- Passes over a letter of size. -/
def dropSize : List Char → List Char
  | c :: cs => if c = 'h' || c = 'l' || c = 'L' then cs else c :: cs
  | [] => []

/-- Reads a place from behind its percent sign: the place, the values then waiting, and the rest of
the message. -/
def read (s : Supply) (cs : List Char) :
    Except MessageError (Placeholder × Supply × List Char) := do
  let (s, cs) ← readNamed s cs
  let (p, cs) := readFlags {} cs
  let (p, s, cs) ← p.readWidth s cs
  let (p, s, cs) ← p.readPrecision s cs
  match dropSize cs with
  | [] => .error .unfinished
  | letter :: rest => .ok ({ p with letter }, s, rest)

end Placeholder

end EquityScreen.Log
