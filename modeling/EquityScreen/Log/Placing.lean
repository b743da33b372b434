/-
How a value is written in its place. The letter of the place chooses the form: a text, a whole
number to the base ten, eight or sixteen, a figure with a point or a power of ten, or a single
character.

Whatever the form, the value fills at least the width of its place. It stands at the right unless
the place says otherwise; zeros go between the sign of a number and its digits, blanks outside.
-/
import EquityScreen.Double.Places
import EquityScreen.Log.Placeholder

namespace EquityScreen.Log

/-- A form that values are written in. -/
inductive Form where
  | plain | quoted | plainOnly
  | decimal | octal
  | hexadecimal (capitals : Bool)
  | scientific (capitals : Bool)
  | fixed (capitals : Bool)
  | general (capitals : Bool)
  | character
  deriving DecidableEq, Repr

/-- The form that a letter stands for. -/
def Form.ofLetter? : Char → Option Form
  | 's' => some .plain
  | 'r' => some .quoted
  | 'a' => some .plainOnly
  | 'd' | 'i' | 'u' => some .decimal
  | 'o' => some .octal
  | 'x' => some (.hexadecimal false)
  | 'X' => some (.hexadecimal true)
  | 'e' => some (.scientific false)
  | 'E' => some (.scientific true)
  | 'f' => some (.fixed false)
  | 'F' => some (.fixed true)
  | 'g' => some (.general false)
  | 'G' => some (.general true)
  | 'c' => some .character
  | _ => none

/-- What goes into a place. -/
structure Piece where
  /-- A number, which may be filled up with zeros. -/
  numeric : Bool := false
  sign : List Char := []
  /-- The mark of the base of a number. -/
  mark : List Char := []
  body : List Char
  deriving DecidableEq, Repr

/-- Small letters as capitals, where those are asked for. -/
def inCapitals (asked : Bool) (cs : List Char) : List Char :=
  if asked then cs.map Char.toUpper else cs

namespace Placeholder

/-- The sign of a number in a place. -/
def sign (p : Placeholder) (negative : Bool) : List Char :=
  if negative then ['-'] else if p.signed then ['+'] else if p.blank then [' '] else []

/-- A text in a place: at most as many characters as the precision says. -/
def textPiece (p : Placeholder) (s : String) : Piece where
  body :=
    match p.precision with
    | some n => s.toList.take n
    | none => s.toList

/-- The most digits that a whole number is written with. -/
def mostDigits : Nat := 2 ^ 31 - 4

/-- A whole number in a place, with at least as many digits as the precision says. -/
def wholePiece (p : Placeholder) (base : Nat) (mark : List Char) (n : Int) :
    Except MessageError Piece :=
  let least := p.precision.getD 0
  if mostDigits < least then .error .tooManyDigits
  else .ok {
    numeric := true
    sign := p.sign (n < 0)
    mark := if p.full then mark else []
    body := Double.zeroFilled least (Nat.toDigits base n.natAbs) }

/-- The whole number of a datum to the base ten: the whole part of a number. -/
def wholePart (p : Placeholder) (d : Datum) : Except MessageError Int :=
  match d with
  | .number (.double .nan) => .error .notANumber
  | .number (.double x) =>
    match x.whole? with
    | some n => .ok n
    | none => .error .infinite
  | d =>
    match d.whole? with
    | some n => .ok n
    | none => .error (.notReal p.letter d.kind)

/-- The whole number of a datum to another base, where nothing is cut off. -/
def wholeExactly (p : Placeholder) (d : Datum) : Except MessageError Int :=
  match d.whole? with
  | some n => .ok n
  | none => .error (.notWhole p.letter d.kind)

/-- The double of a datum. -/
def figureOf (d : Datum) : Except MessageError Double :=
  match d with
  | .number (.double x) => .ok x
  | d =>
    match d.whole? with
    | none => .error (.notFigure d.kind)
    | some n =>
      match Double.ofInt n with
      | .infinite _ => .error .figureTooLarge
      | x => .ok x

/-- The digits after the point, or in all, unless a place says otherwise. -/
def usualPrecision : Nat := 6

/-- A figure in a place, its digits written by `chars`. -/
def figurePiece (p : Placeholder) (chars : Bool → Nat → Nat → List Char) (d : Datum) :
    Except MessageError Piece :=
  (figureOf d).map fun
    | .nan => { numeric := true, sign := p.sign false, body := "nan".toList }
    | .infinite negative => { numeric := true, sign := p.sign negative, body := "inf".toList }
    | .finite negative steps _ _ =>
      { numeric := true, sign := p.sign negative,
        body := chars p.full (p.precision.getD usualPrecision) steps }

/-- What stands for the code points that are no characters. -/
def replacement : Char := '\ufffd'

/-- The character with a code point. -/
def characterAt (n : Int) : Except MessageError Char :=
  if n < 0 || 0x110000 ≤ n then .error .noSuchCharacter
  else if n.toNat.isValidChar then .ok (Char.ofNat n.toNat)
  else .ok replacement

/-- The character that a datum is or is the code point of. -/
def characterOf (d : Datum) : Except MessageError Char :=
  match d with
  | .text s =>
    match s.toList with
    | [c] => .ok c
    | _ => .error .notCharacter
  | d =>
    match d.whole? with
    | some n => characterAt n
    | none => .error .notCharacter

/-- A piece with its letters as capitals, where those are asked for. -/
def capitalised (asked : Bool) (piece : Piece) : Piece :=
  { piece with mark := inCapitals asked piece.mark, body := inCapitals asked piece.body }

/-- A datum in the form of a place. -/
def piece (p : Placeholder) (form : Form) (d : Datum) : Except MessageError Piece :=
  match form with
  | .plain => .ok (p.textPiece d.shown)
  | .quoted => .ok (p.textPiece d.quoted)
  | .plainOnly => .ok (p.textPiece (Text.plainOnly d.quoted))
  | .decimal => p.wholePart d >>= p.wholePiece 10 []
  | .octal => p.wholeExactly d >>= p.wholePiece 8 ['0', 'o']
  | .hexadecimal capitals =>
    (p.wholeExactly d >>= p.wholePiece 16 ['0', 'x']).map (capitalised capitals)
  | .scientific capitals => (p.figurePiece Double.scientificChars d).map (capitalised capitals)
  | .fixed capitals => (p.figurePiece Double.fixedChars d).map (capitalised capitals)
  | .general capitals => (p.figurePiece Double.generalChars d).map (capitalised capitals)
  | .character => (characterOf d).map fun c => { body := [c] }

/-- A piece filled up to the width of a place. -/
def fitted (p : Placeholder) (piece : Piece) : List Char :=
  let front := piece.sign ++ piece.mark
  let gap := p.width.getD 0 - (front.length + piece.body.length)
  if p.left then front ++ piece.body ++ List.replicate gap ' '
  else if p.zeros && piece.numeric then front ++ List.replicate gap '0' ++ piece.body
  else List.replicate gap ' ' ++ front ++ piece.body

/-- **A value fills exactly its place, unless it is longer.** -/
theorem length_fitted (p : Placeholder) (piece : Piece) :
    (p.fitted piece).length =
      max (p.width.getD 0) (piece.sign.length + piece.mark.length + piece.body.length) := by
  unfold fitted
  dsimp only
  split
  · simp only [List.length_append, List.length_replicate]; omega
  · split <;> simp only [List.length_append, List.length_replicate] <;> omega

/-- A datum in a place whose letter stands at a position. -/
def placed (p : Placeholder) (position : Nat) (d : Datum) : Except MessageError (List Char) :=
  match Form.ofLetter? p.letter with
  | none => .error (.unsupported p.letter position)
  | some form => (p.piece form d).map p.fitted

end Placeholder

end EquityScreen.Log
