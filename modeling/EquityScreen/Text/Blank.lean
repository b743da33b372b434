/-
Blank characters: those that separate words and are trimmed from both ends of a text.
`splitWords` cuts a text at its blanks, and its words hold no blank.
-/
namespace EquityScreen.Text

/-- Space, tab and line characters, the four information separators, and the spaces of other
scripts. -/
def isBlank (c : Char) : Bool :=
  let n := c.toNat
  (9 ≤ n && n ≤ 13) || (28 ≤ n && n ≤ 32) || n == 0x85 || n == 0xa0 || n == 0x1680 ||
    (0x2000 ≤ n && n ≤ 0x200a) || n == 0x2028 || n == 0x2029 || n == 0x202f || n == 0x205f || n == 0x3000

/-- The characters without the blanks at either end. -/
def trimChars (cs : List Char) : List Char :=
  ((cs.dropWhile isBlank).reverse.dropWhile isBlank).reverse

/-- A blank that is no information separator. -/
def isWhite (c : Char) : Bool := isBlank c && !(28 ≤ c.toNat && c.toNat ≤ 31)

/-- The characters without the blanks at either end, information separators being no blanks. -/
def trimWhite (cs : List Char) : List Char :=
  ((cs.dropWhile isWhite).reverse.dropWhile isWhite).reverse

/-- The text without the blanks at either end. -/
def trim (s : String) : String := String.ofList (trimChars s.toList)

/-- The longest runs of characters other than blanks, in order. -/
def splitWords : List Char → List (List Char)
  | [] => []
  | c :: cs =>
    if isBlank c then splitWords cs
    else match cs, splitWords cs with
      | d :: _, w :: ws => if isBlank d then [c] :: w :: ws else (c :: w) :: ws
      | _, ws => [c] :: ws

/-- The text with its words one space apart and no blank at either end. -/
def respace (s : String) : String :=
  String.ofList ([' '].intercalate (splitWords s.toList))

/-- True of a text that holds nothing but blanks. -/
def isBlankText (s : String) : Bool := s.toList.all isBlank

end EquityScreen.Text
