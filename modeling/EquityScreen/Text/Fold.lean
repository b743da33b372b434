/-
Comparing letters of the query language without regard to case. The words of the language are
written in the letters a to z; a query may use any letter whose case folds to one of them. Beyond
the capitals these are the dotted capital and the dotless small i, the long s, and the Kelvin sign.
-/
namespace EquityScreen.Text

/-- The letter of the query language that a character stands for, or the character itself. -/
def foldLetter (c : Char) : Char :=
  if 'A' ≤ c && c ≤ 'Z' then Char.ofNat (c.toNat + 32)
  else if c == '\u0130' || c == '\u0131' then 'i'
  else if c == '\u017f' then 's'
  else if c == '\u212a' then 'k'
  else c

/-- A letter or ASCII digit of the query language. -/
def isQueryAlnum (c : Char) : Bool :=
  let f := foldLetter c
  ('a' ≤ f && f ≤ 'z') || ('0' ≤ f && f ≤ '9')

/-- A character that can start a name in a query. -/
def isNameChar (c : Char) : Bool := isQueryAlnum c || c == '_'

/-- A character that can continue a name in a query. -/
def isNameTail (c : Char) : Bool := isNameChar c || c == '/' || c == '&' || c == '-'

/-- Reads `word`, written in small letters, from the front of `cs` in any case and gives what
follows it. -/
def readWord? : List Char → List Char → Option (List Char)
  | [], cs => some cs
  | _ :: _, [] => none
  | w :: ws, c :: cs => if foldLetter c == w then readWord? ws cs else none

/-- What `readWord?` leaves is shorter than the text by the length of the word. -/
theorem readWord?_length {word cs rest : List Char} (h : readWord? word cs = some rest) :
    rest.length + word.length = cs.length := by
  induction word generalizing cs with
  | nil => simp [readWord?] at h; simp [h]
  | cons w ws ih =>
    cases cs with
    | nil => simp [readWord?] at h
    | cons c cs =>
      simp only [readWord?] at h
      split at h
      · have := ih h; simp only [List.length_cons]; omega
      · simp at h

end EquityScreen.Text
