/-
Lower and upper case of a whole text, by the full rules of Unicode: a letter may become several
characters, and a capital sigma at the end of a word becomes the final small sigma.
-/
import EquityScreen.Text.CaseTable

namespace EquityScreen.Text

/-- The other-case letter that the first fitting run gives. -/
def shiftBy (runs : List CaseRun) (n : Nat) : Nat :=
  (runs.findSome? (·.image? n)).getD n

/-- A letter that has case. -/
def isCased (c : Char) : Bool := within casedRanges c.toNat

/-- A mark that is passed over when looking for a cased neighbour. -/
def isCaseIgnorable (c : Char) : Bool := within caseIgnorableRanges c.toNat

/-- The next character that counts for case has case. -/
def casedNext (cs : List Char) : Bool :=
  match cs.dropWhile isCaseIgnorable with
  | [] => false
  | c :: _ => isCased c

/-- Lower case of `c` between the characters `before`, nearest first, and `after`. -/
def lowerChar (before : List Char) (c : Char) (after : List Char) : List Char :=
  if c.toNat < 128 then [if 'A' ≤ c && c ≤ 'Z' then Char.ofNat (c.toNat + 32) else c]
  else if c == '\u03a3' then
    [if casedNext before && !casedNext after then '\u03c2' else '\u03c3']
  else if c == '\u0130' then ['i', '\u0307']
  else [Char.ofNat (shiftBy lowerRuns c.toNat)]

/-- Lower case of `cs` after the characters `before`, nearest first. -/
def lowerFrom (before : List Char) : List Char → List Char
  | [] => []
  | c :: cs => lowerChar before c cs ++ lowerFrom (c :: before) cs

/-- The text in lower case. -/
def lower (s : String) : String := String.ofList (lowerFrom [] s.toList)

/-- Upper case of one character. -/
def upperChar (c : Char) : List Char :=
  if c.toNat < 128 then [if 'a' ≤ c && c ≤ 'z' then Char.ofNat (c.toNat - 32) else c]
  else match upperExpansions.find? (·.1 == c.toNat) with
    | some (_, ns) => ns.map Char.ofNat
    | none => [Char.ofNat (shiftBy upperRuns c.toNat)]

/-- The text in upper case. -/
def upper (s : String) : String := String.ofList (s.toList.flatMap upperChar)

/-- A text in capitals: it has a letter with a lower case and none with an upper case. -/
def isUpper (s : String) : Bool :=
  s.toList.any (fun c => lowerChar [] c [] != [c]) && s.toList.all (fun c => upperChar c == [c])

end EquityScreen.Text
