/-
Comparisons: a field, a comparison, and a value or two. A comparison that cannot be read is skipped
with its value, and the reading goes on behind it; only a number that cannot be worked out stops it.
-/
import EquityScreen.Clause
import EquityScreen.Clause.Names

namespace EquityScreen
namespace Clause

/-- Fails as a clause. -/
def ofCoercion : Except CoercionError Value → Except ClauseError Value
  | .ok v => .ok v
  | .error e => .error (.coercion e)

/-- The value of a field at the front of the tokens, and the number of tokens. -/
def readValue (f : Field) (ts : List Token) : Except ClauseError (Value × Nat) :=
  match ts with
  | [] => .error .noValue
  | t :: _ =>
    if f.kind = .sector then
      match sectorAt? ts true with
      | some (sector, n) => .ok (.text sector, n)
      | none => .error (.unknownSector t.text)
    else match t.content with
      | .number d unit currency => do
        let v ← ofCoercion (Catalog.coerceOn f (.number (.finite d)) unit currency)
        return (v, 1)
      | .name =>
        if f.kind = .text then do
          let v ← ofCoercion (Catalog.coerceOn f (.text t.text) none false)
          return (v, 1)
        else .error (.unexpectedValue f.label t.text)
      | .quoted phrase =>
        if f.kind = .text then do
          let v ← ofCoercion (Catalog.coerceOn f (.text phrase) none false)
          return (v, 1)
        else .error (.unexpectedValue f.label t.text)
      | _ => .error (.unexpectedValue f.label t.text)

/-- One if a word that joins two bounds comes next, else zero. -/
def joiner : List Token → Nat
  | [] => 0
  | t :: _ => if t.isKeyword .and || (t.isName && t.word == "to") then 1 else 0

/-- The filter for values from `a` to `b`, whichever is the smaller. -/
def range (f : Field) (a b : Number) : Predicate :=
  let (low, high) := if b.lt a then (b, a) else (a, b)
  Predicate.conjoin (.compare ⟨f.key, .ge, .number low⟩) (.compare ⟨f.key, .le, .number high⟩)

/-- Two bounds and the number of their tokens. -/
def readBetween (f : Field) (ts : List Token) : Except ClauseError (Predicate × Nat) := do
  let (first, n) ← readValue f ts
  let second := n + joiner (ts.drop n)
  let (last, m) ← readValue f (ts.drop second)
  match first, last with
  | .number a, .number b => return (range f a b, second + m)
  | _, _ => throw .betweenTexts

/-- The filter that a field, a comparison and a value make. Comparisons of the sector field are
sector sets. -/
def comparison (f : Field) (op : Operator) (v : Value) : Predicate :=
  if f.key == "sector" then
    if op = .ne then .sectorOut (.ofList [v.written]) else .sectorIn (.ofList [v.written])
  else .compare ⟨f.key, op, v⟩

/-- The filter that a comparison with the tokens after it makes, and the number of tokens after the
comparison. -/
def readFilter (f : Field) (op : Operator) (ts : List Token) :
    Except ClauseError (Predicate × Nat) :=
  if op = .between then readBetween f ts
  else do
    let (v, n) ← readValue f ts
    if f.operators.contains op then return (comparison f op v, n)
    else throw (.unsupported op f.label)

/-- The tokens that belong to a value that cannot be read: numbers and quoted texts, or one word. -/
def badValueLength (ts : List Token) : Nat :=
  let run := ts.takeWhile fun t =>
    match t.content with
    | .number .. | .quoted _ => true
    | _ => false
  if run.isEmpty then
    match ts with
    | t :: _ => if t.isName then 1 else 0
    | [] => 0
  else run.length

/-- The comparison whose field takes up the first `n` tokens and whose sign comes next. -/
def readComparison (f : Field) (n : Nat) (op : Operator) (ts : List Token) : Clause × Nat :=
  let values := ts.drop (n + 1)
  match readFilter f op values with
  | .ok (p, used) => (.filter p, n + 1 + used)
  | .error e =>
    let used := n + 1 + badValueLength values
    match e.breakdown? with
    | some broken => (.breakdown broken, used)
    | none => (.skipped ⟨Token.joinedText (ts.take used), e.message⟩, used)

end Clause
end EquityScreen
