/-
The values that a log line carries: whatever the program that logs hands over. A datum has a plain
text, in which a text stands as it is, and a quoted text, in which texts stand between quotes; the
parts of a list or a record are always quoted.
-/
import EquityScreen.Number
import EquityScreen.Text.Joined
import EquityScreen.Text.Quoted

namespace EquityScreen.Log

/-- A value of a log line. -/
inductive Datum where
  | none
  | flag (b : Bool)
  | number (n : Number)
  | text (s : String)
  | list (items : List Datum)
  | record (fields : List (String × Datum))
  deriving Inhabited

namespace Datum

mutual
/-- The quoted text of a datum. -/
def quoted : Datum → String
  | .none => "None"
  | .flag b => if b then "True" else "False"
  | .number n => n.text
  | .text s => Text.quoted s
  | .list items => "[" ++ Text.joined ", " (quotedItems items) ++ "]"
  | .record fields => "\x7b" ++ Text.joined ", " (quotedFields fields) ++ "\x7d"
termination_by structural d => d

/-- The quoted texts of the items of a list. -/
def quotedItems : List Datum → List String
  | [] => []
  | d :: ds => d.quoted :: quotedItems ds
termination_by structural ds => ds

/-- The quoted texts of the fields of a record, with their names. -/
def quotedFields : List (String × Datum) → List String
  | [] => []
  | f :: fs => quotedField f :: quotedFields fs
termination_by structural fs => fs

/-- The quoted text of a field. -/
def quotedField : String × Datum → String
  | (key, d) => Text.quoted key ++ ": " ++ d.quoted
termination_by structural f => f
end

/-- The plain text of a datum. -/
def shown : Datum → String
  | .text s => s
  | d => d.quoted

/-- What messages call the kind of a datum. -/
def kind : Datum → String
  | .none => "NoneType"
  | .flag _ => "bool"
  | .number (.int _) => "int"
  | .number (.double _) => "float"
  | .text _ => "str"
  | .list _ => "list"
  | .record _ => "dict"

/-- The whole number that a datum is; a flag is one or zero. -/
def whole? : Datum → Option Int
  | .number (.int n) => some n
  | .flag b => some (if b then 1 else 0)
  | _ => Option.none

end Datum

/-! ## Pairs -/

/-- Named values in order; a name occurs once. -/
abbrev Pairs := List (String × Datum)

namespace Pairs

/-- The pairs with a value for a name: in the place of its old value, or at the end. -/
def put (key : String) (d : Datum) : Pairs → Pairs
  | [] => [(key, d)]
  | (k, old) :: rest => if k = key then (key, d) :: rest else (k, old) :: put key d rest

/-- The pairs with the values of others put in, one after the other. -/
def putAll (pairs others : Pairs) : Pairs :=
  others.foldl (fun acc p => put p.1 p.2 acc) pairs

/-- The value of a name. -/
def value? (pairs : Pairs) (key : String) : Option Datum := pairs.lookup key

@[simp] theorem value?_nil (key : String) : value? [] key = none := rfl

theorem value?_put_self (pairs : Pairs) (key : String) (d : Datum) :
    (pairs.put key d).value? key = some d := by
  induction pairs with
  | nil => simp [put, value?]
  | cons p rest ih =>
    obtain ⟨k, old⟩ := p
    by_cases h : k = key
    · simp [put, value?, h]
    · have hb : (key == k) = false := by simpa using fun e : key = k => h e.symm
      simp only [put, h, if_false, value?, List.lookup_cons, hb]
      exact ih

theorem value?_put_other (pairs : Pairs) {key other : String} (d : Datum) (hne : other ≠ key) :
    (pairs.put key d).value? other = pairs.value? other := by
  induction pairs with
  | nil =>
    have hb : (other == key) = false := by simpa using hne
    simp [put, value?, List.lookup_cons, hb]
  | cons p rest ih =>
    obtain ⟨k, old⟩ := p
    by_cases h : k = key
    · have hb : (other == key) = false := by simpa using hne
      simp only [put, h, if_true, value?, List.lookup_cons, hb]
    · simp only [put, h, if_false, value?, List.lookup_cons]
      split
      · rfl
      · exact ih

end Pairs

end EquityScreen.Log
