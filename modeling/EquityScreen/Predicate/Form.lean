/-
The form of a filter: what is left of it when the order, the grouping and the repetition of its
parts are forgotten. A set of sectors counts as an alternative of single sectors, an excluded set
as a conjunction. Two filters of one form select the same securities.
-/
import EquityScreen.Predicate

namespace EquityScreen

/-- A form. The parts of `both` and `either` are sets: their order and repetition do not count. -/
inductive Form where
  | all
  | compare (c : Comparison)
  | sector (name : String)
  | notSector (name : String)
  | both (parts : List Form)
  | either (parts : List Form)

/-- Values of one form: the same text, or numbers of the same value. -/
def Value.same : Value → Value → Bool
  | .number a, .number b => a.same b
  | .text a, .text b => a == b
  | _, _ => false

namespace Form

mutual
/-- Equality of forms. -/
def same : Form → Form → Bool
  | .all, .all => true
  | .compare a, .compare b => a.field == b.field && a.op == b.op && a.value.same b.value
  | .sector a, .sector b => a == b
  | .notSector a, .notSector b => a == b
  | .both as, .both bs => allIn as bs && bs.all (fun b => hasOne as b)
  | .either as, .either bs => allIn as bs && bs.all (fun b => hasOne as b)
  | _, _ => false
termination_by structural f => f

/-- Every form of the first list is the same as one of the second. -/
def allIn : List Form → List Form → Bool
  | [], _ => true
  | a :: as, bs => bs.any (fun b => same a b) && allIn as bs
termination_by structural fs => fs

/-- One of the list is the same as the form. -/
def hasOne : List Form → Form → Bool
  | [], _ => false
  | a :: as, b => same a b || hasOne as b
termination_by structural fs => fs
end

/-- The list with each form once. -/
def distinct : List Form → List Form
  | [] => []
  | a :: as => let rest := distinct as; if hasOne rest a then rest else a :: rest

/-- A set of parts under a connective, or the part itself when there is just one. -/
def bundle (connective : List Form → Form) (parts : List Form) : Form :=
  match distinct parts with
  | [a] => a
  | as => connective as

/-- The parts that a form has under `and`. -/
def bothParts : Form → List Form
  | .both parts => parts
  | .all => []
  | f => [f]

/-- The parts that a form has under `or`. -/
def eitherParts : Form → List Form
  | .either parts => parts
  | f => [f]

end Form

/-- The form of a filter. -/
def Predicate.form : Predicate → Form
  | .all => .all
  | .compare c => .compare c
  | .sectorIn s => Form.bundle .either (s.names.map .sector)
  | .sectorOut s => Form.bundle .both (s.names.map .notSector)
  | .and l r => Form.bundle .both (l.form.bothParts ++ r.form.bothParts)
  | .or l r => Form.bundle .either (l.form.eitherParts ++ r.form.eitherParts)

/-- Two filters of one form. -/
def Predicate.sameForm (p q : Predicate) : Bool := p.form.same q.form

end EquityScreen
