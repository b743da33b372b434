/-
Queryable fields: what a field is called, which attribute it reads, what kind of values it has,
which comparisons it allows, and where its qualitative threshold lies.
-/
import EquityScreen.Security
import EquityScreen.Text.Case

namespace EquityScreen

/-- The comparisons of the query language. -/
inductive Operator where
  | lt | le | gt | ge | eq | ne | between
  deriving DecidableEq, Repr

namespace Operator

/-- The sign of a comparison. -/
def sign : Operator → String
  | .lt => "<"
  | .le => "<="
  | .gt => ">"
  | .ge => ">="
  | .eq => "="
  | .ne => "!="
  | .between => "between"

/-- All comparisons. -/
def all : List Operator := [.lt, .le, .gt, .ge, .eq, .ne, .between]

/-- The comparison that holds of known values exactly when this one does not; `between` has
none. -/
def negated? : Operator → Option Operator
  | .lt => some .ge
  | .ge => some .lt
  | .gt => some .le
  | .le => some .gt
  | .eq => some .ne
  | .ne => some .eq
  | .between => none

theorem negated?_negated? {a b : Operator} (h : a.negated? = some b) : b.negated? = some a := by
  cases a <;> simp [negated?] at h <;> subst h <;> rfl

end Operator

/-- Kinds of fields. Percentages are stored as fractions and typed as percents, currencies are in
base units, ratios are multiples. -/
inductive Kind where
  | numeric | percentage | currency | ratio | sector | text
  deriving DecidableEq, Repr

namespace Kind

/-- The name of a kind. -/
def name : Kind → String
  | .numeric => "numeric"
  | .percentage => "percentage"
  | .currency => "currency"
  | .ratio => "ratio"
  | .sector => "enum_sector"
  | .text => "text"

/-- All kinds. -/
def all : List Kind := [.numeric, .percentage, .currency, .ratio, .sector, .text]

/-- Fields of the kind hold figures. -/
def isNumeric : Kind → Bool
  | .sector | .text => false
  | _ => true

/-- The comparisons that a built-in field of the kind allows. -/
def operators (k : Kind) : List Operator := if k.isNumeric then Operator.all else [.eq, .ne]

end Kind

/-- What is said of a field apart from the attribute that it reads. -/
structure FieldInfo where
  key : String
  label : String
  kind : Kind
  aliases : List String
  operators : List Operator := kind.operators
  description : String := ""
  /-- The value that "low" and "high" are measured by. -/
  threshold : Option Number := none
  /-- Whether large values are the favourable ones, where that can be said. -/
  higherIsBetter : Option Bool := none
  deriving DecidableEq

/-- A field of the catalog. -/
structure Field extends FieldInfo where
  attr : Attribute
  deriving DecidableEq

/-- A field put forward for registration; its column may name no attribute. -/
structure Proposal extends FieldInfo where
  column : String
  deriving DecidableEq

namespace FieldInfo

/-- Every name of a field, in lower case. -/
def names (f : FieldInfo) : List String :=
  Text.lower f.key :: Text.lower f.label :: f.aliases.map Text.lower

end FieldInfo

/-- The value of a field in a security. -/
def Field.read (f : Field) (s : Security) : Option Value := s.cell f.attr

end EquityScreen
