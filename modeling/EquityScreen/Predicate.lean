/-
Filters of a screen: comparisons of fields with values, sector sets, and their combinations.
-/
import EquityScreen.Field
import EquityScreen.SectorSet

namespace EquityScreen

/-- A field compared with a value in canonical units. -/
structure Comparison where
  field : String
  op : Operator
  value : Value
  deriving DecidableEq

/-- A filter. -/
inductive Predicate where
  /-- Holds of every security. -/
  | all
  | compare (c : Comparison)
  /-- The sector is one of the set. -/
  | sectorIn (s : SectorSet)
  /-- The sector is none of the set. -/
  | sectorOut (s : SectorSet)
  | and (left right : Predicate)
  | or (left right : Predicate)
  deriving DecidableEq, Inhabited

namespace Predicate

/-- The comparisons of a filter, left to right. -/
def comparisons : Predicate → List Comparison
  | .compare c => [c]
  | .and l r | .or l r => l.comparisons ++ r.comparisons
  | _ => []

/-- The keys of the fields that a filter refers to, left to right. -/
def fields : Predicate → List String
  | .all => []
  | .compare c => [c.field]
  | .sectorIn _ | .sectorOut _ => ["sector"]
  | .and l r | .or l r => l.fields ++ r.fields

/-- Both filters; the filter that holds of everything is left out. -/
def conjoin : Predicate → Predicate → Predicate
  | .all, q => q
  | p, .all => p
  | p, q => .and p q

/-- Either filter; the filter that holds of everything absorbs the other. -/
def disjoin : Predicate → Predicate → Predicate
  | .all, _ => .all
  | _, .all => .all
  | p, q => .or p q

/-- The filters that all have to hold, left to right. -/
def conjuncts : Predicate → List Predicate
  | .and l r => l.conjuncts ++ r.conjuncts
  | .all => []
  | p => [p]

/-- Why a filter has no complement: it holds of everything, or it uses a comparison without one. -/
inductive NegationError where
  | holdsAlways
  | withoutComplement (op : Operator)
  deriving DecidableEq, Repr

/-- The wording of the error. -/
def NegationError.message : NegationError → String
  | .holdsAlways => "Cannot negate predicate: TruePredicate()"
  | .withoutComplement _ => ""

/-- The complement, pushed down to the comparisons. A security with a missing value satisfies
neither side. -/
def negate : Predicate → Except NegationError Predicate
  | .all => .error .holdsAlways
  | .compare c =>
    match c.op.negated? with
    | some op => .ok (.compare { c with op })
    | none => .error (.withoutComplement c.op)
  | .sectorIn s => .ok (.sectorOut s)
  | .sectorOut s => .ok (.sectorIn s)
  | .and l r => do
    let p ← l.negate
    let q ← r.negate
    return disjoin p q
  | .or l r => do
    let p ← l.negate
    let q ← r.negate
    return conjoin p q

end Predicate

end EquityScreen
