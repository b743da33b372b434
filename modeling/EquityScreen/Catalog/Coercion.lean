/-
What a literal of a query means as a value of a field: percents become fractions, magnitudes are
multiplied out, sector names become the vocabulary's names. A unit that does not fit the kind of
the field is refused.
-/
import EquityScreen.Catalog
import EquityScreen.Sector
import EquityScreen.UnitMark

namespace EquityScreen

/-- A literal: a number or a text. -/
inductive Literal where
  | number (q : Quantity)
  | text (s : String)
  deriving DecidableEq, Repr

/-- Why a literal has no value on a field. -/
inductive CoercionError where
  | unknownField (key : String)
  | unitMismatch (label unit : String)
  | unknownSector (term : String)
  | unknownMagnitude (mark : String)
  | infiniteWhole
  | fault (f : Quantity.Fault)
  | signallingRatio
  deriving DecidableEq, Repr

/-- The wording of a refusal. -/
def CoercionError.message : CoercionError → String
  | .unknownField key => s!"Unknown field: {key}"
  | .unitMismatch label unit => s!"Unit '{unit}' cannot be applied to {label}"
  | .unknownSector term => s!"Unknown sector: {term}"
  | .unknownMagnitude _ | .infiniteWhole | .fault _ => ""
  | .signallingRatio => "cannot convert signaling NaN to float"

/-- The refusal is no answer to the literal: its value could not be worked out, and reading stops
there. -/
def CoercionError.isBreakdown : CoercionError → Bool
  | .unknownMagnitude _ | .infiniteWhole | .fault _ | .signallingRatio => true
  | .unknownField _ | .unitMismatch .. | .unknownSector _ => false

/-- The double nearest a quantity. -/
def Quantity.toDouble : Quantity → Double
  | .finite d => .ofDecimal d
  | .infinite negative => .infinite negative
  | .nan .. => .nan

namespace Catalog

/-- The quantity of a literal; thousands may be set off by commas. -/
def quantityOf (label : String) : Literal → Except CoercionError Quantity
  | .number q => .ok q
  | .text s =>
    match Quantity.read? (String.ofList (s.toList.filter (· != ','))) with
    | some q => .ok q
    | none => .error (.unitMismatch label "text")

/-- The unit named in a refusal: the mark, or the currency sign when there is no mark. -/
def refusedUnit (unit : Option UnitMark) : String := (unit.map UnitMark.spelling).getD "currency"

/-- Fails unless the only unit, if any, is `allowed`. -/
def onlyUnit (allowed : UnitMark) (label : String) (unit : Option UnitMark) (currency : Bool) :
    Except CoercionError Unit :=
  if currency || (unit.isSome && unit != some allowed) then
    .error (.unitMismatch label (refusedUnit unit))
  else .ok ()

/-- A percentage as a fraction. -/
def coercePercentage (q : Quantity) : Except CoercionError Value :=
  match q.shift (-2) with
  | .ok r => .ok (.number (.double r.toDouble))
  | .error f => .error (.fault f)

/-- A multiple. -/
def coerceRatio : Quantity → Except CoercionError Value
  | .nan _ true _ => .error .signallingRatio
  | q => .ok (.number (.double q.toDouble))

/-- An amount in base units: a whole number when it is integral, else the nearest double. -/
def coerceAmount : Quantity → Except CoercionError Value
  | .finite d =>
    if d.isWhole then .ok (.number (.int d.truncate)) else .ok (.number (.double (.ofDecimal d)))
  | .infinite _ => .error .infiniteWhole
  | .nan _ true _ => .error (.fault .signalling)
  | .nan _ false _ => .ok (.number (.double .nan))

/-- An amount times its magnitude. -/
def scaleAmount (q : Quantity) : Option UnitMark → Except CoercionError Quantity
  | none => .ok q
  | some (.magnitude m) =>
    match q.shift m.places with
    | .ok r => .ok r
    | .error f => .error (.fault f)
  | some unit => .error (.unknownMagnitude unit.spelling)

/-- Fails for a unit that is no magnitude, and for a currency sign on a plain quantity. -/
def amountUnit (f : Field) (unit : Option UnitMark) (currency : Bool) :
    Except CoercionError Unit :=
  if unit == some .percent || unit == some .times then
    .error (.unitMismatch f.label (refusedUnit unit))
  else if currency && f.kind != .currency then .error (.unitMismatch f.label "currency")
  else .ok ()

/-- The sector that a literal names. -/
def coerceSector (label : String) : Literal → Except CoercionError Value
  | .number _ => .error (.unitMismatch label "number")
  | .text s =>
    match Sector.resolve? s true with
    | some sector => .ok (.text sector)
    | none => .error (.unknownSector s)

/-- A text without blanks at its ends; symbols are in capitals. -/
def coerceText (f : Field) (raw : Literal) (unit : Option UnitMark) (currency : Bool) :
    Except CoercionError Value :=
  if unit.isSome || currency then .error (.unitMismatch f.label (refusedUnit unit))
  else
    let s := Text.trim (match raw with | .number q => q.text | .text s => s)
    .ok (.text (if f.key == "symbol" then Text.upper s else s))

/-- The value of a literal on a field. -/
def coerceOn (f : Field) (raw : Literal) (unit : Option UnitMark) (currency : Bool) :
    Except CoercionError Value :=
  match f.kind with
  | .sector => coerceSector f.label raw
  | .text => coerceText f raw unit currency
  | .percentage => do
    let q ← quantityOf f.label raw
    onlyUnit .percent f.label unit currency
    coercePercentage q
  | .ratio => do
    let q ← quantityOf f.label raw
    onlyUnit .times f.label unit currency
    coerceRatio q
  | .currency | .numeric => do
    let q ← quantityOf f.label raw
    amountUnit f unit currency
    let scaled ← scaleAmount q unit
    coerceAmount scaled

/-- The value of a literal on the field with a key. -/
def coerce (c : Catalog) (key : String) (raw : Literal) (unit : Option UnitMark) (currency : Bool) :
    Except CoercionError Value :=
  match c.field? key with
  | none => .error (.unknownField key)
  | some f => coerceOn f raw unit currency

end Catalog

end EquityScreen
