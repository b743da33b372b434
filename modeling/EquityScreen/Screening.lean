/-
Running a plan over a universe: filter, order, limit, cap.

A plan is checked against the catalog before it is run, so that a bad comparison is found whatever
the universe. Missing values satisfy no comparison and come last in either direction; securities of
equal value keep their order.
-/
import EquityScreen.Catalog
import EquityScreen.Config
import EquityScreen.Plan
import EquityScreen.Sector

namespace EquityScreen

/-- Why a plan cannot be run. -/
inductive ScreenError where
  | unknownField (key : String)
  | unsupported (op : Operator) (label key : String)
  | unevaluable (op : Operator) (key : String)
  | unexpanded (key : String)
  | negativeLimit (limit : Int)
  /-- Texts and numbers have no common order. -/
  | mixedOrder (key : String)
  /-- The sector of a security is a number. -/
  | sectorNotText
  deriving DecidableEq, Repr

namespace ScreenError

/-- The wording of an error. -/
def message : ScreenError → String
  | .unknownField key => s!"Field not in catalog: {key}"
  | .unsupported op label _ => s!"Operator {op.sign} not supported for {label}"
  | .unevaluable op _ => s!"Operator {op.sign} cannot be evaluated directly"
  | .unexpanded _ => "between must be expanded before execution"
  | .negativeLimit limit => s!"Limit must not be negative: {limit}"
  | .mixedOrder _ => "texts and numbers have no common order"
  | .sectorNotText => "the sector is not a text"

/-- The key of the field that an error is about. -/
def field? : ScreenError → Option String
  | .unknownField key | .unsupported _ _ key | .unevaluable _ key | .unexpanded key => some key
  | _ => none

end ScreenError

/-! ## Comparisons -/

/-- Two values of one kind in order: numbers by value, texts by code points. -/
def Value.lt : Value → Value → Bool
  | .number a, .number b => a.lt b
  | .text a, .text b => a < b
  | _, _ => false

/-- `a` is less than or the same as `b`. -/
def Value.le (a b : Value) : Bool := a.lt b || a.same b

namespace Operator

/-- A comparison of two values; `between` compares nothing. A number and a text differ and are in no
order. -/
def holds? (op : Operator) (a b : Value) : Option Bool :=
  match op with
  | .lt => some (a.lt b)
  | .le => some (a.le b)
  | .gt => some (b.lt a)
  | .ge => some (b.le a)
  | .eq => some (a.same b)
  | .ne => some (!a.same b)
  | .between => none

end Operator

/-- The values that a comparison on a field of the kind is about. Texts are compared without regard
to case. -/
def Kind.operand (k : Kind) (v : Value) : Value :=
  if k = .text then .text (Text.lower v.written) else v

/-- A security satisfies a comparison. -/
def Comparison.holds (c : Catalog) (cmp : Comparison) (s : Security) : Except ScreenError Bool :=
  match c.field? cmp.field with
  | none => .error (.unknownField cmp.field)
  | some f =>
    match f.read s with
    | none => .ok false
    | some v =>
      if v.isNaN then .ok false
      else match cmp.op.holds? (f.kind.operand v) (f.kind.operand cmp.value) with
        | some b => .ok b
        | none => .error (.unevaluable cmp.op cmp.field)

/-! ## Filters -/

/-- The sector of a security as it counts for filters. -/
def Security.sector (s : Security) : Except ScreenError String :=
  match s.cell .sector with
  | none => .ok ""
  | some (.text t) => .ok (Sector.normalize t)
  | some (.number n) => if n.same (.int 0) then .ok "" else .error .sectorNotText

/-- A security satisfies a filter. The left side is looked at first, the right side only where it
matters. -/
def Predicate.holds (c : Catalog) : Predicate → Security → Except ScreenError Bool
  | .all, _ => .ok true
  | .compare cmp, s => cmp.holds c s
  | .sectorIn set, s => s.sector.map set.contains
  | .sectorOut set, s => s.sector.map (!set.contains ·)
  | .and p q, s =>
    match p.holds c s with
    | .ok true => q.holds c s
    | r => r
  | .or p q, s =>
    match p.holds c s with
    | .ok false => q.holds c s
    | r => r

/-- The members of a list that pass a test, or the first failure of the test. -/
def select (test : α → Except ε Bool) : List α → Except ε (List α)
  | [] => .ok []
  | a :: as =>
    match test a with
    | .error e => .error e
    | .ok keep => (select test as).map fun rest => if keep then a :: rest else rest

/-! ## Checking -/

/-- The field with a key. -/
def Catalog.require (c : Catalog) (key : String) : Except ScreenError Field :=
  match c.field? key with
  | some f => .ok f
  | none => .error (.unknownField key)

/-- The comparison is one that the field allows. -/
def Catalog.checkOperator (c : Catalog) (key : String) (op : Operator) : Except ScreenError Unit :=
  match c.require key with
  | .error e => .error e
  | .ok f => if f.operators.contains op then .ok () else .error (.unsupported op f.label key)

/-- Every comparison of a filter names a field and is one that the field allows. -/
def Predicate.check (c : Catalog) : Predicate → Except ScreenError Unit
  | .compare cmp =>
    if cmp.op = .between then .error (.unexpanded cmp.field) else c.checkOperator cmp.field cmp.op
  | .and p q | .or p q =>
    match p.check c with
    | .error e => .error e
    | .ok () => q.check c
  | _ => .ok ()

/-- The order, if any, is by a field of the catalog. -/
def checkRanking (c : Catalog) : Option Ranking → Except ScreenError Unit
  | none => .ok ()
  | some o => (c.require o.field).map fun _ => ()

/-- The limit, if any, is not negative. -/
def checkLimit : Option Int → Except ScreenError Unit
  | none => .ok ()
  | some n => if n < 0 then .error (.negativeLimit n) else .ok ()

/-- A plan fits the catalog. -/
def Plan.check (c : Catalog) (p : Plan) : Except ScreenError Unit := do
  p.predicate.check c
  checkRanking c p.sort
  checkLimit p.limit

/-! ## Order and limit -/

/-- The value that a security is ordered by; texts without regard to case. -/
def sortKey (f : Field) (s : Security) : Option Value :=
  match f.read s with
  | some (.text t) => some (.text (Text.lower t))
  | v => v

/-- The first value is strictly before the second; missing values are before nothing. -/
def keyBefore : Option Value → Option Value → Bool
  | some a, some b => a.lt b
  | _, _ => false

/-- Two securities may stand in this order. -/
def inOrder (f : Field) (d : Direction) (a b : Security) : Bool :=
  match d with
  | .ascending => !keyBefore (sortKey f b) (sortKey f a)
  | .descending => !keyBefore (sortKey f a) (sortKey f b)

/-- Values of both kinds occur. -/
def mixed (f : Field) (rows : List Security) : Bool :=
  rows.any (fun s => match f.read s with | some (.text _) => true | _ => false) &&
    rows.any (fun s => match f.read s with | some (.number _) => true | _ => false)

/-- Securities in the order of a field, those without a value last. -/
def sortBy (f : Field) (d : Direction) (rows : List Security) : Except ScreenError (List Security) :=
  let present := rows.filter fun s => !isMissing (f.read s)
  let missing := rows.filter fun s => isMissing (f.read s)
  if mixed f present then .error (.mixedOrder f.key)
  else .ok (present.mergeSort (inOrder f d) ++ missing)

/-- Securities in the order of a plan. -/
def sortRows (c : Catalog) (rows : List Security) : Option Ranking → Except ScreenError (List Security)
  | none => .ok rows
  | some o =>
    match c.require o.field with
    | .error e => .error e
    | .ok f => sortBy f o.direction rows

/-- The rows within a limit, from the front or from the end. -/
def limitRows (limit : Option Int) (fromBottom : Bool) (rows : List α) : List α :=
  match limit with
  | none => rows
  | some n => if fromBottom then rows.drop (rows.length - n.toNat) else rows.take n.toNat

/-! ## Running -/

/-- The rows of a plan, the number of matches before limit and cap, and whether the cap left some
out. -/
structure Screened where
  rows : List Security
  total : Nat
  capped : Bool

/-- Runs a plan. -/
def screen (c : Catalog) (maxResults : Int) (securities : List Security) (p : Plan) :
    Except ScreenError Screened := do
  p.check c
  let found ← select (p.predicate.holds c) securities
  let sorted ← sortRows c found p.sort
  let limited := limitRows p.limit p.fromBottom sorted
  let capped := maxResults < limited.length
  return { rows := if capped then takeSigned maxResults limited else limited,
           total := found.length, capped }

/-! ## Selectivity -/

/-- How many securities of how many pass a clause on its own. -/
structure Selectivity where
  clause : Predicate
  passing : Int
  size : Int

/-- The share of securities that pass; of none, zero. -/
def Selectivity.ratio (s : Selectivity) : Double :=
  if s.size = 0 then .zero false
  else .ofRatio (s.passing < 0) (s.passing.natAbs * stepsPerOne) s.size.natAbs

/-- The selectivity of each clause, in order of the clauses. -/
def clauseCounts (c : Catalog) (securities : List Security) :
    List Predicate → Except ScreenError (List Selectivity)
  | [] => .ok []
  | p :: ps => do
    let passing ← select (p.holds c) securities
    let rest ← clauseCounts c securities ps
    return ⟨p, passing.length, securities.length⟩ :: rest

/-- The selectivity of each top clause of a plan, tightest first; equal ones in the order of the
clauses. -/
def selectivity (c : Catalog) (securities : List Security) (p : Plan) :
    Except ScreenError (List Selectivity) :=
  (clauseCounts c securities p.predicate.conjuncts).map fun l =>
    l.mergeSort fun a b => a.passing ≤ b.passing

end EquityScreen
