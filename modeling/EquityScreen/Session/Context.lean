/-
What a session remembers: the standing screen, that is the latest plan with the rows it gave, and
the latest plans, newest first.

A refinement is added to the standing plan: its filters join the standing ones, its order and its
limit, if it has one, replace the standing ones. It screens the standing rows and not the universe.
-/
import EquityScreen.Plan

namespace EquityScreen

/-- The plan with a refinement added. -/
def Plan.refinedBy (p r : Plan) : Plan where
  predicate := p.predicate.conjoin r.predicate
  sort := r.sort <|> p.sort
  limit := r.limit <|> p.limit
  fromBottom := if r.limit.isSome then r.fromBottom else p.fromBottom

/-- A plan and the rows that it gave. -/
structure Standing where
  plan : Plan
  rows : List Security

/-- The memory of a session. -/
structure Context where
  capacity : Nat
  standing : Option Standing := none
  history : List Plan := []
  bounded : history.length ≤ capacity := by exact Nat.zero_le _

/-- Why a number of plans cannot be remembered. -/
inductive CapacityError where
  | negative
  | outOfRange
  deriving DecidableEq, Repr

/-- The wording of the refusal. -/
def CapacityError.message : CapacityError → String
  | .negative => "maxlen must be non-negative"
  | .outOfRange => ""

/-- A refinement was asked for and nothing stands; the number is that of the refinement. -/
structure NothingStanding where
  index : Int
  deriving DecidableEq, Repr

/-- The wording of the refusal. -/
def NothingStanding.message (e : NothingStanding) : String :=
  s!"Nothing to refine with +{e.index}: run a screen first"

/-- A plan ready to be run, with the rows it runs on where they are not the universe. -/
structure Resolved where
  plan : Plan
  base : Option (List Security)

namespace Context

/-- The most plans that a context can be asked to remember. -/
def greatestCapacity : Int := 2 ^ 63 - 1

/-- A context without memories, for so many plans. -/
def new (historySize : Int) : Except CapacityError Context :=
  if greatestCapacity < historySize || historySize < -greatestCapacity - 1 then .error .outOfRange
  else if historySize < 0 then .error .negative
  else .ok { capacity := historySize.toNat }

/-- The context without its memories. -/
def cleared (ctx : Context) : Context := { capacity := ctx.capacity }

/-- The context after a plan gave rows. -/
def record (ctx : Context) (plan : Plan) (rows : List Security) : Context where
  capacity := ctx.capacity
  standing := some ⟨plan, rows⟩
  history := (plan :: ctx.history).take ctx.capacity
  bounded := by simp only [List.length_take]; omega

@[simp] theorem standing_cleared (ctx : Context) : ctx.cleared.standing = none := rfl

@[simp] theorem history_cleared (ctx : Context) : ctx.cleared.history = [] := rfl

@[simp] theorem capacity_cleared (ctx : Context) : ctx.cleared.capacity = ctx.capacity := rfl

@[simp] theorem standing_record (ctx : Context) (plan : Plan) (rows : List Security) :
    (ctx.record plan rows).standing = some ⟨plan, rows⟩ := rfl

@[simp] theorem history_record (ctx : Context) (plan : Plan) (rows : List Security) :
    (ctx.record plan rows).history = (plan :: ctx.history).take ctx.capacity := rfl

@[simp] theorem capacity_record (ctx : Context) (plan : Plan) (rows : List Security) :
    (ctx.record plan rows).capacity = ctx.capacity := rfl

/-- The number that a refinement is refused with: its own, or one when it has none. -/
def refusedIndex (index : Option Int) : Int :=
  match index with
  | none => 1
  | some n => if n = 0 then 1 else n

/-- What a plan amounts to under its intent. -/
def resolve (ctx : Context) (intent : Intent) (plan : Plan) : Except NothingStanding Resolved :=
  match intent with
  | .newScreen => .ok ⟨plan, none⟩
  | .help | .clear => .ok ⟨{}, none⟩
  | .refinement index =>
    match ctx.standing with
    | none => .error ⟨refusedIndex index⟩
    | some s => .ok ⟨s.plan.refinedBy plan, some s.rows⟩

/-- The context after an intent was resolved: a fresh start clears it. -/
def heed (ctx : Context) : Intent → Context
  | .clear => ctx.cleared
  | _ => ctx

end Context

end EquityScreen
