/-
From clauses with connectives and parentheses to one filter. The conjunction binds tighter than the
alternative, and clauses side by side are conjoined. The items are read from left to right with a
stack of open groups; a connective with nothing on one side has no effect, a parenthesis that is
never closed closes at the end, and a closing one too many ends everything read so far.
-/
import EquityScreen.Predicate

namespace EquityScreen

/-- A clause, a connective or a parenthesis. -/
inductive Item where
  | filter (p : Predicate)
  | and | or | opening | closing
  deriving DecidableEq

/-- A group in the making: the alternatives that are complete, and the conjunction at hand. -/
structure Group where
  alternatives : Option Predicate := none
  current : Option Predicate := none
  deriving DecidableEq

/-- Joins what there is. -/
def joinWith (f : Predicate → Predicate → Predicate) : Option Predicate → Option Predicate → Option Predicate
  | none, q => q
  | p, none => p
  | some p, some q => some (f p q)

namespace Group

/-- The filter of a group that ends here. -/
def value (g : Group) : Option Predicate := joinWith .disjoin g.alternatives g.current

/-- The group with one filter more in its conjunction. -/
def meet (g : Group) (p : Option Predicate) : Group :=
  { g with current := joinWith .conjoin g.current p }

/-- The group with its conjunction complete. -/
def alternative (g : Group) : Group := ⟨g.value, none⟩

end Group

/-- What was read so far: what a stray closing parenthesis ended, the group being read, and the
groups around it, innermost first. -/
structure Grouping where
  ended : Option Predicate := none
  group : Group := {}
  outer : List Group := []
  deriving DecidableEq

namespace Grouping

/-- Reads one item more. -/
def push (g : Grouping) : Item → Grouping
  | .filter p => { g with group := g.group.meet (some p) }
  | .and => g
  | .or => { g with group := g.group.alternative }
  | .opening => { g with group := {}, outer := g.group :: g.outer }
  | .closing =>
    match g.outer with
    | [] => { g with ended := joinWith .conjoin g.ended g.group.value, group := {} }
    | o :: os => { g with group := o.meet g.group.value, outer := os }

/-- The outermost group when all others close here. -/
def closed (g : Grouping) : Group := g.outer.foldl (fun inner o => o.meet inner.value) g.group

/-- The filter of everything read. -/
def predicate (g : Grouping) : Predicate :=
  (joinWith .conjoin g.ended g.closed.value).getD .all

end Grouping

/-- The filter that a row of items writes. -/
def Predicate.ofItems (items : List Item) : Predicate :=
  (items.foldl Grouping.push {}).predicate

end EquityScreen
