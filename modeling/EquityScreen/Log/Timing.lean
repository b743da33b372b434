/-
Log lines about the time that work took: a failure is an error, work beyond a threshold is slow,
and all other work is noted for debugging. A call that fails is noted twice, as a failure and by
its time.
-/
import EquityScreen.Log.Setup

namespace EquityScreen.Log

/-- A stretch of time in milliseconds, and how messages write it. -/
structure Duration where
  milliseconds : Number
  shown : String

/-- A log line about the time that work took. -/
structure TimeNote where
  level : Level
  message : String
  /-- The arguments of the call, when they are noted. -/
  arguments : Option String := none
  deriving DecidableEq, Repr

/-- A line about work that failed with an exception of some type. -/
def failureNote (name : String) (took : Duration) (type : String) : TimeNote :=
  ⟨.error, s!"{name} failed after {took.shown}ms: {type}", none⟩

/-- A line about work that came to its end. -/
def timeNote (name : String) (threshold : Number) (took : Duration) (arguments : Option String) :
    TimeNote :=
  if threshold.le took.milliseconds then
    ⟨.warning, s!"Slow operation: {name} took {took.shown}ms", arguments⟩
  else ⟨.debug, s!"{name} completed in {took.shown}ms", arguments⟩

/-! ## Arguments -/

/-- How many arguments of either kind are written. -/
def shownArguments : Nat := 3

/-- The longest text of an argument. -/
def longestArgument : Nat := 100

/-- The quoted text of an argument, cut when it is too long. -/
def argumentText (d : Datum) : String :=
  let cs := d.quoted.toList
  if longestArgument < cs.length then String.ofList (cs.take longestArgument) ++ "..."
  else d.quoted

/-- What stands for the arguments that are not written. -/
def furtherArguments (count : Nat) : List String :=
  if count = 0 then [] else [s!"... +{count} more args"]

/-- A call's arguments in short: the first ones by place, and the first ones by name. -/
def argumentSummary (places : List Datum) (names : Pairs) : String :=
  Text.joined ", " ((places.take shownArguments).map argumentText ++
    furtherArguments (places.length - shownArguments) ++
    (names.take shownArguments).map fun p => p.1 ++ "=" ++ argumentText p.2)

/-! ## Calls and blocks -/

/-- The threshold of a call: its own, or that of the settings. -/
def callThreshold (own : Option Number) : Number := own.getD ({} : Config).slowThreshold

/-- The lines about a call, which may have failed with an exception of some type. -/
def callNotes (name : String) (threshold : Number) (took : Duration) (failed : Option String)
    (arguments : Option String) : List TimeNote :=
  (failed.map (failureNote name took)).toList ++ [timeNote name threshold took arguments]

/-- The threshold of a block: its own unless that is zero, or that of the settings. -/
def blockThreshold (own : Option Number) : Number :=
  match own with
  | some n => if n.same (.int 0) then callThreshold none else n
  | none => callThreshold none

/-- The line about a block, which may have failed with an exception of some type. -/
def blockNotes (name : String) (threshold : Number) (took : Duration) (failed : Option String) :
    List TimeNote :=
  match failed with
  | some type => [failureNote name took type]
  | none => [timeNote name threshold took none]

end EquityScreen.Log
