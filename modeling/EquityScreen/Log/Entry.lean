/-
Log lines: a structured entry of named values, and a coloured line for the console.

A structured entry is built up in this order, a later value taking the place of an earlier one of
the same name: the record itself, its caller, the scope, the exception, and figures of the record.
-/
import EquityScreen.Log.Message
import EquityScreen.Log.Scope

namespace EquityScreen.Log

/-- An exception that goes with a record: its type and its text. -/
structure Fault where
  type : String
  text : String
  deriving DecidableEq, Repr

/-- The last line of an exception's account. -/
def Fault.line (f : Fault) : String := if f.text = "" then f.type else f.type ++ ": " ++ f.text

/-- Something that was logged. -/
structure Record where
  level : String
  logger : String
  template : String
  values : List Datum := []
  path : String
  function : Option String := none
  line : Int
  /-- Figures that go with the record. -/
  figures : Pairs := []
  fault : Option Fault := none

/-- The name of a file without its folders and its ending. Dots in front of a name begin no
ending. -/
def stem (path : String) : String :=
  let base := (path.toList.reverse.takeWhile (· != '/')).reverse
  let dots := base.takeWhile (· == '.')
  let name := base.dropWhile (· == '.')
  if name.contains '.' then
    String.ofList (dots ++ (((name.reverse.dropWhile (· != '.')).drop 1)).reverse)
  else String.ofList base

/-- A structured format: the service it speaks for, and whether it names the caller. -/
structure Structured where
  service : String := "nlscreen"
  caller : Bool := true
  deriving DecidableEq, Repr

namespace Record

/-- The message of a record. -/
def message (r : Record) : Except MessageError String := fill r.template r.values

/-- The place in the program that a record comes from. -/
def callerPairs (r : Record) : Pairs := [
  ("module", .text (stem r.path)),
  ("function", (r.function.map Datum.text).getD .none),
  ("line", .number (.int r.line))]

/-- The exception of a record. -/
def faultPairs (r : Record) : Pairs :=
  match r.fault with
  | none => []
  | some f => [("exception", .record [
      ("type", .text f.type), ("message", .text f.text), ("traceback", .text f.line)])]

/-- The figures that are copied into an entry, in this order. -/
def figureNames : List String := ["duration_ms", "result_count", "intent", "extra_data"]

/-- The figures of a record that are copied. -/
def figurePairs (r : Record) : Pairs :=
  figureNames.filterMap fun name => (r.figures.value? name).map (name, ·)

end Record

/-- A record as a structured entry, written at a time. -/
def Structured.entry (f : Structured) (time : String) (s : Scope) (r : Record) :
    Except MessageError Pairs :=
  r.message.map fun message =>
    let base : Pairs := [("timestamp", .text time), ("level", .text r.level),
      ("logger", .text r.logger), ("message", .text message), ("service", .text f.service)]
    let caller := if f.caller then r.callerPairs else []
    [caller, s.bound, r.faultPairs, r.figurePairs].foldl Pairs.putAll base

/-! ## Console -/

/-- The code that begins the colour of a level. -/
def colour (level : String) : String :=
  if level = "DEBUG" then "\x1b[36m"
  else if level = "INFO" then "\x1b[32m"
  else if level = "WARNING" then "\x1b[33m"
  else if level = "ERROR" then "\x1b[31m"
  else if level = "CRITICAL" then "\x1b[35m"
  else "\x1b[0m"

/-- The code that ends a colour. -/
def plainColour : String := "\x1b[0m"

/-- A text with blanks after it up to a width. -/
def padded (width : Nat) (s : String) : String :=
  s ++ String.ofList (List.replicate (width - s.length) ' ')

/-- A scope at the end of a console line. -/
def Scope.suffix (s : Scope) : String :=
  if s.bound.isEmpty then ""
  else " [" ++ Text.joined ", " (s.bound.map fun p => p.1 ++ "=" ++ p.2.shown) ++ "]"

/-- A record as a line for the console, at a time of day. -/
def consoleLine (time : String) (s : Scope) (r : Record) : Except MessageError String :=
  r.message.map fun message =>
    colour r.level ++ time ++ " " ++ padded 8 r.level ++ plainColour ++ " " ++ r.logger ++ ": " ++
      message ++ s.suffix ++ ((r.fault.map fun f => "\n" ++ f.line).getD "")

end EquityScreen.Log
