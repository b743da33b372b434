/-
The settings of the process: what was given outright comes first, then the variables of the
environment whose names begin with `NLSCREEN_` in any case, then the defaults. Every setting that
does not parse is reported.
-/
import EquityScreen.Config
import EquityScreen.Log.Setup

namespace EquityScreen

/-- A setting as it was given. -/
inductive Given where
  | text (s : String)
  | number (n : Number)
  | flag (b : Bool)
  | nothing
  deriving DecidableEq

/-- Why a setting does not parse. -/
inductive SettingFault where
  | notWhole | wholeSize | notFigure | fraction | notFinite | wholeType | figureType | textType
  deriving DecidableEq, Repr

/-- The name of a fault. -/
def SettingFault.name : SettingFault → String
  | .notWhole => "int_parsing"
  | .wholeSize => "int_parsing_size"
  | .notFigure => "float_parsing"
  | .fraction => "int_from_float"
  | .notFinite => "finite_number"
  | .wholeType => "int_type"
  | .figureType => "float_type"
  | .textType => "string_type"

namespace Given

open Text

/-- The text without single underscores between other characters. Elsewhere they are not
allowed. -/
def withoutUnderscores? (cs : List Char) : Option (List Char) :=
  if cs.head? == some '_' || cs.getLast? == some '_' ||
      (cs.zip (cs.drop 1)).any (fun (a, b) => a == '_' && b == '_') then none
  else some (cs.filter (· != '_'))

/-- The most characters of a whole number, its sign included. -/
def longestWhole : Nat := 4300

/-- A whole number in plain form: a minus sign or none, and digits with no zero in front. A number
that is too long is noticed before what may be wrong behind it. -/
def plainWhole (cs : List Char) : Except SettingFault Int :=
  let (negative, digits) :=
    match cs with
    | '-' :: ds => (true, ds)
    | ds => (false, ds)
  let run := digits.takeWhile Char.isDigit
  if run.head? == some '0' then if digits.length = 1 then .ok 0 else .error .notWhole
  else if longestWhole < run.length + (if negative then 1 else 0) then .error .wholeSize
  else if run.isEmpty || run.length < digits.length then .error .notWhole
  else
    let n : Int := digitsValue run
    .ok (if negative then -n else n)

/-- What is left of a numeral behind a zero and further zeros and underscores. A minus sign may
follow them; of zeros alone, and before a point, the last character is kept. -/
def afterZeros? (last : Char) : List Char → Option (List Char)
  | [] => some [last]
  | c :: cs =>
    if c == '0' || c == '_' then afterZeros? c cs
    else if c.isDigit || c == '-' then some (c :: cs)
    else if c == '.' then some (last :: c :: cs)
    else none

/-- A numeral without the zeros in front. -/
def withoutZeros? : List Char → Option (List Char)
  | [] => none
  | c :: cs =>
    if c == '0' then afterZeros? c cs
    else if c.isDigit || c == '-' then some (c :: cs)
    else none

/-- A numeral without the plus sign in front, which no minus sign may follow. -/
def withoutPlus? : List Char → Option (List Char)
  | '+' :: '-' :: _ => none
  | '+' :: cs => some cs
  | cs => some cs

/-- A numeral without a point and zeros at its end. -/
def withoutFraction (cs : List Char) : List Char :=
  let fraction := (cs.dropWhile (· != '.')).drop 1
  if !fraction.isEmpty && fraction.all (· == '0') then cs.takeWhile (· != '.') else cs

/-- The plain form of a numeral: without a plus sign, zeros in front, a fraction of zeros, and
underscores. -/
def plainForm? (cs : List Char) : Option (List Char) := do
  let cs ← withoutPlus? cs
  let cs ← withoutZeros? cs
  let cs := withoutFraction cs
  return (withoutUnderscores? cs).getD cs

/-- A whole number in a text. -/
def wholeOf (s : String) : Except SettingFault Int :=
  let cs := trimWhite s.toList
  match plainWhole cs with
  | .error .notWhole =>
    match plainForm? cs with
    | some plain => plainWhole plain
    | none => .error .notWhole
  | answer => answer

/-- A figure: a sign or none, and a numeral of ASCII digits or the name of an infinity or of
not-a-number. -/
def readFigure? (cs : List Char) : Option Double :=
  let (negative, rest) := Quantity.readSign cs
  match Quantity.readDigits? negative rest with
  | some d => some (.ofDecimal d)
  | none =>
    let small := rest.map Char.toLower
    if small == "inf".toList || small == "infinity".toList then some (.infinite negative)
    else if small == "nan".toList then some .nan
    else none

/-- A figure in a text. One with underscores has no blanks around it. -/
def figureOf? (s : String) : Option Double :=
  readFigure? (trimWhite s.toList) <|> (withoutUnderscores? s.toList).bind readFigure?

/-- Whole doubles of this size and more are refused as whole numbers. -/
def wholeDoubleLimit : Nat := 2 ^ 63

/-- A double as a whole number, when it is one. -/
def wholeDouble : Double → Except SettingFault Int
  | .finite negative steps _ _ =>
    if steps % stepsPerOne ≠ 0 then .error .fraction
    else if wholeDoubleLimit * stepsPerOne ≤ steps then .error .wholeSize
    else .ok (Double.signedSteps negative (steps / stepsPerOne))
  | _ => .error .notFinite

/-- A setting that is a whole number. -/
def whole : Given → Except SettingFault Int
  | .text s => wholeOf s
  | .number (.int n) => .ok n
  | .number (.double x) => wholeDouble x
  | .flag b => .ok (if b then 1 else 0)
  | .nothing => .error .wholeType

/-- A setting that is a figure. -/
def figure : Given → Except SettingFault Double
  | .text s =>
    match figureOf? s with
    | some x => .ok x
    | none => .error .notFigure
  | .number (.int n) =>
    match Double.ofInt n with
    | .infinite _ => .error .figureType
    | x => .ok x
  | .number (.double x) => .ok x
  | .flag b => .ok (.ofInt (if b then 1 else 0))
  | .nothing => .error .figureType

/-- A setting that is a text. -/
def words : Given → Except SettingFault String
  | .text s => .ok s
  | _ => .error .textType

end Given

/-- Settings that were given, by name. -/
abbrev GivenSettings := List (String × Given)

namespace GivenSettings

/-- The variables of the environment that are settings. Of two that differ in case the last one
counts, so the list is turned round. -/
def ofEnvironment (env : Log.Environment) : GivenSettings :=
  (env.map fun (name, value) => (Text.lower name, Given.text value)).reverse

/-- A setting, where it was given. -/
def value? (outright : GivenSettings) (env : Log.Environment) (name : String) : Option Given :=
  outright.lookup name <|> (ofEnvironment env).lookup ("nlscreen_" ++ name)

end GivenSettings

/-- The settings of the process. -/
structure Settings where
  maxResults : Int := 500
  historySize : Int := 20
  largeResult : Int := 50
  maxColumns : Int := 12
  currencyStyle : String := "western"
  logLevel : String := "INFO"
  logFormat : String := "json"
  slowQuery : Double := .ofInt 250
  deriving DecidableEq

/-- Settings that do not parse, by name. -/
structure SettingsError where
  faults : List (String × SettingFault)
  deriving DecidableEq, Repr

/-- The wording of the error: each setting with its fault, in order of the code points. -/
def SettingsError.message (e : SettingsError) : String :=
  Text.joined ", "
    ((e.faults.map fun (name, fault) => name ++ ":" ++ fault.name).mergeSort (· ≤ ·))

namespace Settings

/-- One setting: its default unless it was given. -/
def one (read : Given → Except SettingFault α) (given : Option Given) (default : α) :
    Except SettingFault α :=
  match given with
  | some g => read g
  | none => .ok default

/-- The fault of a setting with its name. -/
def faultOf (name : String) : Except SettingFault α → List (String × SettingFault)
  | .ok _ => []
  | .error fault => [(name, fault)]

/-- A setting, when no setting has a fault. -/
def sound (default : α) : Except SettingFault α → α
  | .ok a => a
  | .error _ => default

/-- The settings of a process. -/
def load (outright : GivenSettings) (env : Log.Environment) : Except SettingsError Settings :=
  let given := GivenSettings.value? outright env
  let d : Settings := {}
  let maxResults := one Given.whole (given "max_results") d.maxResults
  let historySize := one Given.whole (given "history_size") d.historySize
  let largeResult := one Given.whole (given "large_result_threshold") d.largeResult
  let maxColumns := one Given.whole (given "max_columns") d.maxColumns
  let currencyStyle := one Given.words (given "currency_style") d.currencyStyle
  let logLevel := one Given.words (given "log_level") d.logLevel
  let logFormat := one Given.words (given "log_format") d.logFormat
  let slowQuery := one Given.figure (given "slow_query_ms") d.slowQuery
  let faults := faultOf "max_results" maxResults ++ faultOf "history_size" historySize ++
    faultOf "large_result_threshold" largeResult ++ faultOf "max_columns" maxColumns ++
    faultOf "currency_style" currencyStyle ++ faultOf "log_level" logLevel ++
    faultOf "log_format" logFormat ++ faultOf "slow_query_ms" slowQuery
  if faults.isEmpty then
    .ok { maxResults := sound d.maxResults maxResults
          historySize := sound d.historySize historySize
          largeResult := sound d.largeResult largeResult
          maxColumns := sound d.maxColumns maxColumns
          currencyStyle := sound d.currencyStyle currencyStyle
          logLevel := sound d.logLevel logLevel
          logFormat := sound d.logFormat logFormat
          slowQuery := sound d.slowQuery slowQuery }
  else .error ⟨faults⟩

end Settings

/-- A setting that is none of the choices. -/
inductive ChoiceError where
  | style (s : String)
  | level (s : String)
  | format (s : String)
  deriving DecidableEq, Repr

/-- The wording of the error. -/
def ChoiceError.message : ChoiceError → String
  | .style s => s!"{Text.quoted s} is not a valid CurrencyStyle"
  | .level s => s!"{Text.quoted s} is not a valid LogLevel"
  | .format s => s!"{Text.quoted s} is not a valid LogFormat"

/-- The style with a name. -/
def CurrencyStyle.named (s : String) : Except ChoiceError CurrencyStyle :=
  match CurrencyStyle.ofName? s with
  | some style => .ok style
  | none => .error (.style s)

/-- The level with a name. -/
def Log.Level.named (s : String) : Except ChoiceError Log.Level :=
  match Log.Level.ofName? s with
  | some level => .ok level
  | none => .error (.level s)

/-- The format with a name. -/
def Log.Format.named (s : String) : Except ChoiceError Log.Format :=
  match Log.Format.ofName? s with
  | some format => .ok format
  | none => .error (.format s)

namespace Settings

/-- The settings of a screener. -/
def screener (s : Settings) : Except ChoiceError Config := do
  let style ← CurrencyStyle.named s.currencyStyle
  return { maxResults := s.maxResults, historySize := s.historySize, largeResult := s.largeResult,
           maxColumns := s.maxColumns, style, slowThreshold := .double s.slowQuery }

/-- The settings of logging. -/
def logging (s : Settings) : Except ChoiceError Log.Config := do
  let level ← Log.Level.named (Text.upper s.logLevel)
  let format ← Log.Format.named (Text.lower s.logFormat)
  return { level, format, slowThreshold := .double s.slowQuery }

end Settings

end EquityScreen
