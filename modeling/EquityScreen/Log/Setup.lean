/-
How logging is set up: from which level on, in which format, under which name. Two variables of the
environment override the level and the format; a value that names neither is passed over.
-/
import EquityScreen.Log.Entry
import EquityScreen.Text.Case

namespace EquityScreen.Log

/-- Levels of log lines. -/
inductive Level where
  | debug | info | warning | error | critical
  deriving DecidableEq, Repr

namespace Level

/-- The name of a level. -/
def name : Level → String
  | .debug => "DEBUG"
  | .info => "INFO"
  | .warning => "WARNING"
  | .error => "ERROR"
  | .critical => "CRITICAL"

/-- All levels. -/
def all : List Level := [.debug, .info, .warning, .error, .critical]

/-- The level with a name. -/
def ofName? (s : String) : Option Level := all.find? (·.name == s)

end Level

/-- Formats of log lines. -/
inductive Format where
  | json | console
  deriving DecidableEq, Repr

namespace Format

/-- The name of a format. -/
def name : Format → String
  | .json => "json"
  | .console => "console"

/-- The format with a name. -/
def ofName? (s : String) : Option Format := [Format.json, .console].find? (·.name == s)

end Format

/-- The settings of logging. -/
structure Config where
  level : Level := .info
  format : Format := .json
  caller : Bool := true
  slowThreshold : Number := .decimal 250 0
  service : String := "nlscreen"
  deriving DecidableEq

/-- What writes log lines. -/
inductive Writer where
  | structured (format : Structured)
  | console
  deriving DecidableEq, Repr

/-- Logging as it is in force: lines from a level on, and their writers. -/
structure Setup where
  level : Level
  writers : List Writer
  deriving DecidableEq, Repr

/-- Variables of the environment with their values. -/
abbrev Environment := List (String × String)

/-- The value of a variable; one that is not there is empty. -/
def Environment.value (env : Environment) (name : String) : String := (env.lookup name).getD ""

namespace Config

/-- The settings with those that the environment overrides. -/
def overridden (config : Config) (env : Environment) : Config :=
  { config with
    level := (Level.ofName? (Text.upper (env.value "NLSCREEN_LOG_LEVEL"))).getD config.level
    format := (Format.ofName? (Text.lower (env.value "NLSCREEN_LOG_FORMAT"))).getD config.format }

/-- The writer of a format. -/
def writer (config : Config) : Writer :=
  match config.format with
  | .json => .structured ⟨config.service, config.caller⟩
  | .console => .console

/-- Sets logging up; whatever was set up before is replaced. -/
def setup (config : Config) (env : Environment) : Setup :=
  let config := config.overridden env
  { level := config.level, writers := [config.writer] }

end Config

end EquityScreen.Log
