import Schemata.Configuration.Environment
import Schemata.Trace

/-!
# Logging settings

What a configuration says about the log: level, format, an optional file, and seven switches. Every
setting has a variable in the environment that overrides it when it is set and not empty; a switch
is overridden only by a word for a truth value.
-/

namespace Schemata

/-- The switches of the log. -/
inductive LogSwitch where
  /-- Colours. -/
  | color
  /-- Time stamps. -/
  | timestamp
  /-- A rich console. -/
  | rich
  /-- A rich console and a machine-readable copy. -/
  | dualSink
  /-- Records of other logging systems are taken over. -/
  | bridge
  /-- Full traces of errors. -/
  | backtrace
  /-- Values in traces of errors. -/
  | diagnose
  deriving DecidableEq, Inhabited

namespace LogSwitch

/-- All switches, in the order they are read. -/
def all : List LogSwitch := [color, timestamp, rich, dualSink, bridge, backtrace, diagnose]

/-- The key of a switch in a configuration. -/
def key : LogSwitch → String
  | color => "use_color"
  | timestamp => "include_timestamp"
  | rich => "use_rich"
  | dualSink => "dual_sink"
  | bridge => "enable_stdlib_bridge"
  | backtrace => "backtrace"
  | diagnose => "diagnose"

/-- The variable that overrides a switch. -/
def variableName : LogSwitch → String
  | color => "TYPESCHEMA_LOG_COLOR"
  | timestamp => "TYPESCHEMA_LOG_TIMESTAMP"
  | rich => "TYPESCHEMA_LOG_RICH"
  | dualSink => "TYPESCHEMA_LOG_DUAL_SINK"
  | bridge => "TYPESCHEMA_LOG_STDLIB_BRIDGE"
  | backtrace => "TYPESCHEMA_LOG_BACKTRACE"
  | diagnose => "TYPESCHEMA_LOG_DIAGNOSE"

/-- The position of a switch that nobody set. -/
def fallback : LogSwitch → Bool
  | color | timestamp | backtrace | diagnose => true
  | rich | dualSink | bridge => false

end LogSwitch

/-- The positions of the switches. -/
structure LogSwitches where
  color : Bool := true
  timestamp : Bool := true
  rich : Bool := false
  dualSink : Bool := false
  bridge : Bool := false
  backtrace : Bool := true
  diagnose : Bool := true
  deriving DecidableEq, Inhabited

namespace LogSwitches

/-- The position of a switch. -/
def get (s : LogSwitches) : LogSwitch → Bool
  | .color => s.color
  | .timestamp => s.timestamp
  | .rich => s.rich
  | .dualSink => s.dualSink
  | .bridge => s.bridge
  | .backtrace => s.backtrace
  | .diagnose => s.diagnose

/-- The positions given by a function. -/
def ofFunction (f : LogSwitch → Bool) : LogSwitches :=
  ⟨f .color, f .timestamp, f .rich, f .dualSink, f .bridge, f .backtrace, f .diagnose⟩

/-- Puts a switch into a position. -/
def set (s : LogSwitches) (switch : LogSwitch) (b : Bool) : LogSwitches :=
  ofFunction fun x ↦ if x = switch then b else s.get x

@[simp] theorem get_ofFunction (f : LogSwitch → Bool) (x : LogSwitch) :
    (ofFunction f).get x = f x := by
  cases x <;> rfl

end LogSwitches

/-- The settings of the log. -/
structure LogSettings where
  /-- The level, in upper case. -/
  level : String := "WARNING"
  /-- The format, in lower case. -/
  format : String := "structured"
  /-- The file that records are written to; null for none. -/
  outputFile : Value := .null
  /-- The switches. -/
  switches : LogSwitches := {}
  deriving Inhabited

namespace LogSettings

/-- The settings that a mapping spells out; what it leaves out has its usual value. -/
def ofEntries (entries : List (Value × Value)) : LogSettings :=
  let get (key : String) (fallback : Value) : Value :=
    (Value.lookup (.str key) entries).getD fallback
  { level := Text.upper (get "level" (.str "WARNING")).text
    format := Text.lower (get "format" (.str "structured")).text
    outputFile := get "output_file" .null
    switches := .ofFunction fun s ↦ (get s.key (.bool s.fallback)).truthy }

/-- The level with its override. -/
def overrideLevel (env : Environment) (s : LogSettings) : Traced LogSettings :=
  match env.override? "TYPESCHEMA_LOG_LEVEL" with
  | none => return s
  | some v => do
    let level := Text.upper v
    Traced.debug ("Overriding log level from env: " ++ level)
    return { s with level }

/-- The format with its override. -/
def overrideFormat (env : Environment) (s : LogSettings) : Traced LogSettings :=
  match env.override? "TYPESCHEMA_LOG_FORMAT" with
  | none => return s
  | some v => do
    let format := Text.lower v
    Traced.debug ("Overriding log format from env: " ++ format)
    return { s with format }

/-- The file with its override. -/
def overrideFile (env : Environment) (s : LogSettings) : Traced LogSettings :=
  match env.override? "TYPESCHEMA_LOG_FILE" with
  | none => return s
  | some v => do
    Traced.debug ("Overriding log file from env: " ++ v)
    return { s with outputFile := .str v }

/-- One switch with its override; a word that is no truth value is reported and has no effect. -/
def overrideSwitch (env : Environment) (s : LogSettings) (switch : LogSwitch) :
    Traced LogSettings :=
  match env.override? switch.variableName with
  | none => return s
  | some v =>
    match Truth.read v with
    | .ok b => do
      Traced.debug ("Overriding " ++ switch.key ++ " from env: " ++ Value.boolText b)
      return { s with switches := s.switches.set switch b }
    | .error e => do
      Traced.write .warning ("Invalid " ++ switch.variableName ++ " value: " ++ e.message)
      return s

/-- Several switches with their overrides. -/
def overrideSwitches (env : Environment) : List LogSwitch → LogSettings → Traced LogSettings
  | [], s => return s
  | switch :: rest, s => do overrideSwitches env rest (← s.overrideSwitch env switch)

/-- The settings with all overrides of the environment. -/
def override (env : Environment) (s : LogSettings) : Traced LogSettings := do
  let s ← s.overrideLevel env
  let s ← s.overrideFormat env
  let s ← s.overrideFile env
  overrideSwitches env LogSwitch.all s

end LogSettings

end Schemata
