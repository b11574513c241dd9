import Schemata.Files
import Schemata.Trace

/-!
# Handlers of the log

A handler writes the entries that reach its threshold to a sink. The sink decides where an entry
goes and in which form: as a line of text, as data, or laid out for a rich console. An entry knows
who wrote it; the form decides how much of that is shown.
-/

namespace Schemata

namespace LogLevel

/-- All levels, the least serious first. -/
def all : List LogLevel := [trace, debug, info, success, warning, error, critical]

/-- The name of a level. -/
def name : LogLevel → String
  | trace => "TRACE"
  | debug => "DEBUG"
  | info => "INFO"
  | success => "SUCCESS"
  | warning => "WARNING"
  | error => "ERROR"
  | critical => "CRITICAL"

/-- How serious a level is. -/
def severity : LogLevel → Nat
  | trace => 5
  | debug => 10
  | info => 20
  | success => 25
  | warning => 30
  | error => 40
  | critical => 50

/-- The level of a name. -/
def ofName? (s : String) : Option LogLevel := all.find? (·.name == s)

end LogLevel

/-- A level as somebody asks for it. -/
inductive LevelChoice where
  /-- By its name. -/
  | named (name : String)
  /-- By how serious it is. -/
  | numbered (severity : Int)
  deriving DecidableEq, Inhabited

/-- The least severity that a choice lets through. -/
def LevelChoice.threshold : LevelChoice → Except Error Nat
  | named name =>
    match LogLevel.ofName? name with
    | some level => .ok level.severity
    | none => .error (.unknownLevel name)
  | numbered n =>
    if n < 0 then
      .error (.invalidValue
        ("Invalid level value, it should be a positive integer, not: " ++ toString n))
    else .ok n.toNat

/-! ## Entries -/

/-- An entry on its way to the handlers. -/
structure LogEntry where
  /-- The name of its level. -/
  level : String
  /-- How serious it is. -/
  severity : Nat
  /-- The module that wrote it. -/
  source : String
  /-- The function that wrote it. -/
  function : String
  /-- The line that wrote it. -/
  line : Nat := 0
  /-- The name of the logger it was written through, if it has one. -/
  binding : Option String := none
  /-- What happened. -/
  message : String
  /-- When it was written. -/
  time : String := ""
  deriving DecidableEq, Inhabited

namespace LogEntry

/-- An entry of a level. -/
def ofLevel (level : LogLevel) (source function : String) (binding : Option String)
    (message : String) : LogEntry :=
  { level := level.name, severity := level.severity, source, function, binding, message }

/-- The name of the level, filled up to eight characters. -/
def paddedLevel (e : LogEntry) : String :=
  e.level ++ String.ofList (List.replicate (8 - e.level.length) ' ')

/-- The time and a blank, if it is to be shown. -/
def stamp (e : LogEntry) (timestamps : Bool) : String := if timestamps then e.time ++ " " else ""

/-- The entry as a console line. -/
def consoleLine (e : LogEntry) (timestamps : Bool) : String :=
  e.stamp timestamps ++ e.paddedLevel ++ " | " ++ e.source ++ " | " ++ e.message

/-- The entry as a structured line. -/
def structuredLine (e : LogEntry) (timestamps : Bool) : String :=
  e.stamp timestamps ++ "[" ++ e.paddedLevel ++ "]" ++ e.source ++ ":" ++ e.function ++ ":" ++
    toString e.line ++ " | " ++ e.message

end LogEntry

/-! ## Sinks -/

/-- Where output goes. -/
inductive Target where
  /-- The stream for errors. -/
  | errors
  /-- The stream for results. -/
  | results
  /-- A file. -/
  | file (l : Location)
  deriving DecidableEq, Inhabited

/-- A piece of output. -/
inductive LogPiece where
  /-- A line of text; a message may bring further ends of lines. -/
  | text (line : String)
  /-- An entry as data. -/
  | data (e : LogEntry)
  /-- An entry laid out for a rich console. -/
  | rich (e : LogEntry)
  deriving DecidableEq, Inhabited

/-- What is done with entries. -/
inductive Sink where
  /-- Shows them on a rich console. -/
  | rich (timestamps : Bool)
  /-- Shows them as console lines. -/
  | console (timestamps : Bool)
  /-- Shows them as structured lines; the colours are no part of a line. -/
  | structured (timestamps colors : Bool)
  /-- Writes them as data. -/
  | data (target : Target)
  /-- Whatever somebody else wants done with them. -/
  | foreign
  deriving DecidableEq, Inhabited

/-- What a sink writes for an entry. -/
def Sink.write (e : LogEntry) : Sink → Option (Target × LogPiece)
  | rich _ => some (.results, .rich e)
  | console timestamps => some (.errors, .text (e.consoleLine timestamps))
  | structured timestamps _ => some (.errors, .text (e.structuredLine timestamps))
  | data target => some (target, .data e)
  | foreign => none

/-- What a handler is put up for. -/
structure LogChannel where
  /-- The least severity it takes. -/
  threshold : Nat
  /-- What it does with entries. -/
  sink : Sink
  /-- Whether it shows full traces of errors. -/
  backtrace : Bool := true
  /-- Whether it shows the values in traces of errors. -/
  diagnose : Bool := true
  deriving DecidableEq, Inhabited

/-- A live handler. -/
structure LogHandler extends LogChannel where
  /-- The number under which it was put up. -/
  id : Nat
  deriving DecidableEq, Inhabited

/-- What a handler writes for an entry. -/
def LogHandler.write (e : LogEntry) (h : LogHandler) : Option (Target × LogPiece) :=
  if h.threshold ≤ e.severity then h.sink.write e else none

end Schemata
