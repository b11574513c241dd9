import Schemata.Logging.Handler
import Schemata.Logging.Settings

/-!
# The state of the log

The log has live handlers, some of its own and some put up by others. It records the numbers of its
own, and it remembers the request that was carried out last, so that the same request needs no work.
`LogState.configure` takes down the handlers it owns before it puts up those of a request. A request
can fail in the middle: then the handlers put up until then stay, and the request is not remembered.

Opening a file may fail for reasons that the log knows nothing of, and so may any sink, so the
operations take what surrounds the log as a `LogHost`. Most callers have a way to open files only.
-/

namespace Schemata

/-- What a caller wants of the log. -/
structure LogRequest where
  /-- The least serious level that is written. -/
  level : LevelChoice := .named "INFO"
  /-- The form of the console. -/
  format : String := "structured"
  /-- The file that entries are written to as well; none and the empty text mean no file. -/
  outputFile : Option String := none
  /-- The switches. -/
  switches : LogSwitches := {}
  deriving DecidableEq, Inhabited

namespace LogRequest

/-- The request with its one way to ask for no file. -/
def normal (r : LogRequest) : LogRequest := { r with outputFile := r.outputFile.filter (· ≠ "") }

/-- The sinks for the streams that a request asks for; a terminal can show colours. -/
def streamSinks (terminal : Bool) (r : LogRequest) : List Sink :=
  if r.switches.dualSink || r.format == "dual" then [.rich r.switches.timestamp, .data .results]
  else if r.switches.rich || r.format == "rich" then [.rich r.switches.timestamp]
  else if r.format == "json" then [.data .errors]
  else if r.format == "structured" then
    [.structured r.switches.timestamp (r.switches.color && terminal)]
  else [.console r.switches.timestamp]

/-- What the handler of a request for a sink is put up for. -/
def channelAt (r : LogRequest) (threshold : Nat) (sink : Sink) : LogChannel :=
  { threshold, sink, backtrace := r.switches.backtrace, diagnose := r.switches.diagnose }

end LogRequest

/-- What surrounds the log when it puts up handlers. -/
structure LogHost where
  /-- How a file is opened. -/
  openFile : String → Except Error Location
  /-- Whether the stream for errors is a terminal. -/
  terminal : Bool := false
  /-- Whether a sink can be used, or why not. -/
  accept : Sink → Except Error Unit := fun _ ↦ .ok ()

/-- What the handler of a request for a sink is put up for on a host, unless the sink or the level
forbids it. -/
def LogRequest.channel (host : LogHost) (r : LogRequest) (sink : Sink) :
    Except Error LogChannel := do
  host.accept sink
  return r.channelAt (← r.level.threshold) sink

/-- The request that settings stand for; a file that is no text cannot be opened. -/
def LogSettings.request (s : LogSettings) : Except Error LogRequest := do
  let outputFile ← match s.outputFile with
    | .str path => pure (some path)
    | v => if v.truthy then throw .wrongType else pure none
  return { level := .named s.level, format := s.format, outputFile, switches := s.switches }

/-- The state of the log. -/
structure LogState where
  /-- The live handlers, in the order they were put up. The first one is there from the start. -/
  handlers : List LogHandler :=
    [{ id := 0, threshold := LogLevel.debug.severity, sink := .foreign }]
  /-- The number of the next handler. -/
  next : Nat := 1
  /-- The numbers of the handlers that the log put up itself. -/
  own : List Nat := []
  /-- The request carried out last. -/
  remembered : Option LogRequest := none
  /-- Whether the entries of other logging systems are taken over. -/
  bridged : Bool := false
  /-- What was written, in order. -/
  written : List (Target × LogPiece) := []
  deriving Inhabited

namespace LogState

/-! ## Handlers -/

/-- The state with a handler taken down, if there is one of the number. -/
def remove (s : LogState) (id : Nat) : LogState :=
  { s with handlers := s.handlers.filter (·.id ≠ id) }

/-- The state with a handler put up by somebody else. -/
def addForeign (s : LogState) (threshold : Nat) : LogState :=
  { s with
    handlers := s.handlers ++ [{ id := s.next, threshold, sink := .foreign }]
    next := s.next + 1 }

/-- The state with a handler of its own put up. -/
def add (s : LogState) (c : LogChannel) : LogState :=
  { s with
    handlers := s.handlers ++ [{ c with id := s.next }]
    own := s.own ++ [s.next]
    next := s.next + 1 }

/-- The state with the handlers taken down that a new request replaces: its own ones, and as long as
no request was carried out the one that is there from the start. -/
def release (s : LogState) : LogState :=
  let s := if s.remembered.isNone then s.remove 0 else s
  { s.own.foldl remove s with own := [] }

/-- The state with handlers of a request put up for several sinks, as far as nothing forbids it. -/
def attachAll (host : LogHost) (r : LogRequest) (s : LogState) :
    List Sink → Except Error Unit × LogState
  | [] => (.ok (), s)
  | sink :: sinks =>
    match r.channel host sink with
    | .error e => (.error e, s)
    | .ok c => (s.add c).attachAll host r sinks

/-- The state with the handlers of a request put up: those for the streams, then the file's. -/
def install (host : LogHost) (s : LogState) (r : LogRequest) : Except Error Unit × LogState :=
  match s.attachAll host r (r.streamSinks host.terminal) with
  | (.error e, s) => (.error e, s)
  | (.ok (), s) =>
    match r.normal.outputFile with
    | none => (.ok (), s)
    | some path =>
      match host.openFile path with
      | .error e => (.error e, s)
      | .ok l => s.attachAll host r [.data (.file l)]

/-- The state that takes over the entries of other logging systems. -/
def bridge (s : LogState) : LogState := { s with bridged := true }

/-- Whether a request needs no work: it was carried out last, and it is not forced. -/
def isDone (s : LogState) (force : Bool) (r : LogRequest) : Bool :=
  !force && s.remembered == some r.normal

/-- Carries out a request, unless it needs no work. -/
def carryOut (host : LogHost) (s : LogState) (force : Bool) (r : LogRequest) :
    Except Error Unit × LogState :=
  if s.isDone force r then (.ok (), s)
  else
    match s.release.install host r with
    | (.error e, s) => (.error e, s)
    | (.ok (), s) =>
      let s := if r.switches.bridge then s.bridge else s
      (.ok (), { s with remembered := some r.normal })

/-- The request that the environment stands for. -/
def environmentRequest (env : Environment) : LogRequest :=
  { level := .named (Text.upper ((env.get? "TYPESCHEMA_LOG_LEVEL").getD "WARNING"))
    format := Text.lower ((env.get? "TYPESCHEMA_LOG_FORMAT").getD "structured") }

/-- Carries out the request of the environment, unless some request was carried out before. -/
def makeReady (host : LogHost) (s : LogState) (env : Environment) :
    Except Error Unit × LogState :=
  if s.remembered.isSome then (.ok (), s)
  else s.carryOut host false (environmentRequest env)

/-- Carries out a request where every sink can be used. -/
def configure (openFile : String → Except Error Location) (s : LogState) (force : Bool)
    (r : LogRequest) : Except Error Unit × LogState :=
  s.carryOut { openFile } force r

/-- Carries out the request of the environment if there was none, where every sink can be used. -/
def ensureConfigured (openFile : String → Except Error Location) (s : LogState)
    (env : Environment) : Except Error Unit × LogState :=
  s.makeReady { openFile } env

/-! ## Entries -/

/-- The state after an entry went to all handlers. -/
def emit (s : LogState) (e : LogEntry) : LogState :=
  { s with written := s.written ++ s.handlers.filterMap (·.write e) }

/-- The name under which the entry of another logging system is taken over. Only the levels that
both systems have keep their names. -/
def takenName (severity : Nat) : String :=
  let shared := [LogLevel.debug, .info, .warning, .error, .critical]
  match shared.find? (·.severity == severity) with
  | some level => level.name
  | none => "Level " ++ toString severity

/-- The state after another logging system wrote an entry. If it is not taken over, the other system
shows the message of a warning, or of something more serious, by itself. -/
def emitForeign (s : LogState) (severity : Int) (source function message : String) : LogState :=
  if severity ≤ 0 then s
  else if s.bridged then
    s.emit
      { level := takenName severity.toNat, severity := severity.toNat, source, function, message }
  else if severity < LogLevel.warning.severity then s
  else { s with written := s.written ++ [(.errors, .text message)] }

end LogState

end Schemata
