import Schemata.CommandLine.Arguments
import Schemata.CommandLine.Markup
import Schemata.Components
import Schemata.Configuration.Declared
import Schemata.Configuration.Loading
import Schemata.Logging.State
import Schemata.Output

/-!
# Runs of the command line

A run reads the general options, loads the configuration, sets up the log, reads the command, makes
the schema and only then shows or writes it. Each stage can stop the run. Everything up to the text
of the schema leaves the files alone, so a run that stops has written nothing and shown no schema.
Arguments that ask for information are answered in the place of the command.

A file that already holds the text is left as it is.

What a console makes of marked-up lines and of panels, and the texts of the information, are
parameters of the session.
-/

namespace Schemata

namespace CommandLine

/-- What runs share: where things are found, and what they leave behind. -/
structure Session where
  /-- Where configurations and types come from. -/
  world : World
  /-- The declared classes. -/
  table : ClassTable
  /-- The configurations that are kept. -/
  cache : Cache := {}
  /-- The log. -/
  log : LogState := {}
  /-- What a console prints of a marked-up line; nothing if it cannot make sense of the tags. -/
  console : String → Option String := Markup.plain?
  /-- How a console shows a text highlighted in a panel, by title, format and text. One without
  panels shows the text. -/
  panel : String → String → String → String := fun _ _ text ↦ text
  /-- The information on a topic. -/
  information : Topic → String := fun _ ↦ ""

/-- What escapes from a run that fails unexpectedly. -/
inductive Escape where
  /-- The failure of a stage. -/
  | failure (f : Failure)
  /-- A line with tags that do not fit together was to be told. -/
  | markup

/-- What a run tells. -/
structure Report where
  /-- Zero for success. -/
  exitCode : Nat := 0
  /-- What was shown as result. -/
  results : String := ""
  /-- What was told beside it. -/
  messages : String := ""
  /-- What escaped. -/
  escaped : Option Escape := none
  deriving Inhabited

namespace Report

/-- The report after telling a console a marked-up line, which may fail. -/
def tell (console : String → Option String) (r : Report) (line : String) : Report :=
  match console line with
  | some text => { r with messages := r.messages ++ text ++ "\n" }
  | none => { r with exitCode := 1, escaped := some .markup }

/-- The report after telling a console several lines, as far as they can be told. -/
def tellAll (console : String → Option String) : Report → List String → Report
  | r, [] => r
  | r, line :: lines =>
    match console line with
    | some _ => tellAll console (r.tell console line) lines
    | none => r.tell console line

end Report

/-- Why a run stops before it is done. -/
inductive Stop where
  /-- The run fails for a reason that is told in marked-up lines. -/
  | refused (lines : List String)
  /-- The run fails unexpectedly. -/
  | crashed (failure : Failure)

namespace Stop

/-- A stop for an error. -/
def ofMessage (message : String) : Stop := refused ["[red]Error:[/red] " ++ message]

/-- What is told of a stop. -/
def report (console : String → Option String) : Stop → Report
  | refused lines => { Report.tellAll console {} lines with exitCode := 1 }
  | crashed failure => { exitCode := 1, escaped := some (.failure failure) }

end Stop

/-- What is told where arguments are no command. -/
def Session.answer (s : Session) : Detour → Report
  | .misfit => { exitCode := 2 }
  | .asks topic => { results := s.information topic }

/-- The value of a computation, or the stop that its failure is; `isTold` says which errors are
told. -/
def valueOf {α : Type} (isTold : Error → Bool) (x : Traced α) : Except Stop α :=
  match x.outcome with
  | .ok a => .ok a
  | .error (.error e) => .error (if isTold e then .ofMessage e.message else .crashed (.error e))
  | .error .exhausted => .error (.crashed .exhausted)

/-! ## Preparation -/

/-- The errors of loading a configuration that are told. -/
def isLoadError : Error → Bool
  | .missingFile _ | .noConfiguration => true
  | e => e.isExpected

/-- The level of the log: that of the options, else that of the configuration. -/
def levelOf (options : OptionValues) (c : Configuration) : String :=
  let stated := (options.get? .logLevel).filter (· ≠ "")
  let level := Text.upper (stated.getD c.logging.level)
  if options.isOn .quiet then LogLevel.error.name
  else if options.isOn .verbose then LogLevel.debug.name
  else if level == "WARN" then LogLevel.warning.name
  else level

/-- The location of a log file, once its directories are there. -/
def openLog (files : FileStore) (path : String) : Except Error Location :=
  (files.keep (Path.ofText path)).map (·.2)

/-- What a run wants of the log. -/
def requestOf (options : OptionValues) (c : Configuration) : Except Error LogRequest :=
  c.logging.request.map fun r ↦ { r with level := .named (levelOf options c) }

/-- The files after a request to the log was carried out. -/
def withLogFile (files : FileStore) (r : LogRequest) : FileStore :=
  match r.normal.outputFile with
  | none => files
  | some path =>
    match files.keep (Path.ofText path) with
    | .ok (files, _) => files
    | .error _ => files

/-- The files after the log was set up. A request that needs no work opens no file. -/
def Session.filesFor (s : Session) (r : LogRequest) : FileStore :=
  if s.log.isDone false r then s.world.files else withLogFile s.world.files r

/-- Sets the log up. -/
def Session.setUpLog (s : Session) (options : OptionValues) (c : Configuration) :
    Except Stop Session :=
  match requestOf options c with
  | .error e => .error (.crashed (.error e))
  | .ok r =>
    match s.log.configure (openLog s.world.files) false r with
    | (.error e, _) => .error (.crashed (.error e))
    | (.ok (), log) => .ok { s with log, world := { s.world with files := s.filesFor r } }

/-- Loads the configuration and sets the log up. -/
def Session.prepare (s : Session) (options : OptionValues) :
    Except Stop (Configuration × Session) := do
  let path := (options.get? .config).map Path.ofText
  let (loaded, cache) ← valueOf isLoadError (s.cache.load s.world path)
  let s ← Session.setUpLog { s with cache } options loaded.configuration
  return (loaded.configuration, s)

/-! ## Schemas -/

/-- The objects that paths lead to. -/
def Session.objects (s : Session) (targets : List String) : Traced (List Importable) :=
  ClassTable.inOrder (targets.map fun t ↦ Traced.ofExcept (s.world.registry.resolve t))

/-- Makes the schema of a task. -/
def Session.schema (s : Session) (c : Configuration) (task : Task) : Traced Entries := do
  let g : Generator Hint := { host := s.table.host [], settings := c.settings }
  match task with
  | .freestanding target =>
    let object ← Traced.ofExcept (s.world.registry.resolve target)
    freestandingSchema g Generator.ampleBudget (← s.table.typeOf object.subject)
  | .components targets =>
    let objects ← s.objects targets
    let types ← ClassTable.inOrder (objects.map fun o ↦ s.table.typeOf o.subject)
    Components.document g Generator.ampleBudget types

/-- A text that ends its last line. -/
def endLine (text : String) : String :=
  if text.toList.getLast? == some '\n' then text else text ++ "\n"

/-- The text of a schema in a format for files. -/
def schemaText (schema : Entries) (format : String) : Except Stop String :=
  match Output.format (.map schema) format with
  | .ok (.text text) => .ok (endLine text)
  | .ok (.value _) | .error (.unknownFormat _) =>
    .error (.refused
      ["[red]Error:[/red] Unsupported format '" ++ format ++ "'",
        "[yellow]Hint:[/yellow] Use --format json or --format yaml"])
  | .error e => .error (.crashed (.error e))

/-- The text that a command asks for. -/
def Session.text (s : Session) (c : Configuration) (command : Command) : Except Stop String := do
  schemaText (← valueOf Error.isExpected (s.schema c command.task)) command.format

/-! ## Delivery -/

/-- The line about a file that was written. -/
def writtenLine (p : Path) : String := "[green]✓[/green] Wrote " ++ p.text

/-- The line about a file that is left alone. -/
def upToDateLine (p : Path) : String := "[dim]" ++ p.text ++ " is up to date[/dim]"

/-- Shows a text in its form for the console, or writes it to a file that does not hold it yet. -/
def deliver (console : String → Option String) (files : FileStore) (output : Option String)
    (shown text : String) : Except Stop (Report × FileStore) :=
  match output with
  | none => .ok ({ results := shown }, files)
  | some path =>
    let p := Path.ofText path
    let write : Except Stop (Report × FileStore) :=
      match files.put p text with
      | .ok files => .ok (Report.tell console {} (writtenLine p), files)
      | .error e => .error (.crashed (.error e))
    if files.isThere p then
      match files.text p with
      | .error e => .error (.crashed (.error e))
      | .ok found =>
        if found == text then .ok (Report.tell console {} (upToDateLine p), files) else write
    else write

/-! ## Runs -/

/-- What a console shows of a text. -/
def Session.shown (s : Session) (command : Command) (text : String) : String :=
  if command.pretty then s.panel command.task.title command.format text else text

/-- Carries out a command. -/
def Session.carryOut (s : Session) (c : Configuration) (command : Command) :
    Except Stop (Report × Session) := do
  let text ← s.text c command
  let (report, files) ←
    deliver s.console s.world.files command.output (s.shown command text) text
  return (report, { s with world := { s.world with files } })

/-- Runs a command line. A run that stops while it is prepared leaves everything as it was. -/
def Session.run (s : Session) (args : List String) : Report × Session :=
  match readGeneral args with
  | .error detour => (s.answer detour, s)
  | .ok (options, rest) =>
    match s.prepare options with
    | .error stop => (stop.report s.console, s)
    | .ok (c, s) =>
      match readCommand rest with
      | .error detour => (s.answer detour, s)
      | .ok command =>
        match s.carryOut c command with
        | .error stop => (stop.report s.console, s)
        | .ok result => result

end CommandLine

end Schemata
