import Schemata.CommandLine.Run
import Schemata.Configuration.Standard

/-!
# The program

The outer layer of the command line. It looks at the few files that a run can depend on, lets
`CommandLine.Session.run` decide everything, and carries out what changed. The modules that paths
can lead to are those that are always there.
-/

namespace Schemata

namespace CommandLine

/-- The variables in a block of settings, each ended by a null character. -/
def environmentOf (block : String) : Environment :=
  (block.splitOn "\x00").filterMap fun row ↦
    match row.splitOn "=" with
    | name :: first :: more => some (name, Text.joinWith "=" (first :: more))
    | _ => none

/-- The locations of the files that a run can depend on: configuration files that are named or can
be found, and the file to write to. -/
def locationsOf (files : FileStore) (env : Environment) (args : List String) : List Location :=
  let place (path : String) : Location := files.place (Path.ofText path)
  let general := (readGeneral args).toOption
  let options : OptionValues := (general.map (·.1)).getD []
  let output := (general.bind fun (_, rest) ↦ (readCommand rest).toOption).bind (·.output)
  let named := [options.get? .config, env.override? "TYPESCHEMA_CONFIG_PATH", output].filterMap id
  named.map place ++
    (Configuration.ancestors files.here).map (· ++ [Configuration.projectFile])

/-- The path of a location. -/
def pathOf (l : Location) : String := Path.text { isAbsolute := true, parts := l }

/-- The text of the file at a location, if there is one that can be read. -/
def contentOf (l : Location) : IO (Option String) := do
  try
    return some (← IO.FS.readFile (pathOf l))
  catch _ => return none

/-- The store with the files at some locations, as far as they are there. -/
def snapshot (files : FileStore) (locations : List Location) : IO FileStore :=
  locations.foldlM (fun files l ↦ do
    match ← contentOf l with
    | some content => return files.write l content (some 0)
    | none => return files) files

/-- Writes the files that a run changed. -/
def carryOver (before after : FileStore) : IO Unit :=
  after.files.forM fun (l, f) ↦ do
    if (before.fileAt? l).map (·.content) != some f.content then
      IO.FS.createDirAll (pathOf l.dropLast)
      IO.FS.writeFile (pathOf l) f.content

/-- How the program is called. -/
def usage : String :=
  "Usage: schemata [-q] [-V] [--log-level LEVEL] [-c CONFIG] schema json|components TARGET... " ++
    "[-f FORMAT] [-o FILE]\n       schemata -v|--version\n       schemata --help\n"

/-- What the program tells about itself. -/
def about : Topic → String
  | .version => "schemata version 0.1.0\n"
  | .help _ => usage

end CommandLine

end Schemata

open Schemata CommandLine in
/-- Runs the program. -/
def main (args : List String) : IO UInt32 := do
  let here := (Path.ofText (← IO.currentDir).toString).parts
  let env := environmentOf ((← contentOf ["proc", "self", "environ"]).getD "")
  let start : FileStore := { here, folders := [here] }
  let files ← snapshot start (locationsOf start env args)
  let session : Session :=
    { world := { registry := Registry.standard, env, files }, table := { moduleName := "" }
      information := about }
  let (report, after) := session.run args
  carryOver files after.world.files
  IO.print report.results
  IO.eprint (if report.exitCode == 2 then usage else report.messages)
  return UInt32.ofNat report.exitCode
