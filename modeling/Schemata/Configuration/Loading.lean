import Schemata.Configuration.Reading
import Schemata.Files
import Schemata.Toml.Reading
import Schemata.Yaml.Reading

/-!
# Loading configurations

A configuration file is a YAML manifest, told by its ending, or a TOML file, in which a table of its
own may hold the configuration. Without an explicit path the file is discovered: the environment may
name it, the working directory may hold a project file, or the nearest directory above it whose
project file has the table. Where nothing is found, the defaults hold.

A loaded configuration is kept under the path it was loaded from and the time of the file, as one of
the thirty-two that were used last. `Cache.load` gives a kept configuration without looking at the
file again.
-/

namespace Schemata

/-- Where configurations come from. -/
structure World where
  /-- The modules that paths can lead to. -/
  registry : Registry
  /-- The variables of the environment. -/
  env : Environment := []
  /-- The files. -/
  files : FileStore := {}

namespace Configuration

/-! ## Files -/

/-- The name of a project file. -/
def projectFile : String := "pyproject.toml"

/-- What a manifest specifies. -/
def manifestSpec (name : String) : Value → Except Error (List (Value × Value))
  | .map entries =>
    let get (key : String) : Value := (Value.lookup (.str key) entries).getD .null
    match get "kind" with
    | .str "Config" =>
      match get "spec" with
      | .map spec => .ok spec
      | spec =>
        if spec.truthy then .error (.configuration name "'spec' must be a mapping") else .ok []
    | kind =>
      .error (.configuration name
        ("YAML config files must use 'kind: Config', got 'kind: " ++ kind.text ++ "'"))
  | v => .error (.configuration name ("expected a mapping, got " ++ v.typeName))

/-- The configuration in a manifest. -/
def ofManifest (world : World) (name content : String) : Traced Configuration :=
  match Yaml.read (String.ofList (plainLines content.toList)) with
  | .error .malformed => Traced.fail (.configuration name "invalid YAML: malformed document")
  | .error (.impossible reason) => Traced.fail (.invalidValue reason)
  | .ok v => do
    let spec ← Traced.ofExcept (manifestSpec name v)
    read world.registry world.env (.map spec)

/-- The table of the configuration in a document, if it has one. -/
def ownTable (document : Value) : Except Error (Option Value) :=
  let get (key : String) : Value → Except Error (Option Value)
    | .map entries => .ok (Value.lookup (.str key) entries)
    | _ => .error .noAttribute
  do
    match ← get "tool" document with
    | none => return none
    | some tool => get "typeschema" tool

/-- The configuration in a TOML file: in its own table, or the whole file unless that is a project
file. -/
def ofTable (world : World) (name content : String) : Traced Configuration :=
  match Toml.read? content with
  | none => Traced.fail (.configuration name "invalid TOML: malformed document")
  | some document => do
    match ← Traced.ofExcept (ownTable document) with
    | some table => read world.registry world.env table
    | none =>
      if name == projectFile then do
        Traced.write .warning "No [tool.typeschema] section found in pyproject.toml, using defaults"
        return {}
      else read world.registry world.env document

/-- The configuration in a file. -/
def ofFile (world : World) (p : Path) : Traced Configuration := do
  Traced.write .info ("Loading configuration from " ++ p.text)
  let f ← Traced.ofExcept (world.files.file p)
  if p.suffix == ".yaml" || p.suffix == ".yml" then ofManifest world p.name f.content
  else ofTable world p.name f.content

/-! ## Discovery -/

/-- Whether a document says something under the name of its own table. -/
def hasOwnTable (document : Value) : Except Error Bool :=
  match document with
  | .map entries =>
    match Value.lookup (.str "tool") entries with
    | none => .ok false
    | some (.map tool) => .ok (Value.hasKey tool (.str "typeschema"))
    | some (.list items) => .ok (items.any (·.sameKey (.str "typeschema")))
    | some (.str s) => .ok ((s.splitOn "typeschema").length > 1)
    | some _ => .error .wrongType
  | _ => .ok false

/-- A directory and those above it, nearest first, without the root. -/
def ancestors (l : Location) : List Location :=
  (List.range l.length).map fun n ↦ l.take (l.length - n)

/-- The project file with a table of its own in the first directory that has one. -/
def nearestProject (files : FileStore) : List Location → Except Error (Option Path)
  | [] => .ok none
  | l :: rest => do
    let p : Path := { isAbsolute := true, parts := l ++ [projectFile] }
    if files.isThere p then
      match Toml.read? (← files.file p).content with
      | none => throw .malformedTable
      | some document => if ← hasOwnTable document then return some p else nearestProject files rest
    else nearestProject files rest

/-- The file that an explicit path names. -/
def explicitFile (files : FileStore) (p : Path) : Except Error Path :=
  if files.isThere p then .ok p else .error (.missingFile p.text)

/-- The file that the environment names, if it names one that is there. -/
def namedFile (world : World) : Traced (Option Path) :=
  match world.env.override? "TYPESCHEMA_CONFIG_PATH" with
  | none => return none
  | some text => do
    let p := Path.ofText text
    if world.files.isThere p then
      Traced.debug ("Using config from TYPESCHEMA_CONFIG_PATH: " ++ p.text)
      return some p
    else
      Traced.write .warning ("TYPESCHEMA_CONFIG_PATH set but file not found: " ++ p.text)
      return none

/-- The file that is found without an explicit path. -/
def discover (world : World) : Traced (Option Path) := do
  match ← namedFile world with
  | some p => return some p
  | none =>
    let project := Path.ofText projectFile
    if world.files.isThere project then return some project
    else Traced.ofExcept (nearestProject world.files (ancestors world.files.here))

end Configuration

/-! ## The cache -/

/-- A configuration together with the number under which it was made. -/
structure Loaded where
  /-- The number. -/
  serial : Nat
  /-- The configuration. -/
  configuration : Configuration

/-- The configurations that are kept, the one used last first, and how many were made. -/
structure Cache where
  /-- The kept ones, by path and time. -/
  kept : List ((String × Int) × Loaded) := []
  /-- How many were made. -/
  made : Nat := 0

namespace Cache

/-- How many configurations are kept. -/
def capacity : Nat := 32

/-- The cache after a configuration that it does not keep was made. -/
def count (cache : Cache) (c : Configuration) : Loaded × Cache :=
  (⟨cache.made, c⟩, { cache with made := cache.made + 1 })

/-- The cache after a kept configuration was used once more. -/
def touch (cache : Cache) (key : String × Int) (l : Loaded) : Cache :=
  { cache with kept := (key, l) :: cache.kept.filter (·.1 != key) }

/-- The cache after a configuration was made and is to be kept. -/
def add (cache : Cache) (key : String × Int) (c : Configuration) : Loaded × Cache :=
  let (l, cache) := cache.count c
  (l, { cache with kept := ((key, l) :: cache.kept).take capacity })

/-- The cache without anything kept. -/
def clear (cache : Cache) : Cache := { cache with kept := [] }

/-- The configuration in a file, from the cache if the file is the one it was loaded from. -/
def loadFile (cache : Cache) (world : World) (p : Path) : Traced (Loaded × Cache) := do
  let p := p.fromRoot world.files.here
  let modified := match world.files.file p with
    | .ok f => f.modified
    | .error _ => 0
  let key := (p.text, modified)
  match cache.kept.find? (·.1 == key) with
  | some (_, l) => return (l, cache.touch key l)
  | none => return cache.add key (← Configuration.ofFile world p)

/-- The configuration at an explicit path, or else the one that is found, or else the defaults. -/
def load (cache : Cache) (world : World) (path : Option Path) : Traced (Loaded × Cache) := do
  match path with
  | some p => cache.loadFile world (← Traced.ofExcept (Configuration.explicitFile world.files p))
  | none =>
    match ← Configuration.discover world with
    | some p => cache.loadFile world p
    | none => do
      Traced.write .info "No configuration file found, using defaults"
      return cache.count {}

end Cache

end Schemata
