import Schemata.Configuration.Importable
import Schemata.Configuration.Placeholder
import Schemata.Logging.Settings

/-!
# Configurations

A `Configuration` is the settings of the engine and of the log. It is read from a mapping whose keys
are checked in a fixed order, so that of several faults the first one in that order is reported. A
fault of the shape that a key must have is a configuration error that names the key; values that are
no mapping where one is taken for granted fail as such.
-/

namespace Schemata

/-- The settings of the engine and of the log. -/
structure Configuration where
  /-- The settings of the engine. -/
  settings : Settings Hint := {}
  /-- The settings of the log. -/
  logging : LogSettings := {}

instance : Inhabited Configuration := ⟨{}⟩

namespace Configuration

/-! ## Simple types -/

/-- A simple type as it is configured: a schema type, or a mapping with a type and maybe a
format. -/
def simpleType (name : Value) : Value → Except Error SimpleType
  | .str type => .ok ⟨type, .null⟩
  | .map entries =>
    match Value.lookup (.str "type") entries with
    | some type =>
      if type.truthy then .ok ⟨type.text, (Value.lookup (.str "format") entries).getD .null⟩
      else undefinedType
    | none => undefinedType
  | _ => undefinedType
where
  /-- The entry does not say which type it is. -/
  undefinedType : Except Error SimpleType :=
    .error (.configuration "simple_type_mappings"
      ("entry '" ++ name.text ++ "' must define 'type'"))

/-- The configured simple types. -/
def simpleTypes : Value → Except Error SimpleType.Table
  | .map entries => entries.mapM fun (name, entry) ↦ return (name.text, ← simpleType name entry)
  | _ => .error (.configuration "simple_type_mappings" "must be a mapping")

/-! ## Filters and processors -/

/-- An object that a path leads to; a path that leads nowhere is a fault of the component. -/
def imported (registry : Registry) (component : String) (path : Value) : Except Error Importable :=
  match registry.resolveValue path with
  | .error (.unresolved path reason) =>
    .error (.configuration component (Error.unresolved path reason).message)
  | other => other

/-- The filter that a path leads to. -/
def filter (registry : Registry) (path : Value) : Except Error (MemberFilter Hint) := do
  let object ← imported registry "property_inclusion_filter" path
  let name := object.qualifiedName.getD ""
  match object.use with
  | .filter keeps => return ⟨name, keeps⟩
  | .processor _ | .inert =>
    throw (.configuration "property_inclusion_filter" ("'" ++ path.text ++ "' is not callable"))
  | _ => return ⟨name, fun _ _ ↦ true⟩

/-- The processor that a path leads to. -/
def processor (registry : Registry) (path : Value) : Except Error (Processor Hint) := do
  let object ← imported registry "embedded_type_processors" path
  match object.use, object.subject with
  | .processor rule, .made cls _ _ => return ⟨cls.simpleName, rule⟩
  | .processorClass rule, .hint (.named cls) => return ⟨cls.simpleName, rule⟩
  | .demanding, _ => throw .wrongType
  | _, _ =>
    throw (.configuration "embedded_type_processors"
      ("'" ++ path.text ++ "' does not define process(context)"))

/-- The processors that a list of paths leads to. -/
def processors (registry : Registry) : Value → Except Error (List (Processor Hint))
  | .list paths => paths.mapM (processor registry)
  | _ => .error (.configuration "embedded_type_processors" "must be a list of import paths")

/-! ## The whole configuration -/

/-- Settings of the engine, or why they are invalid. -/
def validated (settings : Settings Hint) : Except Error (Settings Hint) :=
  match settings.validate with
  | .ok s => .ok s
  | .error e => .error (.configuration "generator" e.message)

/-- The settings of the engine that a mapping spells out. -/
def engineSettings (registry : Registry) (entries : List (Value × Value)) :
    Traced (Settings Hint) := do
  let get (key : String) : Option Value := Value.lookup (.str key) entries
  let flag (key : String) (fallback : Bool) : Bool := ((get key).map (·.truthy)).getD fallback
  let simpleTypes ← match get "simple_type_mappings" with
    | none => pure SimpleType.defaults
    | some v => do
      let overrides ← Traced.ofExcept (simpleTypes v)
      Traced.debug ("Loaded " ++ toString overrides.length ++ " simple type mappings")
      pure (SimpleType.defaults.override overrides)
  let filter ← match (get "property_inclusion_filter").filter (·.truthy) with
    | none => pure none
    | some path => some <$> Traced.ofExcept (filter registry path)
  let processors ← match get "embedded_type_processors" with
    | none => pure []
    | some paths => Traced.ofExcept (processors registry paths)
  Traced.ofExcept (validated {
    simpleTypes, filter, processors
    includeBuiltins := flag "include_builtin_processors" true
    requireNonNulls := flag "require_non_nulls_by_default" true
    refPrefix := ((get "ref_prefix").map (·.text)).getD componentsPrefix })

/-- The settings of the log that a mapping spells out, before the environment overrides them. -/
def logSettings (entries : List (Value × Value)) : Except Error LogSettings :=
  match (Value.lookup (.str "logging") entries).filter (·.truthy) with
  | none => .ok (.ofEntries [])
  | some (.map entries) => .ok (.ofEntries entries)
  | some _ => .error .noAttribute

/-- The configuration that a mapping spells out. -/
def ofEntries (registry : Registry) (env : Environment) (entries : List (Value × Value)) :
    Traced Configuration := do
  let settings ← engineSettings registry entries
  let logging ← (← Traced.ofExcept (logSettings entries)).override env
  return { settings, logging }

/-- The configuration that a value spells out. -/
def ofValue (registry : Registry) (env : Environment) : Value → Traced Configuration
  | .map entries => ofEntries registry env entries
  | .list items =>
    Traced.fail (if items.any (·.sameKey (.str firstKey)) then .wrongType else .noAttribute)
  | .str s => Traced.fail (if (s.splitOn firstKey).length > 1 then .wrongType else .noAttribute)
  | _ => Traced.fail .wrongType
where
  /-- The key that is looked for first. -/
  firstKey : String := "simple_type_mappings"

/-- The configuration that a value spells out after its placeholders have been filled. -/
def read (registry : Registry) (env : Environment) (v : Value) : Traced Configuration := do
  ofValue registry env (← Placeholder.fill env v)

end Configuration

end Schemata
