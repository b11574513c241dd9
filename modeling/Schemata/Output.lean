import Schemata.Json.Printer
import Schemata.Yaml.Printer

/-!
# Output formats

A schema is handed out as a value, as indented JSON, or as YAML.
-/

namespace Schemata

/-- A schema in one of the output formats. -/
inductive Output where
  /-- The schema itself. -/
  | value (v : Value)
  /-- The schema as text. -/
  | text (s : String)

/-- A schema in the named format. -/
def Output.format (schema : Value) (name : String) : Except Error Output :=
  match name with
  | "dict" => .ok (.value schema)
  | "json" => (Json.pretty schema).map .text
  | "yaml" => (Yaml.print schema).map .text
  | _ => .error (.unknownFormat name)

end Schemata
