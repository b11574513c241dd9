import Schemata.Classes.Table
import Schemata.Tag

/-!
# Markers

The well-known metadata that authors attach to classes, accessors and fields, and instances of
classes declared as metadata. Anything else can be written as metadata too, but only markers and
metadata instances are schema tags.
-/

namespace Schemata

namespace Marker

/-- The module of the well-known markers. -/
def home : String := "typeschema.adapters.python.markers"

/-- The class of visibilities. -/
def visibilityClass : ClassName := ⟨"typeschema.kernel.domain.types", "Visibility"⟩

/-- A visibility as a datum. -/
def visibility (v : Visibility) : Datum :=
  .constant visibilityClass v.text (.plain (.int v.rank))

/-- The fields of a well-known marker with the values they have unless others are given. -/
def layout : String → List (String × Option Datum)
  | "OpenApiName" => [("value", none)]
  | "OpenApiExample" => [("value", none)]
  | "OpenApiPropertyType" => [("defined_by", none)]
  | "OpenApiByFields" => [("value", some (visibility .everyone))]
  | "JsonSchema" => [("require_non_nulls", some (.plain (.bool true)))]
  | "Custom" => [("name", none), ("value", none)]
  | _ => []

/-- The markers that list types. -/
def compositions : List String := ["OneOf", "AnyOf", "AllOf"]

/-- A well-known marker with its arguments. -/
def make (name : String) (arguments : List Datum) : Except Error Datum :=
  let cls : ClassName := ⟨home, name⟩
  if compositions.contains name then .ok (.made cls .marker [("value", .tuple arguments)])
  else
    let slots := layout name
    if arguments.length > slots.length then .error .wrongType
    else
      let given := arguments.map some ++ List.replicate (slots.length - arguments.length) none
      let fields := (slots.zip given).mapM fun ((field, fallback), value) ↦
        (value.or fallback).map fun d ↦ (field, d)
      match fields with
      | some fields => .ok (.made cls .marker fields)
      | none => .error .wrongType

end Marker

namespace Datum

/-- A hint as a datum: the absent value and texts are plain values. -/
def ofHint : Hint → Datum
  | .null => .plain .null
  | .text s => .plain (.str s)
  | h => .hint h

/-- Whether a datum is a schema tag. -/
def isTag : Datum → Bool
  | made _ .marker _ => true
  | made _ .metadata _ => true
  | _ => false

/-- Whether a datum is an instance of a class declared as metadata. -/
def isCustom : Datum → Bool
  | made _ .metadata _ => true
  | _ => false

/-- The name of the type of a datum. -/
def typeName (table : ClassTable) : Datum → String
  | plain v => v.typeName
  | list _ => "list"
  | tuple _ => "tuple"
  | constant c _ _ => c.simpleName
  | hint h => table.typeNameOf h
  | made c _ _ => c.simpleName

/-- The class of a datum. -/
def cls (table : ClassTable) : Datum → ClassName
  | constant c _ _ => c
  | made c _ _ => c
  | d => ⟨ClassName.coreModule, d.typeName table⟩

end Datum

namespace ClassTable

variable (table : ClassTable)

/-- A constant of an enum under one of its names. -/
def constant? (owner : ClassName) (name : String) : Option Datum := do
  let d ← table.find? owner
  let c ← d.constants.find? (·.name == name)
  return .constant owner c.canonical c.value

/-- Instance fields: the slots of a class, filled with given values or else with their own. -/
def fill (slots : List (String × Option Datum)) (given : List (String × Datum)) :
    Except Error (List (String × Datum)) :=
  if given.any fun (name, _) ↦ (Keyed.get? slots name).isNone then .error .wrongType
  else slots.mapM fun (name, fallback) ↦
    match (Keyed.get? given name).or fallback with
    | some d => .ok (name, d)
    | none => .error .wrongType

/-- An instance of a declared class with the given fields. -/
def instantiate (name : ClassName) (given : List (String × Datum)) : Except Error Datum :=
  let cls := Hint.named name
  match table.find? name, table.layout? cls, table.places? cls with
  | none, _, _ => .error .wrongType
  | some d, some layout, _ => do
    let slots := layout.fields.filter (·.role ≠ .classVar)
    let filled ← fill (slots.map fun f ↦ (f.name, f.default)) given
    let kept := filled.filter fun (n, _) ↦ slots.any fun f ↦ f.name == n && f.role = .field
    return .made name (if d.isMetadata then .metadata else .other) kept
  | some _, none, some places => return .made name .tuple (← fill places given)
  | some d, none, none =>
    match d.model with
    | some fields =>
      let slots := fields.map fun (n, _) ↦ (n, (d.body.find? (·.1 == n)).bind fun
        | (_, .value v) => some v
        | _ => none)
      return .made name .other (← fill slots given)
    | none => if given.isEmpty then .ok (.made name .other []) else .error .wrongType

/-- Attaches metadata to a class; only schema tags can be attached. -/
def checkTags (metadata : List Datum) : Except Error Unit :=
  match metadata.find? (!·.isTag) with
  | some d => .error (.notTag d.shown)
  | none => .ok ()

end ClassTable

end Schemata
