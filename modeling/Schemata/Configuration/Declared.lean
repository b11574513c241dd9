import Schemata.Configuration.Importable

/-!
# Declared classes as importable objects

The module of a class table: its classes and type parameters, and below each class the attributes
that the class has itself or takes over from the classes it extends. A constant of an enum is an
object of its own. An annotated name without a value is no attribute, and the fields of a model are
attributes of its instances only.
-/

namespace Schemata

namespace ClassTable

variable (table : ClassTable)

/-- The datum that an attribute holds. -/
def attributeSubject (path : String) : Attribute → Datum
  | .value d => d
  | .nested c => .hint (.named c)
  | .accessor a =>
    match a.kind with
    | .property => .hint (.special "<property object>" "property")
    | _ => .hint (.special ("<function " ++ path ++ ">") "function")
  | .other => .hint (.special "<object>" "object")

/-- The constants of an enum as objects, under each of their names. -/
def constantParts (d : DeclaredClass) : List (String × Importable) :=
  d.constants.filterMap fun c ↦ (table.constant? d.name c.name).map fun subject ↦
    (c.name, .mk subject none .inert
      [("name", .mk (.plain (.str c.canonical)) none .inert [] []),
        ("value", .mk c.value none .inert [] [])]
      [])

/-- The names that the instances of library classes bring along. -/
def inheritedNames (cls : Hint) : List String :=
  if table.isModel cls then
    ["construct", "copy", "dict", "from_orm", "json", "model_computed_fields", "model_config",
      "model_construct", "model_copy", "model_dump"]
  else if table.isNamedTuple cls then ["count", "index"]
  else []

/-- The attributes of a class by name, with the names that are known only: its own and those it
takes over, nearest first. Classes declared inside are followed as far as `depth` reaches. -/
def classParts : Nat → ClassName → List (String × Importable)
  | 0, _ => []
  | depth + 1, name =>
    let layers := table.declaredAncestry (.named name)
    let isModel := table.isModel (.named name)
    let own (d : DeclaredClass) : List (String × Importable) :=
      let constants := table.constantParts d
      let hidden (n : String) : Bool :=
        (Keyed.get? constants n).isSome || (isModel && (Keyed.get? d.hints n).isSome)
      let others := d.body.filter fun (n, _) ↦ !hidden n
      constants ++ others.map fun (n, a) ↦
        let subject := attributeSubject (d.name.path ++ "." ++ n) a
        match a with
        | .nested c => (n, .mk subject (some c.path) .callable (classParts depth c) [])
        | .accessor x =>
          (n, .mk subject (if x.kind = .property then none else some (d.name.path ++ "." ++ n))
            (if x.kind = .property then .inert else .callable) [] [])
        | _ => (n, .mk subject none .inert [] [])
    let places := ((table.places? (.named name)).getD []).map fun (n, _) ↦
      (n, Importable.mk (.hint (.special "<object>" "_tuplegetter")) none .inert [] [])
    (layers.map own).flatten ++ places

/-- A declared class as an object. -/
def classObject (d : DeclaredClass) : Importable :=
  let parts := table.classParts table.classes.length d.name
  let shown := if d.constants.isEmpty then parts else table.constantParts d
  .mk (.hint (.named d.name)) (some d.name.path) .callable parts
    (shown.map (·.1) ++ table.inheritedNames (.named d.name))

/-- The module that the classes are declared in. -/
def asModule : Module :=
  let outer := table.classes.filter fun d ↦ d.name.path == d.name.simpleName
  { name := table.moduleName
    content := .mk default none .inert
      (outer.map (fun d ↦ (d.name.path, table.classObject d)) ++
        table.parameters.map fun (n, h) ↦ (n, .mk (.hint h) none .inert [] []))
      [] }

/-- The type that an object stands for. -/
def typeOf (d : Datum) : Traced (TypeRef Hint) :=
  match d with
  | .hint h => table.reference h
  | .plain .null => return nullType
  | .plain (.str s) => table.reference (.text s)
  | d => do
    if !d.deepHashable table then Traced.fail .wrongType
    unsupported (.special d.shown "object")

end ClassTable

end Schemata
