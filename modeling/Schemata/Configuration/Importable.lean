import Schemata.Classes.Members
import Schemata.Settings

/-!
# Importable objects

Configuration files and commands name types, filters and processors by import paths. A `Registry`
holds the modules that can be imported, each with the objects in it, and `Registry.resolve` follows
a path: the part before the first colon, or else before the last point, names the module, and the
points of the rest go from an object to its attributes.
-/

namespace Schemata

/-- What a configuration can do with an object. -/
inductive Use where
  /-- A predicate on members. -/
  | filter (keeps : TypeRef Hint → Member Hint → Bool)
  /-- A processor. -/
  | processor (rule : ProcessorRule Hint)
  /-- A class whose instances are processors. -/
  | processorClass (rule : ProcessorRule Hint)
  /-- Something else that can be called. -/
  | callable
  /-- A class whose instances cannot be made without arguments. -/
  | demanding
  /-- Something that cannot be called. -/
  | inert
  deriving Inhabited

/-- An object that a path can lead to. -/
inductive Importable where
  | mk (subject : Datum) (qualifiedName : Option String) (use : Use)
      (parts : List (String × Importable)) (listed : List String)

namespace Importable

instance : Inhabited Importable := ⟨mk default none .inert [] []⟩

/-- The object itself. -/
def subject : Importable → Datum
  | mk d _ _ _ _ => d

/-- The path of its definition inside its module, for objects that know it. -/
def qualifiedName : Importable → Option String
  | mk _ n _ _ _ => n

/-- What a configuration can do with it. -/
def use : Importable → Use
  | mk _ _ u _ _ => u

/-- Its attributes. -/
def parts : Importable → List (String × Importable)
  | mk _ _ _ ps _ => ps

/-- The names of its public attributes in order. Those of `listed` are known by name only. -/
def publicNames : Importable → List String
  | mk _ _ _ ps listed =>
    let names := (ps.map (·.1) ++ listed).eraseDups.filter (!·.startsWith "_")
    names.mergeSort fun a b ↦ decide (a ≤ b)

/-- A class. -/
def ofClass (name : ClassName) (use : Use) (listed : List String) : Importable :=
  mk (.hint (.named name)) (some name.path) use [] listed

/-- A function. -/
def ofFunction (moduleName path : String) (use : Use) : Importable :=
  mk (.hint (.special ("<function " ++ moduleName ++ "." ++ path ++ ">") "function")) (some path)
    use
    [] []

end Importable

/-- A module that can be imported. -/
structure Module where
  /-- The name. -/
  name : String
  /-- Whether it can have modules inside. -/
  isPackage : Bool := false
  /-- The objects in it. -/
  content : Importable
  deriving Inhabited

/-- The modules that can be imported. -/
abbrev Registry := List Module

/-- The pieces of a path between points. -/
def pathPieces (cs : List Char) : List (List Char) :=
  match cs with
  | [] => [[]]
  | c :: rest =>
    if c = '.' then [] :: pathPieces rest
    else
      match pathPieces rest with
      | piece :: pieces => (c :: piece) :: pieces
      | [] => [[c]]

namespace Registry

/-- The module of a name. -/
def find? (registry : Registry) (name : String) : Option Module :=
  List.find? (fun m ↦ m.name == name) registry

/-- Why a module cannot be imported: enclosing modules are imported first, and only packages have
modules inside. -/
def missing? (registry : Registry) : Option Module → String → List String → Option String
  | _, _, [] => none
  | parent, before, piece :: pieces =>
    let name := if before.isEmpty then piece else before ++ "." ++ piece
    match registry.find? name with
    | some m => missing? registry (some m) name pieces
    | none =>
      some ("No module named " ++ Text.quoted name ++
        match parent with
        | some p => if p.isPackage then "" else "; " ++ Text.quoted p.name ++ " is not a package"
        | none => "")

/-- The module part and the attribute part of a path. -/
def splitPath (path : List Char) : List Char × List Char :=
  if path.contains ':' then
    (path.takeWhile (· ≠ ':'), (path.dropWhile (· ≠ ':')).drop 1)
  else
    (((path.reverse.dropWhile (· ≠ '.')).drop 1).reverse,
      (path.reverse.takeWhile (· ≠ '.')).reverse)

/-- Goes from an object to its attributes. -/
def follow (path moduleName : String) : Importable → List String → Except Error Importable
  | object, [] => .ok object
  | object, name :: names =>
    match Keyed.get? object.parts name with
    | some part => follow path moduleName part names
    | none =>
      .error (.unresolved path ("'" ++ name ++ "' not found in '" ++ moduleName ++
        "'. Available: " ++ Text.joinWith ", " (object.publicNames.take 10)))

/-- The object that a path leads to. -/
def resolve (registry : Registry) (path : String) : Except Error Importable :=
  let (moduleName, attributes) := splitPath path.toList
  if moduleName.isEmpty || attributes.isEmpty then
    .error (.unresolved path "Invalid format - expected 'package.module:attribute'")
  else if moduleName.head? == some '.' then .error .wrongType
  else
    let name := String.ofList moduleName
    match registry.find? name with
    | some m => follow path name m.content ((pathPieces attributes).map String.ofList)
    | none =>
      let reason := registry.missing? none "" ((pathPieces moduleName).map String.ofList)
      .error (.unresolved path ("Module '" ++ name ++ "' not found: " ++ reason.getD ""))

/-- The object that a value names, if the value is a path at all. -/
def resolveValue (registry : Registry) : Value → Except Error Importable
  | .str path => registry.resolve path
  | .list _ => .error .noAttribute
  | .map _ => .error .noAttribute
  | _ => .error .wrongType

end Registry

end Schemata
