import Schemata.Classes.Marker
import Schemata.Classes.Lookup
import Schemata.TypeRef

/-!
# References to classes

`ClassTable.reference` turns a hint into the reference by which the engine knows a type. The hint
itself, without its metadata, is the handle that the reference carries, and `ClassTable.classOf`
finds the class behind a reference again: through the handle, or by the full name where there is
none.

Arguments are referenced where they count and nowhere else: a sequence refers to its distinct
elements, a dictionary to a key and a value, and a union with the absent value to the other type.
-/

namespace Schemata

namespace Hint

/-- The full name of a hint that has one. -/
def qualifiedName? : Hint → Option String
  | named c => some c.fullName
  | applied .native c _ => some c.fullName
  | model c args => some (model c args).inner
  | special shown "NewType" => some shown
  | _ => none

end Hint

namespace ClassTable

/-- The type of anything. -/
def anyType : TypeRef Hint :=
  { fullName := "typing.Any", simpleName := "Any", source := some (.named .any) }

/-- The type of the absent value. -/
def nullType : TypeRef Hint :=
  { fullName := "builtins.NoneType", simpleName := "NoneType", source := some (.named .null) }

/-- The type of the elements of binary data. -/
def byteType : TypeRef Hint :=
  { fullName := "builtins.byte", simpleName := "byte", kind := .primitive }

/-- A union of several types. -/
def unionType (types : List (TypeRef Hint)) (source : Option Hint) : TypeRef Hint :=
  { fullName := "typing.Union", simpleName := "Union", generics := types, source }

/-- A type or the absent value. -/
def optionalType (type : TypeRef Hint) (source : Option Hint) : TypeRef Hint :=
  { fullName := "typing.Optional", simpleName := "Optional", generics := [type], source }

/-- Computations one after the other. -/
def inOrder {α : Type} : List (Traced α) → Traced (List α)
  | [] => return []
  | x :: rest => do
    let a ← x
    return a :: (← inOrder rest)

/-- A hint of no known kind. -/
def unsupported (h : Hint) : Traced (TypeRef Hint) := do
  Traced.debug ("Unsupported type hint " ++ h.shown ++ " treated as Any")
  return anyType

variable (table : ClassTable)

/-- The element type of a sequence with the given arguments. -/
def elementType (args : List (Hint × Traced (TypeRef Hint))) : Traced (TypeRef Hint) := do
  let elements := args.filter fun (h, _) ↦ h != .ellipsis
  if !(elements.all fun (h, _) ↦ h.hashable table) then Traced.fail .wrongType
  let distinct := elements.foldl
    (fun acc (h, t) ↦ if acc.any (·.1 == h) then acc else acc ++ [(h, t)])
    ([] : List (Hint × Traced (TypeRef Hint)))
  match distinct with
  | [] => return anyType
  | [(_, t)] => t
  | several => return unionType (← inOrder (several.map (·.2))) none

/-- The reference of a class with arguments, for a hint that stands for it. -/
def shapedReference (h : Hint) (cls : ClassName) (args : List (Hint × Traced (TypeRef Hint))) :
    Traced (TypeRef Hint) := do
  let make (kind : TypeKind) (generics : List (TypeRef Hint)) : TypeRef Hint :=
    { fullName := cls.fullName, simpleName := cls.simpleName, kind, generics, source := some h }
  match table.shape cls with
  | .binary => return make .array [byteType]
  | .dictionary =>
    match args with
    | [(_, key), (_, value)] => return make .dictionary [← key, ← value]
    | _ => return make .dictionary [anyType, anyType]
  | .array => return make .array [← table.elementType args]
  | .primitive => return make .primitive (← inOrder (args.map (·.2)))
  | .enumeration => return make .enum (← inOrder (args.map (·.2)))
  | .plain => return make .object (← inOrder (args.map (·.2)))

/-- The reference of a class without arguments. -/
def classReference (cls : ClassName) : Traced (TypeRef Hint) :=
  if cls = ClassName.null then return nullType
  else if cls = ClassName.any then return anyType
  else table.shapedReference (.named cls) cls []

/-- The reference of a union. -/
def unionReference (h : Hint) (members : List (Hint × Traced (TypeRef Hint))) :
    Traced (TypeRef Hint) := do
  match members, members.filter (fun (m, _) ↦ m != .named .null) with
  | [_, _], [(_, present)] => return optionalType (← present) (some h)
  | all, _ => return unionType (← inOrder (all.map (·.2))) (some h)

mutual

/-- The reference that a hint stands for. -/
def reference : Hint → Traced (TypeRef Hint)
  | .null => return nullType
  | .named c => table.classReference c
  | .parameter _ => return anyType
  | .bounded _ bound => reference bound
  | .text s => do
    Traced.debug ("Unresolved forward reference '" ++ s ++ "' treated as Any")
    return anyType
  | .union bar members => unionReference (.union bar members) (argumentReferences members)
  | .annotated h _ => reference h
  | .literal values =>
    match values with
    | [] => return anyType
    | d :: _ => table.classReference (d.cls table)
  | .bare c => table.shapedReference (.bare c) c []
  | .applied style c args =>
    table.shapedReference (.applied style c args) c (argumentReferences args)
  | .model c args => table.shapedReference (.model c args) c (argumentReferences args)
  | h => unsupported h

/-- Hints, each with the reference it stands for. -/
def argumentReferences : List Hint → List (Hint × Traced (TypeRef Hint))
  | [] => []
  | h :: hs => (h, reference h) :: argumentReferences hs

end

/-! ## The class behind a reference -/

/-- The class with a full name, if one can be imported under it. -/
def importClass (fullName : String) : Option Hint :=
  let simpleName := String.ofList ((fullName.toList.reverse.takeWhile (· ≠ '.')).reverse)
  let moduleName := String.ofList (((fullName.toList.reverse.dropWhile (· ≠ '.')).drop 1).reverse)
  let name : ClassName := ⟨moduleName, simpleName⟩
  let known := (table.find? name).isSome || (LibraryClass.get? name).isSome
  if known && name ≠ ClassName.null then some (.named name) else none

/-- The class behind a reference. -/
def classOf (t : TypeRef Hint) : Option Hint :=
  match t.source with
  | some h => h.classBehind
  | none =>
    if t.kind ≠ .primitive && t.fullName.toList.contains '.' then table.importClass t.fullName
    else none

end ClassTable

end Schemata
