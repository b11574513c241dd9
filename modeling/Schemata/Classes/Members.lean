import Schemata.Classes.Definition
import Schemata.Classes.Metadata
import Schemata.Host

/-!
# Members of classes

What the engine is told about a class. The constants of an enum are shared fields of the enum's own
type; they go by the names that they show. The
members of a record are its fields, named as they are. Any other class has the annotated
names and the accessors of its whole ancestry, from the farthest class to the nearest: a nearer
declaration replaces a farther one and keeps its place.

A library class contributes its accessors, which state no type.
-/

namespace Schemata

/-- Who can see a name. -/
def visibilityOf (name : String) : Visibility :=
  if startsPrivate name && !"__".toList.isSuffixOf name.toList then .ownType
  else if name.startsWith "_" then .subtypes
  else .everyone

/-- The declared name of a stored name. -/
def declaredName (className stored : String) : String :=
  let mark := ("_" ++ bareClassName className ++ "__").toList
  if mark.isPrefixOf stored.toList then String.ofList (stored.toList.drop (mark.length - 2))
  else stored

namespace ClassTable

variable (table : ClassTable)

/-- A member with its hint, type parameters replaced, and the metadata of hint and accessor. -/
def member (name : String) (kind : MemberKind) (hint : Option Hint) (bindings : Hint.Bindings)
    (isStatic : Bool) (attached : List Datum) : Traced (Member Hint) := do
  let finish (declaredType : Option (TypeRef Hint)) (metadata : List Datum) :
      Traced (Member Hint) := do
    let tags ← Datum.toTags table (metadata ++ attached)
    return { name, kind, declaredType, visibility := visibilityOf name, isStatic, tags }
  match hint with
  | none => finish none []
  | some .null => finish none []
  | some h => do
    let h := h.substitute bindings
    finish (some (← table.reference h)) h.metadata

/-- The types that stand for the type parameters of a reference's class. -/
def bindings (t : TypeRef Hint) : Hint.Bindings :=
  match t.source with
  | some (.applied .generic c args) =>
    Hint.bindingsOf (((table.find? c).map (·.parameters)).getD []) args
  | _ => []

/-! ## Enums and records -/

/-- The constants of an enum as members. -/
def enumMembers (cls : Hint) (t : TypeRef Hint) : List (Member Hint) :=
  let constants := ((table.declaredAncestry cls).head?.map (·.constants)).getD []
  (constants.filter fun c ↦ c.name == c.canonical).map fun c ↦
    { name := (table.shownName cls c.name).text, kind := .field, declaredType := some t,
      isStatic := true }

/-- The names of a record's fields. -/
def fieldNames (cls : Hint) : List String :=
  match table.layout? cls with
  | some layout => (layout.fields.filter (·.role = .field)).map (·.name)
  | none => ((table.places? cls).getD []).map (·.1)

/-- The fields of a record as members. -/
def recordMembers (cls : Hint) (bindings : Hint.Bindings) : Traced (List (Member Hint)) := do
  if table.isModel cls then
    inOrder ((table.modelHints cls).map fun (name, h) ↦
      table.member name .method (some h) bindings false [])
  else
    let hints ← table.hintsOf cls
    inOrder ((table.fieldNames cls).map fun name ↦
      table.member name .method (Keyed.get? hints name) bindings false [])

/-! ## Other classes -/

/-- An annotated name as a member: an attribute of the class itself is shared. -/
def annotatedMember (className stored : String) (hint : Option Hint) (bindings : Hint.Bindings) :
    Traced (Member Hint) :=
  let name := declaredName className stored
  match hint with
  | some h =>
    if h.base.isClassVar then
      table.member name .field (some h.base.withoutClassVar) bindings true []
    else table.member name .field (some h) bindings false []
  | none => table.member name .field none bindings false []

/-- An attribute of a class body as a member, if it gives access without arguments. -/
def accessorMember (shown name : String) (a : Accessor) (bindings : Hint.Bindings) :
    Traced (Option (Member Hint)) := do
  match a.kind with
  | .property =>
    return some (← table.member name .property (← table.resultOf shown a) bindings false a.attached)
  | .shared =>
    return some (← table.member name .method (← table.resultOf shown a) bindings true a.attached)
  | .method =>
    if a.plainCall then
      return some (← table.member name .method (← table.resultOf shown a) bindings false a.attached)
    else return none

/-- The members found so far, by stored name. -/
abbrev Found := List (String × Member Hint)

/-- Adds the annotated names of a class. -/
def addAnnotated (d : DeclaredClass) (hints : List (String × Hint)) (bindings : Hint.Bindings) :
    List String → Found → Traced Found
  | [], found => return found
  | stored :: rest, found =>
    if isReserved stored then addAnnotated d hints bindings rest found
    else do
      let m ← table.annotatedMember d.name.simpleName stored (Keyed.get? hints stored) bindings
      addAnnotated d hints bindings rest (Keyed.put found stored m)

/-- Adds the accessors of a class body. -/
def addAccessors (owner : ClassName) (bindings : Hint.Bindings) :
    List (String × Accessor) → Found → Traced Found
  | [], found => return found
  | (name, a) :: rest, found =>
    if isReserved name then addAccessors owner bindings rest found
    else do
      let shown :=
        "<function " ++ owner.path ++ "." ++ declaredName owner.simpleName name ++ ">"
      match ← table.accessorMember shown name a bindings with
      | some m => addAccessors owner bindings rest (Keyed.put found name m)
      | none => addAccessors owner bindings rest found

/-- The accessors of a declared class, by stored name. -/
def declaredAccessors (d : DeclaredClass) : List (String × Accessor) :=
  d.body.filterMap fun
    | (name, .accessor a) => some (name, a)
    | _ => none

/-- The accessors of a library class. -/
def libraryAccessors (l : LibraryClass) : List (String × Accessor) :=
  l.accessors.flatMap fun (kind, names) ↦ names.map fun name ↦ (name, { kind })

/-- Adds the members that one class of an ancestry contributes. -/
def addClass (hints : List (String × Hint)) (bindings : Hint.Bindings) (cls : Hint)
    (found : Found) :
    Traced Found :=
  match cls with
  | .named c =>
    match table.find? c with
    | some d => do
      let found ← table.addAnnotated d hints bindings (d.hints.map (·.1)) found
      table.addAccessors d.name bindings (declaredAccessors d) found
    | none =>
      match LibraryClass.get? c with
      | some l => table.addAccessors c bindings (libraryAccessors l) found
      | none => return found
  | _ => return found

/-- Adds the members of several classes, one after the other. -/
def addClasses (hints : List (String × Hint)) (bindings : Hint.Bindings) :
    List Hint → Found → Traced Found
  | [], found => return found
  | cls :: rest, found => do
    addClasses hints bindings rest (← table.addClass hints bindings cls found)

/-- The members of a class that is neither an enum nor a record. -/
def plainMembers (cls : Hint) (bindings : Hint.Bindings) : Traced (List (Member Hint)) := do
  let hints ← table.hintsOf cls
  return (← table.addClasses hints bindings (table.ancestry cls).reverse []).map (·.2)

/-! ## The host -/

/-- The members of a type. -/
def members (t : TypeRef Hint) : Traced (List (Member Hint)) :=
  match table.classOf t with
  | none => return []
  | some cls =>
    if table.isEnum cls then return table.enumMembers cls t
    else if t.source.isSome && cls == .named .barUnion then Traced.fail .wrongType
    else if table.isRecord cls then table.recordMembers cls (table.bindings t)
    else table.plainMembers cls (table.bindings t)

/-- A tag that makes a type a choice between types. -/
def anyOf (types : List (TypeRef Hint)) : Tag Hint :=
  .ofEntries "typing.AnyOf" [("value", .array (types.map .type))] false

/-- The tags of a type. A union has no class that could carry tags, and says what it is by one. -/
def tags (t : TypeRef Hint) : Traced (List (Tag Hint)) :=
  if t.fullName == "typing.Union" && !t.generics.isEmpty then return [anyOf t.generics]
  else if t.fullName == "typing.Optional" && !t.generics.isEmpty then
    return [anyOf (t.generics ++ [nullType])]
  else
    match table.classOf t with
    | some cls => Datum.toTags table (table.attachedTo cls)
    | none => return []

/-- Whether an instance of the first type can stand where the second is expected. -/
def isAssignable (a b : TypeRef Hint) : Bool :=
  match table.classOf a, table.classOf b with
  | some a, some b => table.isSubclass a b
  | _, _ => a == b

/-- The declared classes as a host; `custom` holds the injected properties by full type name. -/
def host (custom : List (String × List (CustomProperty Hint))) : Host Hint where
  members := table.members
  tags := table.tags
  customProperties t := return (Keyed.get? custom t.fullName).getD []
  isAssignable a b := return table.isAssignable a b
  isRecord t := return ((table.classOf t).map table.isRecord).getD false
  isBaseMember m := LibraryClass.rootMembers.contains m.name

end ClassTable

end Schemata
