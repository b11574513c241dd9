import Schemata.Classes.Lookup
import Schemata.Classes.Marker

/-!
# Declaring classes

`ClassTable.define` adds a class to a table. It works out what the declaration fixes once and for
all: under which names the attributes are stored, the ancestry, the type parameters, and, depending
on the kind of the class, the fields of a record or model, the places of a named sequence or the
constants of an enum. A declaration that makes no sense is an error.
-/

namespace Schemata

/-- What kind of class is declared. -/
inductive ClassKind where
  /-- A class without further meaning. -/
  | plain
  /-- A class whose annotated names are its fields. -/
  | record
  /-- A model. -/
  | model
  /-- A fixed sequence whose places are named and typed. -/
  | namedTuple
  /-- A fixed sequence whose places are only named. -/
  | untypedTuple
  /-- An enum. -/
  | enum
  /-- A record declared as schema metadata. -/
  | metadata
  deriving DecidableEq, Inhabited

/-- An annotated name in the body of a class. -/
structure FieldSource where
  /-- The name. -/
  name : String
  /-- The hint. -/
  hint : Hint
  /-- The value assigned to it. -/
  default : Option Datum := none

/-- How a method of the body is declared. -/
inductive MethodForm where
  | method | property | shared | ofClass | cached | withoutReceiver | setterOnly
  deriving DecidableEq, Inhabited

/-- A method in the body of a class. -/
structure MethodSource where
  /-- The name. -/
  name : String
  /-- The stated type of the result. -/
  result : Option Hint := none
  /-- The parameters after the receiver, as written. -/
  parameters : List String := []
  /-- The form. -/
  form : MethodForm := .method
  /-- The metadata attached to the method. -/
  attached : List Datum := []

/-- A class as it is declared. -/
structure ClassSource where
  /-- The name. -/
  name : ClassName
  /-- The kind. -/
  kind : ClassKind := .plain
  /-- The classes it extends. -/
  bases : List Hint := []
  /-- The annotated names. -/
  fields : List FieldSource := []
  /-- Further assigned names. -/
  values : List (String × Datum) := []
  /-- The methods. -/
  methods : List MethodSource := []
  /-- The metadata attached to the class. -/
  attached : List Datum := []
  /-- Whether instances of a record cannot be changed. -/
  frozen : Bool := false
  /-- Whether the fields of a record are given by name only. -/
  byName : Bool := false
  /-- Whether the class extends the base class of its kind through its stated bases. -/
  derived : Bool := false
  /-- The names of the classes declared inside. -/
  nested : List String := []

/-! ## Stored names -/

/-- Whether a name begins with two underscores. -/
def startsPrivate (name : String) : Bool := "__".toList.isPrefixOf name.toList

/-- Whether a name begins and ends with two underscores. -/
def isReserved (name : String) : Bool :=
  startsPrivate name && "__".toList.isSuffixOf name.toList

/-- A class name without the underscores it begins with. -/
def bareClassName (name : String) : String := String.ofList (name.toList.dropWhile (· == '_'))

/-- The name under which a class stores a name of its body: a private name is stored with the name
of the class in front. -/
def storedName (className name : String) : String :=
  let bare := bareClassName className
  if startsPrivate name && !"__".toList.isSuffixOf name.toList && !bare.isEmpty then
    "_" ++ bare ++ name
  else name

/-! ## Ancestry -/

/-- Merges lists so that each keeps its order: the next class is the first head that stands in no
other tail. -/
def mergeOrders : Nat → List (List Hint) → Option (List Hint)
  | 0, _ => none
  | n + 1, orders =>
    match orders.filter (!·.isEmpty) with
    | [] => some []
    | orders =>
      let next := (orders.filterMap (·.head?)).find? fun h ↦ orders.all fun o ↦ !o.tail.contains h
      match next with
      | none => none
      | some h =>
        (mergeOrders n (orders.map fun o ↦ if o.head? == some h then o.tail else o)).map (h :: ·)

/-- Whether a base brings type parameters along: an applied declared class or an alias. -/
def bringsParameters : Hint → Bool
  | .applied .native _ _ => false
  | .applied _ _ _ => true
  | .bare _ => true
  | _ => false

/-- The class behind an alias, unless it is a base itself, and the class of type parameters, unless a
later base brings type parameters or extends that class. -/
def aliasClasses (table : ClassTable) (cls : Hint) (bases rest others : List Hint) : List Hint :=
  let parametrised :=
    if rest.any fun b ↦ bringsParameters b || table.extends? b .generic then others
    else .named .generic :: others
  if bases.contains cls then parametrised else cls :: parametrised

/-- The classes that some of the bases of a class name. -/
def baseClasses (table : ClassTable) (bases : List Hint) : List Hint → Except Error (List Hint)
  | [] => .ok []
  | base :: rest => do
    let others ← baseClasses table bases rest
    match base with
    | .bare c => return aliasClasses table (.named c) bases rest others
    | .applied .alias c _ => return aliasClasses table (.named c) bases rest others
    | .applied _ c _ =>
      if c = ClassName.generic && rest.any bringsParameters then return others
      else return .named c :: others
    | .special "NamedTuple" _ => return .named .tuple :: others
    | base =>
      match base.classBehind with
      | some cls => return cls :: others
      | none => throw .wrongType

/-- The type parameters of the class of type parameters, if it is among the bases. -/
def statedParameters? (bases : List Hint) : Option (List Hint) :=
  bases.findSome? fun
    | .applied .generic c args =>
      if c = ClassName.generic then some (Hint.parametersOf args) else none
    | _ => none

/-- The type parameters that bases declare: the stated ones, which must then be all, or else those
that occur in the bases of a class that has type parameters at all. -/
def declaredParameters (isGeneric : Bool) (bases : List Hint) : Except Error (List Hint) :=
  let occurring := Hint.parametersOf (bases.filter fun
    | .model _ _ => true
    | .applied _ _ _ => isGeneric
    | _ => false)
  match statedParameters? bases with
  | some stated => if occurring.all stated.contains then .ok stated else .error .wrongType
  | none => .ok occurring

/-! ## Bodies -/

/-- Whether a parameter can be left out. -/
def isOptionalParameter (p : String) : Bool := p.startsWith "*" || p.toList.contains '='

/-- Whether a method can be called on an instance without arguments. -/
def MethodSource.plainCall (m : MethodSource) : Bool :=
  let named := m.parameters.filter fun p ↦ p ≠ "*" && p ≠ "/"
  let all := if m.form = .withoutReceiver then named else "self" :: named
  (all.drop 1).all isOptionalParameter

/-- The attribute that a method makes. -/
def MethodSource.attribute (m : MethodSource) : Attribute :=
  let accessor (kind : AccessorKind) : Attribute :=
    .accessor { kind, result := m.result, plainCall := m.plainCall, attached := m.attached }
  match m.form with
  | .method | .withoutReceiver => accessor .method
  | .property => accessor .property
  | .shared | .ofClass => accessor .shared
  | .cached | .setterOnly => .other

namespace ClassSource

variable (source : ClassSource)

/-- The name under which a name of the body is stored. -/
def stored (name : String) : String := storedName source.name.simpleName name

/-- The annotated names with their hints, by stored name. -/
def hints : List (String × Hint) :=
  Keyed.putAll [] (source.fields.map fun f ↦ (source.stored f.name, f.hint))

/-- All hints of the declaration: bases, annotated names and results of methods. -/
def allHints : List Hint :=
  source.bases ++ source.fields.map (·.hint) ++ source.methods.filterMap (·.result)

/-- What the body assigns, by stored name, one assignment after the other. -/
def assignments : List (String × Attribute) :=
  let assigned := source.fields.filterMap fun f ↦ f.default.map fun d ↦ (f.name, Attribute.value d)
  let values := source.values.map fun (n, d) ↦ (n, Attribute.value d)
  let methods := source.methods.map fun m ↦ (m.name, m.attribute)
  let nested := source.nested.map fun n ↦
    (n, Attribute.nested ⟨source.name.moduleName, source.name.path ++ "." ++ n⟩)
  (assigned ++ values ++ methods ++ nested).map fun (n, a) ↦ (source.stored n, a)

/-- The attributes of the body, by stored name. -/
def body : List (String × Attribute) := Keyed.putAll [] source.assignments

/-- The bases, with the base class of the kind where it is not stated. -/
def allBases : List Hint :=
  match source.kind with
  | .model => if source.derived then source.bases else .named LibraryClass.baseModel :: source.bases
  | .enum => if source.bases.isEmpty then [.named LibraryClass.enum] else source.bases
  | .namedTuple | .untypedTuple => .named .tuple :: source.bases
  | _ => source.bases

/-- Whether a base makes a class a named sequence. -/
def isSequenceBase : Hint → Bool
  | .special "NamedTuple" _ => true
  | _ => false

/-- Whether a class is declared as a named sequence. -/
def isSequence : Bool :=
  source.kind = .namedTuple || source.kind = .untypedTuple || source.bases.any isSequenceBase

end ClassSource

/-! ## Enums -/

/-- Whether a name is written with one underscore at each end. -/
def isWrapped (name : String) : Bool :=
  let cs := name.toList
  cs.length > 2 && cs.head? == some '_' && cs.getLast? == some '_' &&
    cs[1]? != some '_' && cs[cs.length - 2]? != some '_'

/-- Whether an attribute of an enum's body is a constant. -/
def isConstant (className : String) (entry : String × Attribute) : Bool :=
  let isValue := match entry.2 with
    | .value _ => true
    | .nested _ => true
    | _ => false
  let hidden := ("_" ++ className ++ "__").toList.isPrefixOf entry.1.toList &&
    !"__".toList.isSuffixOf entry.1.toList
  isValue && !isReserved entry.1 && !isWrapped entry.1 && !hidden

/-- Whether a name of an enum's body is assigned more than once, to a constant at least once. -/
def reassigns (className : String) (assignments : List (String × Attribute)) : Bool :=
  assignments.any fun entry ↦
    isConstant className entry && 1 < (assignments.filter (·.1 == entry.1)).length

/-- The constants of an enum: a value that occurred before gives another name for that constant. -/
def constantsOf (same : Datum → Datum → Bool) :
    List (String × Datum) → List EnumConstant → List EnumConstant
  | [], found => found
  | (name, d) :: rest, found =>
    let canonical := ((found.find? fun c ↦ same c.value d).map (·.canonical)).getD name
    constantsOf same rest (found ++ [⟨name, canonical, d⟩])

/-- The entries of a body that are constants, with their values as they are written. -/
def constantEntries (className : String) (body : List (String × Attribute)) :
    List (String × Datum) :=
  (body.filter (isConstant className)).filterMap fun
    | (n, .value d) => some (n, d)
    | (n, .nested c) => some (n, .hint (.named c))
    | _ => none

/-- The constants of the body of an enum with some ancestors. -/
def bodyConstants (runtime : Runtime) (className : String) (ancestors : List Hint)
    (body : List (String × Attribute)) : Except Error (List EnumConstant) := do
  let entries := constantEntries className body
  match body.find? fun (n, a) ↦ isWrapped n && match a with | .value _ => true | _ => false with
  | some (n, _) =>
    throw (Error.invalidValue
      ("_sunder_ names, such as " ++ Text.quoted n ++ ", are reserved for future Enum use"))
  | none =>
    if entries.any (·.1 == "mro") then
      throw (Error.invalidValue "invalid enum member name(s) 'mro'")
    let values ← entries.mapM fun (n, d) ↦ return (n, ← runtime.constantValue ancestors d)
    return constantsOf runtime.equal values []

namespace ClassTable

variable (table : ClassTable)

/-! ## Records -/

/-- What an annotated name of a record is, by its hint. -/
def recordRole : Hint → RecordRole
  | .classVar _ | .anyClassVar => .classVar
  | .initVar _ => .initVar
  | _ => .field

/-- The value that a class attribute gives a field. -/
def attributeDatum : Attribute → Datum
  | .value d => d
  | .nested c => .hint (.named c)
  | _ => .hint (.special "<attribute>" "function")

/-- The annotated names that a class inherits as a record, nearer classes on top. -/
def inheritedFields (ancestors : List Hint) : List RecordField :=
  let layers := ancestors.reverse.map fun a ↦ ((table.layout? a).map (·.fields)).getD []
  (Keyed.putAll [] (layers.flatten.map fun f ↦ (f.name, f))).map (·.2)

/-- Whether a field without a value follows one with a value. -/
def misordered : List RecordField → Bool → Bool
  | [], _ => false
  | f :: rest, seen =>
    if f.role = .classVar || f.byName then misordered rest seen
    else if f.default.isSome then misordered rest true
    else seen || misordered rest seen

/-- The record layout of a class that is declared as a record. -/
def recordLayout (source : ClassSource) (ancestors : List Hint)
    (body : List (String × Attribute)) : Except Error RecordLayout := do
  let frozen := source.frozen || source.kind = .metadata
  let inherited (name : String) : Option Attribute := ancestors.findSome? fun
    | Hint.named c => (table.find? c).bind fun d ↦ Keyed.get? d.body name
    | _ => none
  let own : List RecordField := source.hints.map fun (name, h) ↦
    { name, role := recordRole h, byName := source.byName,
      default := ((Keyed.get? body name).or (inherited name)).map attributeDatum }
  let mutable := own.find? fun f ↦ f.role = .field && match f.default with
    | some d => !d.hashable table
    | none => false
  if let some f := mutable then
    let typeName := (f.default.map (·.typeName table)).getD ""
    throw (Error.invalidValue ("mutable default <class '" ++ typeName ++ "'> for field " ++
      f.name ++ " is not allowed: use default_factory"))
  let layouts := ancestors.filterMap table.layout?
  if !layouts.isEmpty && layouts.any (·.frozen) != frozen then throw Error.wrongType
  let fields :=
    (Keyed.putAll [] ((table.inheritedFields ancestors ++ own).map fun f ↦ (f.name, f))).map
    (·.2)
  if misordered fields false then throw Error.wrongType
  return { fields, frozen }

/-! ## Models and named sequences -/

/-- The fields of a model: inherited ones first, those of its own on top, without hidden names and
attributes of the class. Names are looked up one hint at a time, as far as classes are declared. -/
def modelLayout (source : ClassSource) (ancestors : List Hint) : List (String × Hint) :=
  let inherited := ancestors.reverse.foldl
    (fun acc a ↦ Keyed.putAll acc (table.modelHints a)) ([] : List (String × Hint))
  let found (h : Hint) : Hint :=
    match table.resolve (some source.name) h with
    | .ok h => h
    | .error _ => h.asArgument
  let kept := source.hints.filterMap fun (name, h) ↦
    let h := found h
    if name.startsWith "_" || h.base.isClassVar then none else some (name, h)
  let hiddenNames := source.hints.filterMap fun (name, h) ↦
    if h.base.isClassVar then some name else none
  Keyed.putAll (inherited.filter fun (n, _) ↦ !hiddenNames.contains n) kept

/-- A name that cannot be the name of a place: it begins with an underscore, or it occurred
before. -/
def checkPlaceNames : List String → List String → Except Error Unit
  | [], _ => .ok ()
  | name :: rest, seen =>
    if name.startsWith "_" then
      .error (.invalidValue ("Field names cannot start with an underscore: " ++ Text.quoted name))
    else if seen.contains name then
      .error (.invalidValue ("Encountered duplicate field name: " ++ Text.quoted name))
    else checkPlaceNames rest (name :: seen)

/-- Whether a place without a value follows one with a value. -/
def misplaced (places : List (String × Option Datum)) : Bool :=
  (places.dropWhile (·.2.isNone)).any (·.2.isNone)

/-- Whether a named sequence can have a base beside the one that makes it one: only the class of
type parameters. -/
def besideSequence : Hint → Bool
  | .special "NamedTuple" _ => true
  | .named c => c = ClassName.generic
  | .applied _ c _ => c = ClassName.generic
  | _ => false

/-- The places of a named sequence, typed ones from the annotated names of the body. -/
def sequencePlaces (source : ClassSource) (body : List (String × Attribute)) :
    Except Error (List (String × Option Datum)) := do
  let isTyped := source.kind ≠ .untypedTuple
  let places :=
    if isTyped then source.hints.map fun (n, _) ↦ (n, (Keyed.get? body n).map attributeDatum)
    else source.fields.map fun f ↦ (f.name, f.default)
  if isTyped && (misplaced places || source.hints.any (·.2.isClassVar)) then throw Error.wrongType
  if !source.bases.all besideSequence then throw Error.wrongType
  if isTyped && source.hints.any (·.2.asArgument.misspelled table.runtime.read?) then
    throw Error.malformedName
  checkPlaceNames (places.map (·.1)) []
  return places

/-! ## Definition -/

/-- The ancestors of a class with the given bases, nearest first; no base may be stated twice. -/
def ancestorsOf (bases : List Hint) : Except Error (List Hint) := do
  let names ← baseClasses table bases bases
  if Hint.distinct names != names then throw Error.wrongType
  let names := if names.isEmpty then [.named .root] else names
  let orders := names.map table.ancestry ++ [names]
  match mergeOrders (orders.flatten.length + 1) orders with
  | some ancestors => return ancestors
  | none => throw Error.wrongType

/-- The table with a class added. -/
def define (source : ClassSource) : Except Error ClassTable := do
  if source.allHints.any (Hint.misspelled table.runtime.read?) then throw Error.malformedName
  let bases := source.allBases
  let ancestors ← table.ancestorsOf bases
  let body := source.body
  let places ←
    if source.isSequence then some <$> table.sequencePlaces source body else pure none
  -- the places of a named sequence keep their hints as names to be looked up
  let hints := match source.kind with
    | .untypedTuple => []
    | _ => if places.isSome then source.hints.map fun (n, h) ↦ (n, h.asArgument) else source.hints
  let declared : DeclaredClass := {
    name := source.name
    ancestry := .named source.name :: ancestors
    parameters := ← declaredParameters (ancestors.contains (.named .generic)) bases
    hints
    body
    places
    isMetadata := source.kind = .metadata }
  let added := { table with classes := table.classes ++ [declared] }
  let isModel := ancestors.contains (.named LibraryClass.baseModel)
  let isEnum := ancestors.contains (.named LibraryClass.enum)
  let closed := ancestors.any fun
    | .named c => !(((table.find? c).map (·.constants)).getD []).isEmpty
    | _ => false
  if closed then throw Error.wrongType
  if isEnum && reassigns source.name.simpleName source.assignments then throw Error.wrongType
  let record ← match source.kind with
    | .record | .metadata => some <$> table.recordLayout source ancestors body
    | _ => pure none
  let model := if isModel then some (added.modelLayout source ancestors) else none
  let constants ←
    if isEnum then
      bodyConstants table.runtime source.name.simpleName ancestors body
    else pure []
  checkTags source.attached
  let finished := { declared with record, model, constants, attached := source.attached }
  return added.modify source.name fun _ ↦ finished

/-- The declared class behind a hint that stands for a class. -/
def declaredBehind? : Hint → Option DeclaredClass
  | .named c => table.find? c
  | .model c _ => table.find? c
  | _ => none

/-- The nearest class with an attribute of the stored name. -/
def ownerOf? (d : DeclaredClass) (name : String) : Option DeclaredClass :=
  (table.declaredAncestry (.named d.name)).find? fun o ↦ (Keyed.get? o.body name).isSome

/-- The table with further metadata attached to a declared class. -/
def attachToClass (metadata : List Datum) (cls : ClassName) : ClassTable :=
  table.modify cls fun d ↦ { d with attached := d.attached ++ metadata }

/-- The table with further metadata attached to an attribute of a class. A class that is the
attribute takes it like any class, and a value that is no class takes none. -/
def attachToAttribute (metadata : List Datum) (owner : DeclaredClass) (name : String) :
    Attribute → Except Error ClassTable
  | .accessor a =>
    let a := Attribute.accessor { a with attached := a.attached ++ metadata }
    .ok (table.modify owner.name fun o ↦ { o with body := Keyed.put o.body name a })
  | .nested c => .ok (table.attachToClass metadata c)
  | .value (.hint (.named c)) =>
    if (table.find? c).isSome then .ok (table.attachToClass metadata c) else .error .wrongType
  | .value _ => .error .noAttribute
  | .other => .ok table

/-- The table with metadata attached to a class, or to an attribute of it. -/
def attach (h : Hint) (path : Option String) (metadata : List Datum) : Except Error ClassTable := do
  checkTags metadata
  match table.declaredBehind? h, path with
  | none, _ => throw .wrongType
  | some d, none => return table.attachToClass metadata d.name
  | some d, some name =>
    match table.ownerOf? d name with
    | none => throw .noAttribute
    | some owner =>
      match Keyed.get? owner.body name with
      | none => throw .noAttribute
      | some a => table.attachToAttribute metadata owner name a

/-- The metadata attached to a class itself; that of an applied model is the model's. -/
def attachedTo (h : Hint) : List Datum :=
  ((table.declaredBehind? h).map (·.attached)).getD []

/-- The metadata attached to a class, or to an attribute of it. -/
def attachedAt (h : Hint) (path : Option String) : List Datum :=
  match path with
  | none => table.attachedTo h
  | some name =>
    let found := do
      let d ← table.declaredBehind? h
      let owner ← table.ownerOf? d name
      Keyed.get? owner.body name
    match found with
    | some (.accessor a) => a.attached
    | some (.nested c) => table.attachedTo (.named c)
    | some (.value (.hint h)) => table.attachedTo h
    | _ => []

/-- The metadata attached to a datum: only classes have some. -/
def attachedBy : Datum → List Datum
  | .hint h => table.attachedTo h
  | _ => []

end ClassTable

end Schemata
