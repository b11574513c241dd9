import Schemata.Classes.Runtime

/-!
# Declared classes

A `ClassTable` holds the classes that authors declare, in order of declaration, after everything
that is fixed by a declaration has been worked out: the ancestry, the type parameters, the fields of
records and models, the constants of enums. Library classes are looked up beside the declared ones,
so a question about a class need not ask where it came from.

The class behind a hint is itself a hint, `Hint.named` or `Hint.model`, because a model class
applied to arguments is a class of its own.

What the declarations do not say is decided by the runtime of the table.
-/

namespace Schemata

/-! ## The body of a class -/

/-- What a call or a read gives, and the metadata attached to it. -/
structure Accessor where
  /-- How it gives access. -/
  kind : AccessorKind
  /-- The stated type of the result. -/
  result : Option Hint := none
  /-- Whether it can be called without further arguments. -/
  plainCall : Bool := true
  /-- The metadata attached to it. -/
  attached : List Datum := []

/-- An attribute in the body of a class. -/
inductive Attribute where
  /-- An accessor. -/
  | accessor (a : Accessor)
  /-- A value. -/
  | value (d : Datum)
  /-- A class declared inside the class. -/
  | nested (cls : ClassName)
  /-- Something that gives no access by itself. -/
  | other

/-- What an annotated name of a record is. -/
inductive RecordRole where
  /-- A field of the instances. -/
  | field
  /-- An attribute of the class. -/
  | classVar
  /-- A value passed when an instance is made. -/
  | initVar
  deriving DecidableEq, Inhabited

/-- An annotated name of a record. -/
structure RecordField where
  /-- The name. -/
  name : String
  /-- What it is. -/
  role : RecordRole := .field
  /-- The value it has unless another one is given. -/
  default : Option Datum := none
  /-- Whether its value is given by name only. -/
  byName : Bool := false
  deriving Inhabited

/-- What makes a class a record. -/
structure RecordLayout where
  /-- The annotated names, in order. -/
  fields : List RecordField
  /-- Whether instances cannot be changed. -/
  frozen : Bool := false
  deriving Inhabited

/-- A constant of an enum: another name for an earlier one if the values agree. -/
structure EnumConstant where
  /-- The declared name. -/
  name : String
  /-- The name of the first constant with this value. -/
  canonical : String
  /-- The value. -/
  value : Datum
  deriving Inhabited

/-- A declared class. -/
structure DeclaredClass where
  /-- The name. -/
  name : ClassName
  /-- The class and the classes it extends, nearest first. -/
  ancestry : List Hint := []
  /-- The type parameters. -/
  parameters : List Hint := []
  /-- The annotated names of the body with their hints as written, by stored name. -/
  hints : List (String × Hint) := []
  /-- The attributes of the body, by stored name. -/
  body : List (String × Attribute) := []
  /-- The layout, if the class was made a record. -/
  record : Option RecordLayout := none
  /-- The names of the places, if the class is a fixed sequence with named places. -/
  places : Option (List (String × Option Datum)) := none
  /-- The fields with their hints, if the class is a model. -/
  model : Option (List (String × Hint)) := none
  /-- The constants, if the class is an enum. -/
  constants : List EnumConstant := []
  /-- Whether the class was declared as schema metadata. -/
  isMetadata : Bool := false
  /-- The metadata attached to the class. -/
  attached : List Datum := []
  deriving Inhabited

/-- The declared classes of a module. -/
structure ClassTable where
  /-- The module. -/
  moduleName : String
  /-- The type parameters of the module by name. -/
  parameters : List (String × Hint) := []
  /-- The classes, in order of declaration. -/
  classes : List DeclaredClass := []
  /-- What the language decides. -/
  runtime : Runtime := {}
  deriving Inhabited

/-! ## Names kept with values -/

namespace Keyed

variable {α : Type}

/-- Sets the value of a name: a present name keeps its place, a new one goes to the end. -/
def put : List (String × α) → String → α → List (String × α)
  | [], key, value => [(key, value)]
  | (k, v) :: rest, key, value =>
    if k == key then (k, value) :: rest else (k, v) :: put rest key value

/-- The value of a name. -/
def get? (entries : List (String × α)) (key : String) : Option α :=
  (entries.find? (·.1 == key)).map (·.2)

/-- The entries that result from setting names one after the other. -/
def putAll (entries added : List (String × α)) : List (String × α) :=
  added.foldl (fun acc (k, v) ↦ put acc k v) entries

end Keyed

/-- How a class makes keys of its instances. -/
inductive KeyRule where
  /-- Its instances cannot be keys. -/
  | never
  /-- Its instances are keys if their fields are. -/
  | byFields
  /-- Its instances are keys whatever their fields are. -/
  | always
  deriving DecidableEq, Inhabited

/-- How a declared class makes keys of its instances, if it decides that: it makes them itself, it
is a record, or it compares its instances in a way of its own. -/
def DeclaredClass.keyRule? (d : DeclaredClass) : Option KeyRule :=
  match Keyed.get? d.body "__hash__", d.record with
  | some (.value (.plain .null)), _ => some .never
  | some _, _ => some .always
  | none, some layout => some (if layout.frozen then .byFields else .never)
  | none, none => if (Keyed.get? d.body "__eq__").isSome then some .never else none

/-- The class behind a hint, if there is one. -/
def Hint.classBehind : Hint → Option Hint
  | .null => none
  | .named c => some (.named c)
  | .bare c => some (.named c)
  | .applied _ c _ => some (.named c)
  | .model c args => some (.model c args)
  | .union true _ => some (.named .barUnion)
  | _ => none

namespace ClassTable

variable (table : ClassTable)

/-- The declared class of a name. -/
def find? (name : ClassName) : Option DeclaredClass := table.classes.find? (·.name == name)

/-- The table with a declared class changed. -/
def modify (name : ClassName) (f : DeclaredClass → DeclaredClass) : ClassTable :=
  { table with classes := table.classes.map fun d ↦ if d.name == name then f d else d }

/-! ## Ancestry -/

/-- The class and the classes it extends, nearest first. -/
def ancestryOf (name : ClassName) : List Hint :=
  match table.find? name with
  | some d => d.ancestry
  | none =>
    let library := match LibraryClass.get? name with
      | some l => .named name :: l.ancestors.map .named
      | none => [.named name]
    if name = ClassName.root then [.named name] else library ++ [.named .root]

/-- The ancestry of the class behind a hint. -/
def ancestry : Hint → List Hint
  | .named c => table.ancestryOf c
  | .model c args => .model c args :: table.ancestryOf c
  | _ => []

/-- The declared classes in the ancestry of a class, nearest first. -/
def declaredAncestry (cls : Hint) : List DeclaredClass :=
  (table.ancestry cls).filterMap fun
    | .named c => table.find? c
    | _ => none

/-- Whether a class extends a class. -/
def extends? (cls : Hint) (ancestor : ClassName) : Bool :=
  (table.ancestry cls).contains (.named ancestor)

/-- How a class makes keys of its instances: the nearest class that decides it decides. -/
def keyRule (cls : Hint) : KeyRule :=
  let decided := (table.ancestry cls).findSome? fun
    | .named c =>
      match table.find? c with
      | some d => d.keyRule?
      | none => ((LibraryClass.get? c).bind (·.hashable)).map fun hashable ↦
        if c = ClassName.tuple then .byFields else if hashable then .always else .never
    | _ => none
  decided.getD .always

/-- Whether the instances of a class can be keys, as far as the class is asked. -/
def hashable (cls : Hint) : Bool := table.keyRule cls != .never

/-- Whether an instance of the first class can stand where the second is expected. -/
def isSubclass (cls target : Hint) : Bool :=
  (table.ancestry cls).contains target ||
    match target with
    | .named t =>
      if t = Abstract.hashable then table.hashable cls
      else (table.ancestry cls).any fun
        | .named c => ((LibraryClass.get? c).map (·.standsFor)).getD [] |>.contains t
        | _ => false
    | _ => false

/-! ## What a class is -/

/-- The record layout of a class: its own or that of the nearest ancestor. -/
def layout? (cls : Hint) : Option RecordLayout :=
  (table.declaredAncestry cls).findSome? (·.record)

/-- The named places of a fixed sequence, its own or those of the nearest ancestor. -/
def places? (cls : Hint) : Option (List (String × Option Datum)) :=
  (table.declaredAncestry cls).findSome? (·.places)

/-- Whether a class is a model. -/
def isModel (cls : Hint) : Bool := table.extends? cls LibraryClass.baseModel

/-- Whether a class is an enum. -/
def isEnum (cls : Hint) : Bool := table.extends? cls LibraryClass.enum

/-- Whether a class is a fixed sequence with named places. -/
def isNamedTuple (cls : Hint) : Bool := (table.places? cls).isSome

/-- Whether the members of a class are its fields. -/
def isRecord (cls : Hint) : Bool :=
  (table.layout? cls).isSome || table.isModel cls || table.isNamedTuple cls

/-- The name of the type of a hint. -/
def typeNameOf : Hint → String
  | .null => "NoneType"
  | .ellipsis => "ellipsis"
  | .text _ => "str"
  | .forward _ => "ForwardRef"
  | .named c =>
    if c = ClassName.any then "_AnyMeta"
    else if table.isEnum (.named c) then "EnumType"
    else if table.isModel (.named c) then "ModelMetaclass"
    else if c.moduleName == "collections.abc" then "ABCMeta"
    else "type"
  | .bare c => if c = ClassName.tuple then "_TupleType" else "_SpecialGenericAlias"
  | .applied .native _ _ => "GenericAlias"
  | .applied _ _ _ => "_GenericAlias"
  | .model _ _ => "ModelMetaclass"
  | .parameter _ => "TypeVar"
  | .bounded _ _ => "TypeVar"
  | .union true _ => "UnionType"
  | .union false _ => "_UnionGenericAlias"
  | .annotated _ _ => "_AnnotatedAlias"
  | .literal _ => "_LiteralGenericAlias"
  | .classVar _ => "_GenericAlias"
  | .anyClassVar => "_SpecialForm"
  | .initVar _ => "InitVar"
  | .special _ typeName => typeName

/-- The shape of the hints that a class makes. -/
def shape (name : ClassName) : ClassShape :=
  match table.find? name with
  | some _ => if table.isEnum (.named name) then .enumeration else .plain
  | none => ((LibraryClass.get? name).map (·.shape)).getD .plain

/-- The fields of a model class with their hints. -/
def modelFields (name : ClassName) : List (String × Hint) :=
  ((table.find? name).bind (·.model)).getD []

/-- The fields of a model with their hints, its type parameters replaced by the arguments. -/
def modelHints : Hint → List (String × Hint)
  | .named c => table.modelFields c
  | .model c args =>
    let parameters := ((table.find? c).map (·.parameters)).getD []
    (table.modelFields c).map fun (name, h) ↦ (name, h.substitute (Hint.bindingsOf parameters args))
  | _ => []

/-- The attribute of a class under a stored name: its own or that of the nearest ancestor. -/
def attribute? (cls : Hint) (name : String) : Option Attribute :=
  (table.declaredAncestry cls).findSome? fun d ↦ Keyed.get? d.body name

/-! ## Application -/

/-- A class applied to arguments. -/
def applyClass (name : ClassName) (args : List Hint) : Except Error Hint :=
  let cls := Hint.named name
  if name = ClassName.generic then .ok (.applied .generic name (args.map Hint.asArgument))
  else
    match table.find? name with
    | some d =>
      if d.parameters.isEmpty then
        let container := (table.ancestry cls).any fun
          | .named c => ((LibraryClass.get? c).map (·.isContainer)).getD false
          | _ => false
        if container && !table.extends? cls ClassName.generic then .ok (.applied .native name args)
        else .error .wrongType
      else if args.length ≠ d.parameters.length then .error .wrongType
      else if table.isModel cls then
        .ok (if Hint.sameAll d.parameters args then cls else .model name args)
      else .ok (.applied .generic name (args.map Hint.asArgument))
    | none =>
      if LibraryClass.isApplicable name then .ok (.applied .native name args)
      else .error .wrongType

/-- How many arguments a hint takes, if their number is fixed. -/
def arity? : Hint → Option Nat
  | .named c => (table.find? c).map (·.parameters.length)
  | .bare c =>
    match table.shape c with
    | .dictionary => some 2
    | .array => if c = ClassName.tuple then none else some 1
    | _ => none
  | .parameter _ | .bounded _ _ => some 0
  | h => some h.parameters.length

/-- A hint applied to arguments: a class takes them as they are, and a hint with type parameters
has them replaced. -/
def apply (h : Hint) (args : List Hint) : Except Error Hint :=
  match h with
  | .named c => table.applyClass c args
  | .bare c =>
    if (table.arity? h).any (· ≠ args.length) then .error .wrongType
    else .ok (.applied .alias c (args.map Hint.asArgument))
  | h =>
    if (table.arity? h).any fun n ↦ n = 0 || n ≠ args.length then .error .wrongType
    else .ok (h.substitute (Hint.bindingsOf h.parameters args))

end ClassTable

/-! ## Keys

Metadata and literal values are part of the key that a hint makes, with everything in them. -/

section Keys

variable (table : ClassTable)

/-- Whether a datum can be a key, as far as its class is asked. -/
def Datum.hashable : Datum → Bool
  | .plain v => v.keyable
  | .list _ => false
  | .constant c _ _ => table.hashable (.named c)
  | .made c _ _ => table.hashable (.named c)
  | _ => true

mutual

/-- Whether a hint can be compared by key. -/
def Hint.hashable : Hint → Bool
  | .annotated h metadata => Hint.hashable h && Datum.deepHashableAll metadata
  | .literal values => Datum.deepHashableAll values
  | .applied _ _ args => Hint.hashableAll args
  | .union _ members => Hint.hashableAll members
  | .classVar h => Hint.hashable h
  | _ => true

/-- Whether several hints can be compared by key. -/
def Hint.hashableAll : List Hint → Bool
  | [] => true
  | h :: hs => Hint.hashable h && Hint.hashableAll hs

/-- Whether a datum can be a key with everything in it. -/
def Datum.deepHashable : Datum → Bool
  | .plain v => v.keyable
  | .list _ => false
  | .tuple items => Datum.deepHashableAll items
  | .constant c _ value =>
    match table.keyRule (.named c) with
    | .never => false
    | .byFields => Datum.deepHashable value
    | .always => true
  | .hint h => Hint.hashable h
  | .made c role fields =>
    match table.keyRule (.named c) with
    | .never => false
    | .byFields => Datum.deepHashableFields fields
    -- markers and metadata are records, declared or not
    | .always => role = .other || Datum.deepHashableFields fields

/-- Whether several data can be keys. -/
def Datum.deepHashableAll : List Datum → Bool
  | [] => true
  | d :: ds => Datum.deepHashable d && Datum.deepHashableAll ds

/-- Whether the values of fields can be keys. -/
def Datum.deepHashableFields : List (String × Datum) → Bool
  | [] => true
  | (_, d) :: fs => Datum.deepHashable d && Datum.deepHashableFields fs

end

/-- One of several values: literals inside it are dissolved, and repetitions dropped if the values
can be keys. -/
def ClassTable.literalOf (values : List Datum) : Hint :=
  let values := values.flatMap fun
    | .hint (.literal inner) => inner
    | d => [d]
  if Datum.deepHashableAll table values then
    .literal (values.foldl (fun acc d ↦ if Datum.occurs acc d then acc else acc ++ [d]) [])
  else .literal values

end Keys

end Schemata
