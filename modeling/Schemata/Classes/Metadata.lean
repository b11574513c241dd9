import Schemata.Classes.Reference
import Schemata.Tag

/-!
# Metadata as tags

Instances that authors attach to classes, accessors and hints reach the engine as tags: the class
names the tag, every field that is present becomes an attribute, and the class of a field's value
decides the kind of the attribute. Whatever is no schema tag is left out.

A constant of an enum goes by what it has under `name`. That is its own name, unless a class mixed in
before the base class of enums has something of that name.
-/

namespace Schemata

namespace Hint

/-- Whether a hint is a type, a type parameter or an applied type, and not some other object. -/
def isTypeLike : Hint → Bool
  | null | ellipsis | text _ | forward _ | anyClassVar | initVar _ | special _ _ => false
  | _ => true

end Hint

namespace Datum

mutual

/-- A datum as a value: what has no data form is known by the text it is shown as. -/
def toValue (table : ClassTable) : Datum → Value
  | plain v => v
  | list items => .list (toValues table items)
  | d =>
    let shown := d.shown
    .object { text := shown, shown, typeName := d.typeName table }

/-- Several data as values. -/
def toValues (table : ClassTable) : List Datum → List Value
  | [] => []
  | d :: ds => d.toValue table :: toValues table ds

end

end Datum

/-! ## Names of constants -/

/-- A class without the arguments that a model is made a class of its own by. -/
def Hint.unapplied : Hint → Hint
  | .model c _ => .named c
  | h => h

/-- Whether a class gives its instances something called `name`. A constant of that name does
not count. -/
def DeclaredClass.hidesName (d : DeclaredClass) : Bool :=
  (Keyed.get? d.body "name").isSome && d.constants.all (·.name != "name") ||
    d.record.any (fun layout ↦ layout.fields.any (·.name == "name")) ||
    d.places.any fun places ↦ places.any (·.1 == "name")

namespace ClassTable

variable (table : ClassTable)

/-- The declared classes of an enum that come before the base class of enums, nearest first. -/
def classesBeforeEnum (cls : Hint) : List DeclaredClass :=
  ((table.ancestry cls).takeWhile (· != .named LibraryClass.enum)).filterMap fun
    | .named c => table.find? c
    | _ => none

/-- What a constant of an enum has under `name`, by its declared name: the value that the nearest
class has which hides the names of constants, or else its own name. -/
def shownName (cls : Hint) (name : String) : Value :=
  match (table.classesBeforeEnum cls).find? (·.hidesName) with
  | none => .str name
  | some d =>
    match Keyed.get? d.body "name", d.record, d.places with
    | some (.value v), none, none => v.toValue table
    | _, _, _ => table.runtime.computedName cls.unapplied name

end ClassTable

namespace Datum

/-- A value as an attribute. -/
def ofScalar (v : Value) : TagValue Hint :=
  match v.plain with
  | .bool _ => .boolean v
  | .int _ => .number v
  | .float _ => .number v
  | .str _ => .string v
  | _ => .unknown v

mutual

/-- A datum as an attribute of a tag. -/
def toTagValue (table : ClassTable) : Datum → Traced (TagValue Hint)
  | plain v => return ofScalar v
  | constant c name _ => return .enumConstant (table.shownName (.named c) name)
  | hint h =>
    if h.isTypeLike then return .type (← table.reference h)
    else return .unknown ((hint h).toValue table)
  | list items => return .array (← toTagValues table items)
  | tuple items => return .array (← toTagValues table items)
  | made _ .tuple fields => return .array (← fieldValues table fields)
  | made c .marker fields => return .tag (.ofEntries c.fullName (← toEntries table fields) false)
  | made c .metadata fields => return .tag (.ofEntries c.fullName (← toEntries table fields) true)
  | made c .other fields => return .unknown ((made c .other fields).toValue table)

/-- Several data as attributes. -/
def toTagValues (table : ClassTable) : List Datum → Traced (List (TagValue Hint))
  | [] => return []
  | d :: ds => return (← d.toTagValue table) :: (← toTagValues table ds)

/-- The values of fields as attributes. -/
def fieldValues (table : ClassTable) : List (String × Datum) → Traced (List (TagValue Hint))
  | [] => return []
  | (_, d) :: fs => return (← d.toTagValue table) :: (← fieldValues table fs)

/-- The fields that are present as named attributes. -/
def toEntries (table : ClassTable) :
    List (String × Datum) → Traced (List (String × TagValue Hint))
  | [] => return []
  | (_, plain .null) :: fs => toEntries table fs
  | (name, d) :: fs => return (name, ← d.toTagValue table) :: (← toEntries table fs)

end

/-- Metadata as tags, in order. -/
def toTags (table : ClassTable) : List Datum → Traced (List (Tag Hint))
  | [] => return []
  | d :: ds =>
    if d.isTag then do
      match ← d.toTagValue table with
      | .tag t => return t :: (← toTags table ds)
      | _ => toTags table ds
    else toTags table ds

end Datum

end Schemata
