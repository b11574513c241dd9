import Schemata.TypeRef

/-!
# Tags

Hosts hand the engine the metadata of types and members as tags: a qualified name and ordered
attributes. An attribute value says what kind of value it is. Kind and payload are taken as given,
so a value that claims to be a number may hold any datum; `TagValue.payload` is the datum itself.
-/

namespace Schemata

mutual

/-- An attribute value of a certain kind. -/
inductive TagValue (σ : Type) where
  | boolean (payload : Value)
  | number (payload : Value)
  | string (payload : Value)
  | type (reference : TypeRef σ)
  | enumConstant (payload : Value)
  | array (items : List (TagValue σ))
  | tag (nested : Tag σ)
  | unknown (payload : Value)

/-- Metadata attached to a type or a member. -/
inductive Tag (σ : Type) where
  | mk (name : String) (entries : List (String × TagValue σ)) (custom : Bool)

end

namespace Tag

variable {σ : Type}

/-- The qualified name. -/
def name : Tag σ → String
  | mk n _ _ => n

/-- The attributes, in order. -/
def entries : Tag σ → List (String × TagValue σ)
  | mk _ es _ => es

/-- Whether the tag contributes its attributes to the schema as they are. -/
def custom : Tag σ → Bool
  | mk _ _ c => c

instance : Inhabited (Tag σ) := ⟨mk "" [] false⟩

/-- Sets an attribute: a present one keeps its place, a new one goes to the end. -/
def setEntry (entries : List (String × TagValue σ)) (key : String)
    (value : TagValue σ) : List (String × TagValue σ) :=
  match entries with
  | [] => [(key, value)]
  | (k, v) :: rest =>
    if k == key then (k, value) :: rest else (k, v) :: setEntry rest key value

/-- The tag whose attributes were set one after the other. -/
def ofEntries (name : String) (entries : List (String × TagValue σ)) (custom : Bool) :
    Tag σ :=
  mk name (entries.foldl (fun acc (k, v) ↦ setEntry acc k v) []) custom

/-- What follows the last point of a name. -/
def lastPart (name : String) : String :=
  String.ofList ((name.toList.reverse.takeWhile (· ≠ '.')).reverse)

/-- The part of the name after its last point, by which well-known tags are found. -/
def simpleName (a : Tag σ) : String := lastPart a.name

/-- The value of an attribute. -/
def get? (a : Tag σ) (key : String) : Option (TagValue σ) :=
  (a.entries.find? (·.1 == key)).map (·.2)

/-- The first tag with a simple name. -/
def find? (tags : List (Tag σ)) (simpleName : String) : Option (Tag σ) :=
  tags.find? (·.simpleName == simpleName)

/-- All tags with a simple name, in order. -/
def findAll (tags : List (Tag σ)) (simpleName : String) : List (Tag σ) :=
  tags.filter (·.simpleName == simpleName)

end Tag

namespace TagValue

variable {σ : Type}

/-- A kind and a payload as they are shown. -/
def ofKind (upper lower payload : String) : String :=
  "AnnotationValue(kind=<AnnotationValueKind." ++ upper ++ ": '" ++ lower ++ "'>, value=" ++
    payload ++ ")"

mutual

/-- The value as it is shown inside other values. -/
def shown : TagValue σ → String
  | boolean v => ofKind "BOOLEAN" "boolean" v.shown
  | number v => ofKind "NUMBER" "number" v.shown
  | string v => ofKind "STRING" "string" v.shown
  | type t => ofKind "TYPE" "type" t.shown
  | enumConstant v => ofKind "ENUM_CONSTANT" "enum_constant" v.shown
  | array items => ofKind "ARRAY" "array" (Text.tupleText (shownAll items))
  | tag a => ofKind "ANNOTATION" "annotation" (shownTag a)
  | unknown v => ofKind "UNKNOWN" "unknown" v.shown

/-- Several values as they are shown. -/
def shownAll : List (TagValue σ) → List String
  | [] => []
  | v :: vs => shown v :: shownAll vs

/-- A tag as it is shown inside values. -/
def shownTag : Tag σ → String
  | .mk name entries custom =>
    "Annotation(name=" ++ Text.quoted name ++ ", attributes=\x7b" ++
      Text.joinWith ", " (shownEntries entries) ++ "\x7d, custom=" ++ Value.boolText custom ++ ")"

/-- Attributes as they are shown. -/
def shownEntries : List (String × TagValue σ) → List String
  | [] => []
  | (k, v) :: es => (Text.quoted k ++ ": " ++ shown v) :: shownEntries es

end

/-- The datum that the value holds. -/
def payload : TagValue σ → Value
  | boolean v | number v | string v | enumConstant v | unknown v => v
  | type t => t.toValue
  | array items =>
    let text := Text.tupleText (shownAll items)
    .object { text := text, shown := text, typeName := "tuple" }
  | tag a =>
    let text := shownTag a
    .object { text := text, shown := text, typeName := "Annotation" }

/-- Whether the datum counts as true; a list does when it is not empty. -/
def truthy : TagValue σ → Bool
  | array items => !items.isEmpty
  | v => v.payload.truthy

end TagValue

/-! ## Members -/

/-- The shape of a member as the host reports it. -/
inductive MemberKind where
  | field | method | property
  deriving DecidableEq, Inhabited

/-- Who can see a member, from closed to open. -/
inductive Visibility where
  | ownType | subtypes | package | everyone
  deriving DecidableEq, Inhabited

namespace Visibility

/-- The rank of a visibility: the more open, the higher. -/
def rank : Visibility → Nat
  | ownType => 0
  | subtypes => 1
  | package => 2
  | everyone => 3

/-- The name of a visibility. -/
def text : Visibility → String
  | ownType => "PRIVATE"
  | subtypes => "PROTECTED"
  | package => "DEFAULT"
  | everyone => "PUBLIC"

/-- All visibilities, from closed to open. -/
def all : List Visibility := [ownType, subtypes, package, everyone]

/-- The visibility with a name. -/
def ofText? (s : String) : Option Visibility := all.find? (·.text == s)

end Visibility

/-- A member of a type as the host reports it. -/
structure Member (σ : Type) where
  /-- The name in the host's type system. -/
  name : String
  /-- The shape. -/
  kind : MemberKind := .method
  /-- The type of the field or of the accessor's result; none if the host cannot tell. -/
  declaredType : Option (TypeRef σ) := none
  /-- How far the member can be seen. -/
  visibility : Visibility := .everyone
  /-- Whether the member belongs to the type itself and not to its values. -/
  isStatic : Bool := false
  /-- The metadata attached to the member. -/
  tags : List (Tag σ) := []
  deriving Inhabited

end Schemata
