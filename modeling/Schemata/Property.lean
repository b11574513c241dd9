import Schemata.Composition
import Schemata.Host
import Schemata.Settings
import Schemata.Text.Casing

/-!
# Properties of a type

`Property.extract` turns the members that a host reports into the properties of an object schema.
A member is dropped by the inclusion filter, for being static, for not being an accessor or not
being visible enough, for an ignore tag, or for being a member that every type has; what is
left needs a name and a type. Properties injected by the host follow the declared ones.
-/

namespace Schemata

/-! ## Accessor names -/

/-- What an accessor starts with, in the order tried. -/
def accessorPrefixes : List (List Char) := ["get".toList, "is".toList]

/-- The property that the rest of an accessor's name stands for: everything after an underscore, or
everything if it starts with a capital. -/
def propertyOfRest : List Char → Option (List Char)
  | '_' :: rest => if rest.isEmpty then none else some rest
  | c :: rest => if Text.isUpper c then some (c :: rest) else none
  | [] => none

/-- A name with its first character in lower case. -/
def lowerFirst : List Char → List Char
  | [] => []
  | c :: rest => Text.lowerFrom [] [c] ++ rest

/-- The property that a name stands for under one accessor prefix. -/
def accessorUnder (name start : List Char) : Option (List Char) :=
  if start.isPrefixOf name then
    (propertyOfRest (name.drop start.length)).map lowerFirst
  else none

/-- The property that an accessor-shaped name stands for. -/
def accessorProperty (name : String) : Option String :=
  (accessorPrefixes.findSome? (accessorUnder name.toList)).map String.ofList

/-! ## Visibility floors -/

/-- The least visibility that a tag for field access asks for. -/
def visibilityFloor {σ : Type} (byFields : Tag σ) : Except Error Visibility :=
  let field := byFields.name ++ ".value"
  match byFields.get? "value" with
  | none => .ok .everyone
  | some (.enumConstant v) =>
    match Visibility.ofText? (Text.upper v.text) with
    | some floor => .ok floor
    | none =>
      .error (.validation field
        ("must be one of " ++ Error.shownTexts (Visibility.all.map (·.text))) v)
  | some v => .error (.validation field "must be a visibility constant" v.payload)

/-! ## Overrides -/

/-- What stands in the place of a type: a type, or another value that a tag put there. -/
inductive TypePlace (σ : Type) where
  /-- A type. -/
  | type (t : TypeRef σ)
  /-- A value that is no type. -/
  | other (value : Value)
  deriving Inhabited

namespace TypePlace

variable {σ : Type}

/-- What a tag value puts in the place of a type: nothing if its datum is null. -/
def ofTagValue? : TagValue σ → Option (TypePlace σ)
  | .type t => some (.type t)
  | v =>
    match v.payload with
    | .null => none
    | payload => some (.other payload)

/-- The type in the place. What is no type has none of the attributes of one. -/
def asType : TypePlace σ → Except Error (TypeRef σ)
  | type t => .ok t
  | other _ => .error .noAttribute

end TypePlace

/-- The type that a tag puts in the place of another one. -/
def definedBy {σ : Type} (tags : List (Tag σ)) : Except Error (Option (TypeRef σ)) :=
  match ((Tag.find? tags "OpenApiPropertyType").bind (·.get? "defined_by")).bind
      TypePlace.ofTagValue? with
  | none => .ok none
  | some place => some <$> place.asType

/-! ## Extraction -/

/-- A property of an object schema. -/
structure Property (σ : Type) where
  /-- The name. -/
  name : String
  /-- The type, or what a tag put in its place. -/
  type : TypePlace σ
  /-- The composition that takes the place of the type. -/
  composition : Option (Composition σ) := none
  /-- Whether the property is required. -/
  required : Bool := true
  /-- The metadata added to the property's schema. -/
  extra : Entries := []

namespace Property

variable {σ : Type}

/-- The part of an extraction that all members of a type share. -/
structure Scope (σ : Type) where
  /-- The type whose members are looked at. -/
  owner : TypeRef σ
  /-- The least visibility, when the type is read by its fields. -/
  floor : Option Visibility
  /-- Whether members keep their names. -/
  verbatim : Bool
  /-- Whether properties that cannot be null are required. -/
  require : Bool

/-- Records why a member is skipped. -/
def skip (s : Scope σ) (m : Member σ) (reason : String) : Traced Unit :=
  Traced.debug ("Skipping " ++ s.owner.text ++ "." ++ m.name ++ ": " ++ reason)

/-- Whether a member may become a property, as far as its name and type do not matter. -/
def accepts (host : Host σ) (settings : Settings σ) (s : Scope σ) (m : Member σ) : Traced Bool := do
  if settings.filter.any (!·.keeps s.owner m) then
    skip s m "rejected by inclusion filter"
    return false
  if m.isStatic then return false
  match s.floor with
  | none => if m.kind = .field then return false
  | some floor =>
    if m.visibility.rank < floor.rank then
      skip s m ("below " ++ floor.text ++ " visibility")
      return false
  if (Tag.find? m.tags "OpenApiIgnore").isSome then
    skip s m "ignored"
    return false
  return !host.isBaseMember m

/-- The name of the property: given by a tag, kept, or derived from an accessor's name. -/
def nameOf (verbatim : Bool) (m : Member σ) : Option String :=
  match (Tag.find? m.tags "OpenApiName").bind (·.get? "value") with
  | some v => some v.payload.text
  | none => if verbatim || m.kind = .property then some m.name else accessorProperty m.name

/-- The type of the property: given by a tag, or the declared one. A tag may give what is no type;
nothing looks at it yet. -/
def typeOf (m : Member σ) : Option (TypePlace σ) :=
  match (Tag.find? m.tags "OpenApiPropertyType").bind (·.get? "defined_by") with
  | none => m.declaredType.map .type
  | some v => TypePlace.ofTagValue? v

/-- Whether the property is required. Only where properties can be required it matters whether the
type is primitive. -/
def isRequired (require : Bool) (m : Member σ) (type : TypePlace σ) : Except Error Bool :=
  if require then
    (fun t ↦ t.isPrimitive || (Tag.find? m.tags "NotNull").isSome) <$> type.asType
  else .ok false

/-- The property that an accepted member becomes, if it has a name and a type. -/
def ofMember (s : Scope σ) (m : Member σ) : Traced (Option (Property σ)) := do
  match nameOf s.verbatim m with
  | none =>
    skip s m "not an accessor name"
    return none
  | some name =>
    match typeOf m with
    | none =>
      skip s m "no type"
      return none
    | some type =>
      let composition ← Traced.ofExcept (Composition.find? m.tags)
      let required ← Traced.ofExcept (isRequired s.require m type)
      let extra ← Extension.collect m.tags (s.owner.text ++ "." ++ m.name)
      return some { name, type, composition, required, extra }

/-- The property that a member contributes, if it contributes one. -/
def contribution (host : Host σ) (settings : Settings σ) (s : Scope σ) (m : Member σ) :
    Traced (Option (Property σ)) := do
  if ← accepts host settings s m then ofMember s m else return none

/-- The properties that members contribute, in order. -/
def contributions (host : Host σ) (settings : Settings σ) (s : Scope σ) :
    List (Member σ) → Traced (List (Property σ))
  | [] => return []
  | m :: rest => do
    let first ← contribution host settings s m
    let others ← contributions host settings s rest
    return first.toList ++ others

/-- The property that the host injects. -/
def ofCustom (require : Bool) (c : CustomProperty σ) : Property σ :=
  { name := c.name, type := .type c.type, required := require }

/-- The properties of a type: those of its members in declaration order, then the injected ones. -/
def extract (host : Host σ) (settings : Settings σ) (t : TypeRef σ) (require : Bool) :
    Traced (List (Property σ)) := do
  let tags ← host.tags t
  let byFields := Tag.find? tags "OpenApiByFields"
  let floor ← match byFields with
    | none => pure none
    | some a => (some <$> Traced.ofExcept (visibilityFloor a) : Traced (Option Visibility))
  let verbatim ← if byFields.isSome then pure true else host.isRecord t
  let members ← host.members t
  let declared ← contributions host settings { owner := t, floor, verbatim, require } members
  let custom ← host.customProperties t
  return declared ++ custom.map (ofCustom require)

end Property

end Schemata
