import Schemata.Property

/-!
# Rendering types as schemas

A type is rendered in two ways: as a *definition* that stands by itself, and *embedded* in the
schema of something else, where objects and enums are referenced instead of spelled out unless they
are to be inlined. Each way asks for the other, so a single step, `Generator.step`, renders one job
and hands the jobs it meets to a function it is given; `Generator.render` ties the knot under a
budget of nested jobs. A step is not recursive, and a statement about rendering is a statement about
one step and an induction on the budget.

A rendered node is a schema together with the types it references without spelling them out. A type
that is being inlined further out is referenced even where types are inlined.
-/

namespace Schemata

/-- A schema and the types it references. -/
structure Node (σ : Type) where
  /-- The schema. -/
  schema : Entries
  /-- The referenced types, without repetitions. -/
  references : List (TypeRef σ) := []
  deriving Inhabited

/-- The circumstances under which a type is rendered. -/
structure Mode (σ : Type) where
  /-- Whether referenced types are spelled out in place. -/
  inline : Bool
  /-- Whether properties that cannot be null are required. -/
  require : Bool
  /-- The types that are being spelled out around this one. -/
  inlining : List (TypeRef σ) := []

/-- Something to render. -/
inductive Job (σ : Type) where
  /-- A type by itself. -/
  | definition (t : TypeRef σ) (mode : Mode σ)
  /-- A type inside another schema, with what the embedding property declares. -/
  | embedded (t : TypeRef σ) (mode : Mode σ) (composition : Option (Composition σ))
      (extra : Option Entries)
  /-- Something inside another schema that is no type. -/
  | misplaced (value : Value) (mode : Mode σ)

/-- What there is to render for what stands in the place of an embedded type. -/
def Job.ofPlace {σ : Type} (mode : Mode σ) (composition : Option (Composition σ))
    (extra : Option Entries) : TypePlace σ → Job σ
  | .type t => .embedded t mode composition extra
  | .other value => .misplaced value mode

/-- A host and the settings of a build. -/
structure Generator (σ : Type) where
  /-- The type system. -/
  host : Host σ
  /-- The settings. -/
  settings : Settings σ := {}

namespace Generator

variable {σ : Type} (g : Generator σ)

/-- The fixed schema of a simple type. -/
def simpleType (t : TypeRef σ) : Option SimpleType := g.settings.simpleTypes.get? t.fullName

/-! ## Embedding -/

section Step

variable (render : Job σ → Traced (Node σ))

/-- A type embedded without a declaration of its own. -/
def embed (t : TypeRef σ) (mode : Mode σ) : Traced (Node σ) :=
  render (.embedded t mode none none)

/-- The nodes of several embedded types: their schemas in order and all their references. -/
def embedAll (mode : Mode σ) : List (TypeRef σ) → Traced (List Value × List (TypeRef σ))
  | [] => return ([], [])
  | t :: rest => do
    let node ← embed render t mode
    let (schemas, references) ← embedAll mode rest
    return (.map node.schema :: schemas, TypeRef.union node.references references)

/-- A composition over embedded types. -/
def compose (c : Composition σ) (mode : Mode σ) : Traced (Node σ) := do
  let (schemas, references) ← embedAll render mode c.members
  return ⟨[(.str c.kind.keyword, .list schemas)], references⟩

/-- An array or a dictionary. -/
def container (t : TypeRef σ) (mode : Mode σ) : Traced (Node σ) :=
  match t.kind, t.generics with
  | .array, [] => return ⟨[(.str "type", .str "array")], []⟩
  | .array, element :: _ =>
    if SimpleType.binaryElements.contains element.simpleName then
      return ⟨[(.str "type", .str "string"), (.str "format", .str "binary")], []⟩
    else do
      let items ← embed render element mode
      return ⟨[(.str "type", .str "array"), (.str "items", .map items.schema)], items.references⟩
  | _, _ :: value :: _ => do
    let values ← embed render value mode
    return ⟨[(.str "type", .str "object"), (.str "additionalProperties", .map values.schema)],
      values.references⟩
  | _, _ => return ⟨[(.str "type", .str "object")], []⟩

/-- A simple type, a type spelled out in place, or a reference. -/
def referenceOrInline (t : TypeRef σ) (mode : Mode σ) : Traced (Node σ) :=
  match g.simpleType t with
  | some s => return ⟨s.schema, []⟩
  | none =>
    if mode.inline && !mode.inlining.contains t then render (.definition t mode)
    else do
      Traced.debug ("Recording reference to " ++ t.text)
      return ⟨[(.str "$ref", .str (g.settings.refPrefix ++ t.schemaName))], [t]⟩

/-- An embedded type that no processor took and no composition replaces. -/
def fallback (t : TypeRef σ) (mode : Mode σ) : Traced (Node σ) :=
  if (g.simpleType t).isNone && (t.kind = .array || t.kind = .dictionary) then
    container render t mode
  else g.referenceOrInline render t mode

/-! ## Processors -/

/-- A description of the circumstances of an embedded type. -/
def circumstances (mode : Mode σ) (composition : Option (Composition σ)) (extra : Option Entries) :
    Entries :=
  let sorted (texts : List String) : Value := .list ((texts.mergeSort).map .str)
  [ (.str "inline", .bool mode.inline),
    (.str "require", .bool mode.require),
    (.str "extra", match extra with
      | some entries => sorted (entries.map (·.1.text))
      | none => .str "none"),
    (.str "composition", .str ((composition.map (·.kind.keyword)).getD "none")),
    (.str "inlining", sorted (mode.inlining.map (·.text))) ]

/-- What a processor makes of an embedded type; nothing if it declines. -/
def process (rule : ProcessorRule σ) (t : TypeRef σ) (mode : Mode σ)
    (composition : Option (Composition σ)) (extra : Option Entries) :
    Traced (Option (Node σ)) :=
  match rule with
  | .declines => return none
  | .unwrap names =>
    match composition, t.generics with
    | none, [inner] => if names.contains t.fullName then some <$> embed render inner mode
                       else return none
    | _, _ => return none
  | .anyOfArguments names =>
    if composition.isNone && !t.generics.isEmpty && names.contains t.fullName then
      some <$> compose render ⟨.anyOf, t.generics⟩ mode
    else return none
  | .itemsOf selector =>
    match t.generics with
    | [] => return none
    | first :: _ =>
      if selector.selects t then do
        let items ← embed render first mode
        return some ⟨[(.str "type", .str "array"), (.str "items", .map items.schema)],
          items.references⟩
      else return none
  | .constant name schema references =>
    return if t.fullName == name then some ⟨schema, references⟩ else none
  | .circumstances name =>
    return if t.fullName == name then some ⟨circumstances mode composition extra, []⟩ else none

/-- What the first processor that does not decline makes of an embedded type. -/
def processFirst (t : TypeRef σ) (mode : Mode σ) (composition : Option (Composition σ))
    (extra : Option Entries) : List (Processor σ) → Traced (Option (Node σ))
  | [] => return none
  | p :: rest => do
    match ← process render p.rule t mode composition extra with
    | some node => return some node
    | none => processFirst t mode composition extra rest

/-! ## Definitions -/

/-- The names of the constants of an enum: its static members of a type that stands in for it. -/
def enumNames (t : TypeRef σ) : List (Member σ) → List String → Traced (List String)
  | [], names => return names
  | m :: rest, names => do
    let isConstant ← match m.isStatic, m.declaredType with
      | true, some declared => g.host.isAssignable declared t
      | _, _ => pure false
    enumNames t rest (if isConstant && !names.contains m.name then names ++ [m.name] else names)

/-- An enum. -/
def enumeration (t : TypeRef σ) : Traced (Node σ) := do
  let names ← g.enumNames t (← g.host.members t) []
  return ⟨[(.str "type", .str "string"), (.str "enum", .list (names.map .str))], []⟩

/-- The rendered properties of an object so far. -/
structure Body (σ : Type) where
  /-- The schemas of the properties. -/
  properties : Entries := []
  /-- The names of the required properties. -/
  required : List String := []
  /-- The referenced types. -/
  references : List (TypeRef σ) := []

/-- Adds one property; of several with one name the first stays. -/
def addProperty (t : TypeRef σ) (mode : Mode σ) (body : Body σ) (p : Property σ) :
    Traced (Body σ) := do
  if Value.hasKey body.properties (.str p.name) then
    Traced.debug ("Skipping " ++ t.text ++ "." ++ p.name ++ ": duplicate property")
    return body
  else
    let node ← render (.ofPlace mode p.composition (some p.extra) p.type)
    return {
      properties := body.properties ++ [(.str p.name, .map node.schema)]
      required := if p.required then body.required ++ [p.name] else body.required
      references := TypeRef.union body.references node.references }

/-- Whether the tags of a type override that its properties are required. -/
def requireOf (tags : List (Tag σ)) (require : Bool) : Bool :=
  match (Tag.find? tags "JsonSchema").bind (·.get? "require_non_nulls") with
  | some v => v.truthy
  | none => require

/-- An object: its metadata, then its properties, then which of them are required. -/
def object (t : TypeRef σ) (tags : List (Tag σ)) (mode : Mode σ) :
    Traced (Node σ) := do
  let extra ← Extension.collect tags t.text
  let head := Extension.merge
    [(.str "type", .str "object"), (.str "additionalProperties", .bool false)] extra
  let require := requireOf tags mode.require
  let inner := { mode with require, inlining := TypeRef.insertNew mode.inlining t }
  let properties ← Property.extract g.host g.settings t require
  let body ← properties.foldlM (addProperty render t inner) {}
  let schema := Value.put head (.str "properties") (.map body.properties)
  let schema :=
    if body.required.isEmpty then schema
    else Value.put schema (.str "required") (.list (body.required.map .str))
  return ⟨schema, body.references⟩

/-- A type by itself: what an override names, a simple type, a composition, or by its kind. -/
def define (t : TypeRef σ) (mode : Mode σ) : Traced (Node σ) := do
  let tags ← g.host.tags t
  match ← Traced.ofExcept (definedBy tags) with
  | some u => render (.definition u mode)
  | none =>
    match g.simpleType t with
    | some s => return ⟨s.schema, []⟩
    | none =>
      match ← Traced.ofExcept (Composition.find? tags) with
      | some c => compose render c mode
      | none =>
        match t.kind with
        | .enum => g.enumeration t
        | .array | .dictionary => container render t mode
        | .object | .primitive => g.object render t tags mode

/-- An embedded type: what an override names, what a processor makes of it, the composition that
replaces it, or the type itself; the metadata is merged last. -/
def embedStep (t : TypeRef σ) (mode : Mode σ) (composition : Option (Composition σ))
    (extra : Option Entries) : Traced (Node σ) := do
  let tags ← g.host.tags t
  match ← Traced.ofExcept (definedBy tags) with
  | some u => render (.embedded u mode composition extra)
  | none =>
    let node ← match ← processFirst render t mode composition extra g.settings.chain with
      | some node => pure node
      | none =>
        match composition with
        | some c => compose render c mode
        | none => g.fallback render t mode
    return ⟨Extension.merge node.schema (extra.getD []), node.references⟩

/-- Renders one job, handing the jobs it meets to `render`. Nothing can be asked about what is no
type. -/
def step : Job σ → Traced (Node σ)
  | .definition t mode => g.define render t mode
  | .embedded t mode composition extra => g.embedStep render t mode composition extra
  | .misplaced _ _ => Traced.fail .noAttribute

end Step

/-! ## The budget -/

/-- Renders a job with a budget of nested jobs. -/
def render : Nat → Job σ → Traced (Node σ)
  | 0, _ => Traced.exhausted
  | budget + 1, job => g.step (render budget) job

/-- A budget that no type graph of a reasonable size exceeds. -/
def ampleBudget : Nat := 100000

/-- The schema of a type by itself; the settings decide what is required unless told. -/
def build (budget : Nat) (t : TypeRef σ) (inline : Bool := false) (require : Option Bool := none) :
    Traced (Node σ) :=
  g.render budget (.definition t { inline, require := require.getD g.settings.requireNonNulls })

end Generator

end Schemata
