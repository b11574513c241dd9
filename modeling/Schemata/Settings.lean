import Schemata.Composition
import Schemata.SimpleType

/-!
# Engine settings

Everything about a build that is decided before the first type is looked at: the table of simple
types, the filter that drops members, the processors that are offered embedded types, whether
properties are required by default, and how references are written.
-/

namespace Schemata

/-- Which types a processor takes. -/
inductive TypeSelector where
  | fullName (name : String)
  | simpleName (name : String)
  deriving DecidableEq, Inhabited

/-- Whether a type is selected. -/
def TypeSelector.selects {σ : Type} : TypeSelector → TypeRef σ → Bool
  | fullName name, t => t.fullName == name
  | simpleName name, t => t.simpleName == name

/-- How a processor renders the embedded types it takes. -/
inductive ProcessorRule (σ : Type) where
  /-- Takes no type. -/
  | declines
  /-- Renders a wrapper with one argument as that argument. -/
  | unwrap (fullNames : List String)
  /-- Renders a wrapper as any of its arguments. -/
  | anyOfArguments (fullNames : List String)
  /-- Renders a generic type as the array of its first argument. -/
  | itemsOf (selector : TypeSelector)
  /-- Renders a type as a fixed schema with fixed references. -/
  | constant (fullName : String) (schema : Entries) (references : List (TypeRef σ))
  /-- Renders a type as a description of the circumstances it is rendered in. -/
  | circumstances (fullName : String)
  deriving Inhabited

/-- A processor: the name it is listed under and what it does. -/
structure Processor (σ : Type) where
  /-- The listed name. -/
  name : String
  /-- The rule. -/
  rule : ProcessorRule σ
  deriving Inhabited

/-- The processor that unwraps optional types. -/
def Processor.optionalUnwrap {σ : Type} (fullNames : List String) : Processor σ :=
  ⟨"OptionalUnwrapProcessor", .unwrap fullNames⟩

/-- The processor that renders unions. -/
def Processor.union {σ : Type} (fullNames : List String) : Processor σ :=
  ⟨"UnionProcessor", .anyOfArguments fullNames⟩

/-- The processors at the end of every chain that includes them. -/
def Processor.builtins {σ : Type} : List (Processor σ) :=
  [.optionalUnwrap ["typing.Optional"], .union ["typing.Union"]]

/-- The references of a components document. -/
def componentsPrefix : String := "#/components/schemas/"

/-- The references of a freestanding schema. -/
def definitionsPrefix : String := "#/definitions/"

/-- A filter that keeps or drops members, under the name it is listed by. -/
structure MemberFilter (σ : Type) where
  /-- The listed name. -/
  name : String
  /-- Whether a member of a type is kept. -/
  keeps : TypeRef σ → Member σ → Bool

/-- The settings of a build. -/
structure Settings (σ : Type) where
  /-- The simple types. -/
  simpleTypes : SimpleType.Table := SimpleType.defaults
  /-- The filter on members. -/
  filter : Option (MemberFilter σ) := none
  /-- The processors offered every embedded type, before the built-in ones. -/
  processors : List (Processor σ) := []
  /-- Whether the built-in processors end the chain. -/
  includeBuiltins : Bool := true
  /-- Whether properties that cannot be null are required. -/
  requireNonNulls : Bool := true
  /-- What the target of a reference starts with. -/
  refPrefix : String := componentsPrefix

namespace Settings

variable {σ : Type}

/-- The effective chain of processors, in the order they are asked. -/
def chain (s : Settings σ) : List (Processor σ) :=
  s.processors ++ if s.includeBuiltins then Processor.builtins else []

/-- Settings are valid when references have a prefix and every simple type has a schema type. -/
def validate (s : Settings σ) : Except Error (Settings σ) :=
  if s.refPrefix.isEmpty then .error (.validation "ref_prefix" "cannot be empty" .null)
  else
    match s.simpleTypes.find? (·.2.type.isEmpty) with
    | some (name, _) =>
      .error (.validation ("simple_type_mappings." ++ name) "must define 'type'" .null)
    | none => .ok s

end Settings

end Schemata
