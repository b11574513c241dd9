import Schemata.Tag
import Schemata.Trace

/-!
# Compositions

A type or a member declares a composition through a tag named `OneOf`, `AnyOf` or `AllOf`
whose value lists the member types. The first such tag decides; one without a value declares
a composition without members.
-/

namespace Schemata

/-- The keyword of a composition. -/
inductive CompositionKind where
  | oneOf | anyOf | allOf
  deriving DecidableEq, Inhabited

namespace CompositionKind

/-- The schema keyword. -/
def keyword : CompositionKind → String
  | oneOf => "oneOf"
  | anyOf => "anyOf"
  | allOf => "allOf"

/-- The keyword that a tag of this simple name declares. -/
def ofTag? : String → Option CompositionKind
  | "OneOf" => some oneOf
  | "AnyOf" => some anyOf
  | "AllOf" => some allOf
  | _ => none

end CompositionKind

/-- A composition over member types. -/
structure Composition (σ : Type) where
  /-- The keyword. -/
  kind : CompositionKind
  /-- The member types, in order. -/
  members : List (TypeRef σ)
  deriving Inhabited

namespace Composition

variable {σ : Type}

/-- The types listed in a tag value; anything but a type is an error of `field`. -/
def typesOf (field : String) : List (TagValue σ) → Except Error (List (TypeRef σ))
  | [] => .ok []
  | .type t :: rest => (typesOf field rest).map (t :: ·)
  | v :: _ => .error (.validation field "must only contain types" v.payload)

/-- The composition that one tag of a composing name declares. -/
def ofTag (kind : CompositionKind) (a : Tag σ) : Except Error (Composition σ) :=
  let field := a.name ++ ".value"
  match a.get? "value" with
  | none => .ok ⟨kind, []⟩
  | some (.array items) => (typesOf field items).map fun members ↦ ⟨kind, members⟩
  | some _ => .error (.validation field "must be an array of types" .null)

/-- The composition declared by the first composing tag, if there is one. -/
def find? : List (Tag σ) → Except Error (Option (Composition σ))
  | [] => .ok none
  | a :: rest =>
    match CompositionKind.ofTag? a.simpleName with
    | none => find? rest
    | some kind => (ofTag kind a).map some

end Composition

end Schemata
