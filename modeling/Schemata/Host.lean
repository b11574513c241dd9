import Schemata.Tag
import Schemata.Trace

/-!
# The host type system

A `Host` answers the engine's questions about types: their members, their tags, the
properties injected without a member, whether they are records, and which types stand in for which.
The engine knows types by nothing else. An answer may write log records and may fail.
-/

namespace Schemata

/-- A property that the host injects without a declared member. -/
structure CustomProperty (σ : Type) where
  /-- The property name. -/
  name : String
  /-- The property type. -/
  type : TypeRef σ
  deriving Inhabited

/-- The engine's view of a type system. -/
structure Host (σ : Type) where
  /-- The members of a type, in declaration order. -/
  members : TypeRef σ → Traced (List (Member σ))
  /-- The tags of a type. -/
  tags : TypeRef σ → Traced (List (Tag σ))
  /-- The properties injected into a type. -/
  customProperties : TypeRef σ → Traced (List (CustomProperty σ))
  /-- Whether a value of the first type can stand where the second is expected. -/
  isAssignable : TypeRef σ → TypeRef σ → Traced Bool
  /-- Whether the members of the type are its fields, named as they are. -/
  isRecord : TypeRef σ → Traced Bool
  /-- Whether every type has a member like this one. -/
  isBaseMember : Member σ → Bool

end Schemata
