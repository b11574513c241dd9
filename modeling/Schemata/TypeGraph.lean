import Schemata.Host

/-!
# Declared type systems

A type graph is a type system that consists of nothing but declarations: each gives the members,
tags and injected properties of one type, the types it stands in for, and whether it is a
record. A later declaration of a type replaces an earlier one, except that a type once declared a
record stays one.
-/

namespace Schemata

/-- What is declared about one type. -/
structure Declaration (σ : Type) where
  /-- The declared type. -/
  type : TypeRef σ
  /-- Its members. -/
  members : List (Member σ) := []
  /-- Its tags. -/
  tags : List (Tag σ) := []
  /-- The properties injected into it. -/
  custom : List (CustomProperty σ) := []
  /-- Whether it is a record. -/
  record : Bool := false
  /-- The types it stands in for. -/
  supertypes : List (TypeRef σ) := []

/-- A type system given by declarations. -/
structure TypeGraph (σ : Type) where
  /-- The declarations, in order. -/
  declarations : List (Declaration σ)
  /-- The names of the members that every type has. -/
  baseMembers : List String := ["getClass", "hashCode", "toString"]

namespace TypeGraph

variable {σ : Type} (graph : TypeGraph σ)

/-- The declaration in force for a type. -/
def find? (t : TypeRef σ) : Option (Declaration σ) :=
  graph.declarations.reverse.find? (·.type == t)

/-- What is declared about a type, or nothing. -/
def declared {α : Type} (part : Declaration σ → List α) (t : TypeRef σ) : List α :=
  ((graph.find? t).map part).getD []

/-- The type system. -/
def host : Host σ where
  members t := return graph.declared (·.members) t
  tags t := return graph.declared (·.tags) t
  customProperties t := return graph.declared (·.custom) t
  isAssignable a b := return a == b || (graph.declared (·.supertypes) a).contains b
  isRecord t := return graph.declarations.any fun d ↦ d.record && d.type == t
  isBaseMember m := graph.baseMembers.contains m.name

end TypeGraph

end Schemata
