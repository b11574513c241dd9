import Schemata.Generator

/-!
# Documents

`Components.build` resolves root types and everything they reference: each type taken from the
queue is built once, its new references are queued in the order of their texts, and the first type
that claims a schema name keeps it. A components document files the result under one key; a
freestanding schema spells out the root, and defines the types that could not be spelled out
because they enclose themselves.
-/

namespace Schemata

namespace Components

variable {σ : Type}

/-- How far the resolution of a set of types has come. -/
structure Progress (σ : Type) where
  /-- The definitions, by schema name. -/
  schemas : Entries := []
  /-- The type that each schema name belongs to. -/
  owners : List (String × TypeRef σ) := []
  /-- The types that have been queued. -/
  seen : List (TypeRef σ) := []
  /-- The types that are still to be built. -/
  pending : List (TypeRef σ) := []

/-- Queues the types that have not been queued before. -/
def Progress.enqueue (p : Progress σ) (types : List (TypeRef σ)) : Progress σ :=
  types.foldl (fun p t ↦
    if p.seen.contains t then p
    else { p with seen := p.seen ++ [t], pending := p.pending ++ [t] }) p

/-- Files a definition under the schema name of its type, unless another type has the name. -/
def Progress.file (p : Progress σ) (t : TypeRef σ) (schema : Entries) : Traced (Progress σ) := do
  let name := t.schemaName
  match p.owners.find? (·.1 == name) with
  | none =>
    Traced.debug ("Resolved " ++ t.text ++ " as '" ++ name ++ "'")
    return { p with
      owners := p.owners ++ [(name, t)]
      schemas := p.schemas ++ [(.str name, .map schema)] }
  | some (_, owner) =>
    if owner != t then
      Traced.write .warning
        ("Schema name '" ++ name ++ "' is used by both " ++ owner.text ++ " and " ++ t.text ++
          "; keeping the first definition")
    return p

/-- Builds queued types until none is left, at most `rounds` of them. -/
def resolve (define : TypeRef σ → Traced (Node σ)) : Nat → Progress σ → Traced Entries
  | rounds, p =>
    match p.pending with
    | [] => return p.schemas
    | t :: rest =>
      match rounds with
      | 0 => Traced.exhausted
      | rounds + 1 => do
        let node ← define t
        let p ← Progress.file { p with pending := rest } t node.schema
        resolve define rounds
          (p.enqueue (TypeRef.sortByText (node.references.filter (!p.seen.contains ·))))

/-- The definitions of the roots and of all types they reference. -/
def build (g : Generator σ) (budget : Nat) (inline : Bool) (roots : List (TypeRef σ)) :
    Traced Entries :=
  resolve (fun t ↦ g.build budget t inline) budget (Progress.enqueue {} roots)

/-- The components document of the roots. -/
def document (g : Generator σ) (budget : Nat) (roots : List (TypeRef σ)) : Traced Entries := do
  let schemas ← build g budget false roots
  Traced.write .info ("Generated " ++ toString schemas.length ++ " component schema(s) from " ++
    toString roots.length ++ " root(s)")
  return [(.str "components", .map [(.str "schemas", .map schemas)])]

end Components

/-- The dialect of a freestanding schema. -/
def schemaDialect : String := "http://json-schema.org/draft-07/schema#"

/-- The generator with references into the definitions of a freestanding schema. -/
def Generator.freestanding {σ : Type} (g : Generator σ) : Generator σ :=
  { g with settings := { g.settings with refPrefix := definitionsPrefix } }

/-- The freestanding schema of a type. -/
def freestandingSchema {σ : Type} (g : Generator σ) (budget : Nat) (root : TypeRef σ) :
    Traced Entries := do
  let node ← g.freestanding.build budget root true
  let schema := Value.putAll [(.str "$schema", .str schemaDialect)] node.schema
  let schema ←
    if node.references.isEmpty then pure schema
    else do
      let definitions ← Components.build g.freestanding budget true
        (TypeRef.sortByText node.references)
      pure (Value.put schema (.str "definitions") (.map definitions))
  Traced.write .info ("Generated JSON schema for " ++ root.text)
  return schema

end Schemata
