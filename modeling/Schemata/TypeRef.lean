import Schemata.Value

/-!
# References to types

A `TypeRef` is the identity of a type in the host's type system: its full and simple names, its
structural kind and its generic arguments. The handle back to the host's own description of the
type is of a type `σ` that only the host knows; nothing in the engine reads it.

Two references are the same type when their names and arguments agree; kind and handle do not
count. `TypeRef.text` is the name that logs and messages show, `TypeRef.schemaName` the name under
which a definition is filed.
-/

namespace Schemata

/-- The structural kind of a type. -/
inductive TypeKind where
  | object | enum | array | dictionary | primitive
  deriving DecidableEq, Inhabited

namespace TypeKind

/-- The kind in lower-case letters. -/
def text : TypeKind → String
  | object => "object"
  | enum => "enum"
  | array => "array"
  | dictionary => "dictionary"
  | primitive => "primitive"

/-- The kind as it is shown inside values. -/
def shown (k : TypeKind) : String :=
  let name := match k with
    | object => "OBJECT"
    | enum => "ENUM"
    | array => "ARRAY"
    | dictionary => "DICTIONARY"
    | primitive => "PRIMITIVE"
  "<TypeKind." ++ name ++ ": '" ++ k.text ++ "'>"

end TypeKind

/-- The identity of a type, with a handle of the host's own. -/
structure TypeRef (σ : Type) where
  /-- The fully qualified name. -/
  fullName : String
  /-- The short name, used for definitions. -/
  simpleName : String
  /-- The structural kind. -/
  kind : TypeKind := .object
  /-- The generic arguments, in order. -/
  generics : List (TypeRef σ) := []
  /-- The host's handle. -/
  source : Option σ := none
  deriving Inhabited

namespace TypeRef

variable {σ : Type}

mutual

/-- Whether two references are the same type. -/
def same : TypeRef σ → TypeRef σ → Bool
  | ⟨f, s, _, gs, _⟩, ⟨f', s', _, gs', _⟩ => f == f' && s == s' && sameAll gs gs'

/-- Whether two lists of references are the same types in the same order. -/
def sameAll : List (TypeRef σ) → List (TypeRef σ) → Bool
  | [], [] => true
  | a :: as, b :: bs => same a b && sameAll as bs
  | _, _ => false

end

instance : BEq (TypeRef σ) := ⟨same⟩

mutual

/-- The full name, followed by the arguments in brackets if there are any. -/
def text : TypeRef σ → String
  | ⟨f, _, _, gs, _⟩ => if gs.isEmpty then f else f ++ "[" ++ Text.joinWith ", " (texts gs) ++ "]"

/-- The texts of several references. -/
def texts : List (TypeRef σ) → List String
  | [] => []
  | g :: gs => text g :: texts gs

end

mutual

/-- The simple name joined with the schema names of the arguments. -/
def schemaName : TypeRef σ → String
  | ⟨_, s, _, gs, _⟩ => s ++ schemaSuffix gs

/-- The schema names of the arguments, each after a separator. -/
def schemaSuffix : List (TypeRef σ) → String
  | [] => ""
  | g :: gs => "_" ++ schemaName g ++ schemaSuffix gs

end

mutual

/-- The reference as it is shown inside values. -/
def shown : TypeRef σ → String
  | ⟨f, s, k, gs, _⟩ =>
    "TypeDescriptor(full_name=" ++ Text.quoted f ++ ", simple_name=" ++ Text.quoted s ++
      ", kind=" ++ k.shown ++ ", generics=" ++ Text.tupleText (shownAll gs) ++ ")"

/-- Several references as they are shown. -/
def shownAll : List (TypeRef σ) → List String
  | [] => []
  | g :: gs => shown g :: shownAll gs

end

/-- Whether values of the type can never be absent. -/
def isPrimitive (t : TypeRef σ) : Bool := t.kind = .primitive

/-- The reference as a datum without data form. -/
def toValue (t : TypeRef σ) : Value :=
  .object { text := t.text, shown := t.shown, typeName := "TypeDescriptor" }

/-! ## Sets of references

A set of references is a list without repetitions. Of two references to the same type, the one
that came first stays. -/

/-- Adds a reference unless the type is already there. -/
def insertNew (s : List (TypeRef σ)) (t : TypeRef σ) : List (TypeRef σ) :=
  if s.contains t then s else s ++ [t]

/-- The union of two sets; members of the first one stay. -/
def union (s t : List (TypeRef σ)) : List (TypeRef σ) := t.foldl insertNew s

/-- The references in the order of their texts. -/
def sortByText (s : List (TypeRef σ)) : List (TypeRef σ) :=
  s.mergeSort fun a b ↦ decide (a.text ≤ b.text)

end TypeRef

end Schemata
