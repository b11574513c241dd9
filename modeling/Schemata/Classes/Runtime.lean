import Schemata.Classes.DataType
import Schemata.Classes.Expression
import Schemata.Classes.Library

/-!
# What the language decides

Some questions about classes are answered by the language they are written in, and by modules and
classes that are not looked at here: which texts are expressions, what a name stands for that nobody
declares, what a mixed-in data type makes of the value of a constant, and when two such values are
equal. A `Runtime` answers them, and whatever is proved of a table of classes holds for every
runtime. Unless another one is given, it knows the names that need no import and nothing else that
is imported, converts to texts and numbers, and compares data as the language does, constants of
enums by their names alone.
-/

namespace Schemata

/-! ## Equality

Numbers are equal if their quantities are, lists and fixed sequences if their items are, mappings if
they have the same entries in any order, and instances if they are of one class and their fields are
equal. An instance without fields is equal to no other. -/

namespace Value

mutual

/-- Whether two values are equal. -/
def equal : Value → Value → Bool
  | declared _ v, w => equal v w
  | list xs, w =>
    match w.plain with
    | list ys => equalAll xs ys
    | _ => false
  | map es, w =>
    match w.plain with
    | map fs => es.length == fs.length && entriesIn es fs
    | _ => false
  | v, w => v.sameKey w.plain

/-- Whether two lists hold equal values in the same order. -/
def equalAll : List Value → List Value → Bool
  | [], [] => true
  | x :: xs, y :: ys => equal x y && equalAll xs ys
  | _, _ => false

/-- Whether a mapping has all of some entries. -/
def entriesIn : List (Value × Value) → List (Value × Value) → Bool
  | [], _ => true
  | (k, v) :: es, fs => (lookup k fs).any (equal v ·) && entriesIn es fs

end

end Value

namespace Datum

/-- The items of a fixed sequence, with named places or without. -/
def tupleItems? : Datum → Option (List Datum)
  | tuple items => some items
  | made _ .tuple fields => some (fields.map (·.2))
  | _ => none

mutual

/-- Whether two data are equal. -/
def equal : Datum → Datum → Bool
  | plain v, plain w => v.equal w
  | list xs, list ys => equalAll xs ys
  | tuple xs, e => (tupleItems? e).any (equalAll xs ·)
  | constant c n _, constant d m _ => c == d && n == m
  | hint h, hint k => h.same k
  | made _ .tuple fs, e => (tupleItems? e).any (equalFields fs ·)
  | made c _ fs, made d _ gs => c == d && !fs.isEmpty && equalFields fs (gs.map (·.2))
  | _, _ => false

/-- Whether two lists hold equal data in the same order. -/
def equalAll : List Datum → List Datum → Bool
  | [], [] => true
  | x :: xs, y :: ys => equal x y && equalAll xs ys
  | _, _ => false

/-- Whether fields hold equal data in the same order. -/
def equalFields : List (String × Datum) → List Datum → Bool
  | [], [] => true
  | (_, x) :: xs, y :: ys => equal x y && equalFields xs ys
  | _, _ => false

end

end Datum

/-! ## Runtimes -/

/-- Why a lookup failed. -/
inductive LookupFailure where
  /-- Nothing has the name. -/
  | undefined (name : String)
  /-- A class lacks the attribute. -/
  | missing (owner name : String)
  /-- Something was used as what it is not. -/
  | unfit (reason : String)
  /-- A failure that nobody expects of a lookup. -/
  | escaped (e : Error)

/-- The failure in words. -/
def LookupFailure.message : LookupFailure → String
  | undefined name => "name '" ++ name ++ "' is not defined"
  | missing owner name => "type object '" ++ owner ++ "' has no attribute '" ++ name ++ "'"
  | unfit reason => reason
  | escaped e => e.message

/-- What the language and what is not looked at decide about classes. -/
structure Runtime where
  /-- The expression that a text spells, if it spells one. -/
  read? : String → Option NameExpr := NameExpr.read?
  /-- What an expression of another kind stands for, by how it is written and by what its parts stand
  for. -/
  other : String → List Hint → Except LookupFailure Hint :=
    fun source _ ↦ .ok (.special source "object")
  /-- What comes of an operator that cannot be applied to what is known of its operands: how it is
  written, the operands and the reason. -/
  refused : String → List Hint → LookupFailure → Except LookupFailure Hint := fun _ _ e ↦ .error e
  /-- What a name of a module stands for that is neither a class declared there nor a type
  parameter. -/
  imported? : String → Option Hint := fun _ ↦ none
  /-- What a name stands for that needs no import. -/
  core? : String → Option Hint := Hint.ofCoreName?
  /-- The value of a constant, by the ancestors of its enum and the value as it is written. -/
  constantValue : List Hint → Datum → Except Error Datum :=
    fun ancestors ↦ Schemata.constantValue (DataType.mixedIn? ancestors)
  /-- Whether two values of constants are equal. -/
  equal : Datum → Datum → Bool := Datum.equal
  /-- What a constant has under `name` where a class before the base class of enums computes it, by
  the enum and the declared name. -/
  computedName : Hint → String → Value := fun _ name ↦ .str name

instance : Inhabited Runtime := ⟨{}⟩

end Schemata
