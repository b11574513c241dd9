import Schemata.Decimal.Layout
import Schemata.Text.Join
import Schemata.Text.Quoted

/-!
# Values

A `Value` is a datum as authors and configuration files supply it: a scalar, a list, a mapping
whose keys are again values, or a host object that has no data form and is known by the texts it is
shown as. The engine's schemas are values too.

A structured value that an author wrote down once is *declared*: it carries the number of its
declaration, so that a format with cross references can tell one value quoted twice from two equal
values. Every other operation looks through the number.
-/

namespace Schemata

/-- A host object without a data form: how it is shown, plainly and inside other values, and the
name of its type. -/
structure HostObject where
  /-- The object as text. -/
  text : String
  /-- The object as it is shown inside other values and in messages. -/
  shown : String
  /-- The name of the object's type. -/
  typeName : String
  deriving DecidableEq, Inhabited

/-- A datum. -/
inductive Value where
  | null
  | bool (b : Bool)
  | int (n : Int)
  | float (x : Binary64)
  | str (s : String)
  | list (items : List Value)
  | map (entries : List (Value × Value))
  | object (o : HostObject)
  | declared (number : Nat) (value : Value)
  deriving Inhabited

namespace Value

/-- Floating-point numbers are shown by the fewest digits that read back. -/
def plainLayout : FloatLayout := {}

/-- The two truth values as they are shown. -/
def boolText (b : Bool) : String := if b then "True" else "False"

open Text (joinWith)

mutual

/-- A value as it is shown inside other values and in messages. -/
def shown : Value → String
  | null => "None"
  | bool b => boolText b
  | int n => toString n
  | float x => x.render plainLayout
  | str s => Text.quoted s
  | list items => "[" ++ joinWith ", " (shownList items) ++ "]"
  | map entries => "\x7b" ++ joinWith ", " (shownEntries entries) ++ "\x7d"
  | object o => o.shown
  | declared _ v => shown v

/-- The items of a list as they are shown. -/
def shownList : List Value → List String
  | [] => []
  | v :: rest => shown v :: shownList rest

/-- The entries of a mapping as they are shown. -/
def shownEntries : List (Value × Value) → List String
  | [] => []
  | (k, v) :: rest => (shown k ++ ": " ++ shown v) :: shownEntries rest

end

/-- A value as text: a string stands for itself. -/
def text : Value → String
  | str s => s
  | object o => o.text
  | declared _ v => text v
  | v => shown v

/-- A value without the number of its declaration. -/
def plain : Value → Value
  | declared _ v => plain v
  | v => v

/-- Whether a value counts as true: everything but the empty and zero values does. -/
def truthy : Value → Bool
  | null => false
  | bool b => b
  | int n => n != 0
  | float x => !x.isZero
  | str s => !s.isEmpty
  | list items => !items.isEmpty
  | map entries => !entries.isEmpty
  | object _ => true
  | declared _ v => truthy v

/-- The name of a value's type, as messages give it. -/
def typeName : Value → String
  | null => "NoneType"
  | bool _ => "bool"
  | int _ => "int"
  | float _ => "float"
  | str _ => "str"
  | list _ => "list"
  | map _ => "dict"
  | object o => o.typeName
  | declared _ v => typeName v

/-! ## Keys -/

/-- A number that can be compared with other numbers. -/
inductive Quantity where
  | int (n : Int)
  | float (x : Binary64)

/-- The quantity of a number; the truth values count as one and zero. -/
def quantity? : Value → Option Quantity
  | bool b => some (.int (if b then 1 else 0))
  | int n => some (.int n)
  | float x => some (.float x)
  | _ => none

/-- Whether two quantities are equal. -/
def Quantity.same : Quantity → Quantity → Bool
  | .int m, .int n => m == n
  | .float x, .float y => x.sameNumber y
  | .int n, .float x => x.toInt? == some n
  | .float x, .int n => x.toInt? == some n

/-- Whether two values are one key of a mapping: numbers are compared as quantities. -/
def sameKey (a b : Value) : Bool :=
  match a.quantity?, b.quantity? with
  | some p, some q => p.same q
  | none, none =>
    match a, b with
    | null, null => true
    | str s, str t => s == t
    | object o, object p => o == p
    | _, _ => false
  | _, _ => false

/-- Whether a value may be a key. -/
def keyable : Value → Bool
  | list _ => false
  | map _ => false
  | declared _ v => keyable v
  | _ => true

/-! ## Entries -/

/-- The value under a key. -/
def lookup (key : Value) : List (Value × Value) → Option Value
  | [] => none
  | (k, v) :: rest => if k.sameKey key then some v else lookup key rest

/-- Sets the value under a key: a present key keeps its place and its form, a new one goes to the
end. -/
def put (entries : List (Value × Value)) (key value : Value) : List (Value × Value) :=
  match entries with
  | [] => [(key, value)]
  | (k, v) :: rest =>
    if k.sameKey key then (k, value) :: rest else (k, v) :: put rest key value

/-- Whether a key is present. -/
def hasKey (entries : List (Value × Value)) (key : Value) : Bool := (lookup key entries).isSome

/-- The entries that result from setting keys one after the other. -/
def putAll (entries : List (Value × Value)) (added : List (Value × Value)) :
    List (Value × Value) :=
  added.foldl (fun acc (k, v) ↦ put acc k v) entries

end Value

end Schemata
