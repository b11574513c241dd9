import Schemata.Error
import Schemata.Text.Join

/-!
# Writing JSON

A value is written in ASCII: characters outside the printable ASCII range are escaped by their
sixteen-bit units, the common controls by their short escapes. Keys are always strings; numbers,
truth values and null become the strings that they would be written as. A value without a data form
cannot be written, unless the style says how such an object is named.

Two layouts are in use: everything on one line, and one item a line with an indentation per level.
-/

namespace Schemata.Json

open Text (joinWith)

/-- The decisions of a JSON text that the data do not make. -/
structure Style where
  /-- The width of one level of indentation; none for everything on one line. -/
  indent : Option Nat
  /-- How an object without a data form is written, if it may be written at all. -/
  object : HostObject → Option String := fun _ ↦ none

/-- Numbers are written by the fewest digits that read back. -/
def numberLayout : FloatLayout := { infinity := "Infinity", nan := "NaN" }

/-- A sixteen-bit unit as an escape. -/
def unitEscape (n : Nat) : List Char := '\\' :: 'u' :: Text.hexPadded 4 n

/-- A character as it stands inside a string. -/
def escapeChar (c : Char) : List Char :=
  if c = '"' then ['\\', '"']
  else if c = '\\' then ['\\', '\\']
  else if c = '\n' then ['\\', 'n']
  else if c = '\r' then ['\\', 'r']
  else if c = '\t' then ['\\', 't']
  else if c.toNat = 12 then ['\\', 'f']
  else if c.toNat = 8 then ['\\', 'b']
  else if 32 ≤ c.toNat ∧ c.toNat ≤ 126 then [c]
  else if c.toNat < 0x10000 then unitEscape c.toNat
  else
    let n := c.toNat - 0x10000
    unitEscape (0xd800 + n / 0x400) ++ unitEscape (0xdc00 + n % 0x400)

/-- A string in quotes. -/
def stringText (s : String) : String :=
  String.ofList ('"' :: s.toList.flatMap escapeChar ++ ['"'])

/-- A truth value. -/
def boolText (b : Bool) : String := if b then "true" else "false"

/-- A key: the string that the value would be written as. -/
def keyText : Value → Except Error String
  | .str s => .ok (stringText s)
  | .int n => .ok (stringText (toString n))
  | .float x => .ok (stringText (x.render numberLayout))
  | .bool b => .ok (stringText (boolText b))
  | .null => .ok (stringText "null")
  | .declared _ v => keyText v
  | _ => .error .wrongType

/-- A line break and the indentation of a level, where there is one. -/
def breakAt (style : Style) (level : Nat) : String :=
  match style.indent with
  | none => ""
  | some width => "\n" ++ String.ofList (List.replicate (width * level) ' ')

/-- Items between brackets at a level. -/
def bracket (style : Style) (level : Nat) (opening closing : String) (items : List String) :
    String :=
  if items.isEmpty then opening ++ closing
  else
    let separator := if style.indent.isSome then "," else ", "
    opening ++ breakAt style (level + 1) ++
      joinWith (separator ++ breakAt style (level + 1)) items ++ breakAt style level ++ closing

mutual

/-- A value at a level of nesting. -/
def write (style : Style) (level : Nat) : Value → Except Error String
  | .null => .ok "null"
  | .bool b => .ok (boolText b)
  | .int n => .ok (toString n)
  | .float x => .ok (x.render numberLayout)
  | .str s => .ok (stringText s)
  | .list items => do
    return bracket style level "[" "]" (← writeItems style (level + 1) items)
  | .map entries => do
    return bracket style level "\x7b" "\x7d" (← writeEntries style (level + 1) entries)
  | .object o =>
    match style.object o with
    | some s => .ok (stringText s)
    | none => .error .wrongType
  | .declared _ v => write style level v

/-- The items of a list. -/
def writeItems (style : Style) (level : Nat) : List Value → Except Error (List String)
  | [] => .ok []
  | v :: rest => do
    let text ← write style level v
    return text :: (← writeItems style level rest)

/-- The entries of a mapping. -/
def writeEntries (style : Style) (level : Nat) : List (Value × Value) → Except Error (List String)
  | [] => .ok []
  | (k, v) :: rest => do
    let key ← keyText k
    let text ← write style level v
    return (key ++ ": " ++ text) :: (← writeEntries style level rest)

end

/-- A value with one item a line, two spaces a level. -/
def pretty (v : Value) : Except Error String := write { indent := some 2 } 0 v

/-- A value on one line; objects without a data form are written as their texts. -/
def compact (v : Value) : Except Error String :=
  write { indent := none, object := fun o ↦ some o.text } 0 v

end Schemata.Json
