import Schemata.Tag
import Schemata.Text.Indent
import Schemata.Trace

/-!
# Extension metadata

Tags add entries of their own to a schema: an example, any number of named entries, and
every attribute of a tag that is flagged as custom metadata. `Extension.collect` gathers
them in that order, a later writer of a key replacing the value in place, and `Extension.merge`
adds them to a schema. The key `example` is always collected first, null when nothing declares it;
null entries are never merged.
-/

namespace Schemata

/-- An ordered mapping: a schema, or the metadata added to one. -/
abbrev Entries := List (Value × Value)

namespace TagValue

variable {σ : Type}

/-- Whether a value may stand in a schema array. -/
def arrayItem : Value → Bool
  | .null => false
  | .object _ => false
  | .declared _ v => arrayItem v
  | _ => true

/-- The text of a string value, which only a string has. -/
def trimmed (v : Value) : Except Error Value :=
  match v.plain with
  | .str s => .ok (.str (Text.trimIndent s))
  | _ => .error .wrongType

mutual

/-- The data form of a tag value. -/
def coerce : TagValue σ → Except Error Value
  | boolean v | number v => .ok v
  | string v => trimmed v
  | enumConstant v => .ok (.str v.text)
  | type t => .ok (.str t.fullName)
  | array items => (coerceAll items).map .list
  | tag _ => .error (.uncoercible "nested annotations are not supported")
  | unknown v => .error (.uncoercible ("unknown value " ++ v.shown))

/-- The data forms of the items of an array, the first item without one deciding the error. -/
def coerceAll : List (TagValue σ) → Except Error (List Value)
  | [] => .ok []
  | item :: rest => do
    let v ← coerce item
    if arrayItem v then
      let vs ← coerceAll rest
      return v :: vs
    else
      throw (.uncoercible ("unsupported array value " ++ item.payload.shown))

end

end TagValue

namespace Extension

variable {σ : Type}

/-- The entries with the declared example, if there is one. -/
def withExample (tags : List (Tag σ)) : Entries :=
  let example? := do
    let a ← Tag.find? tags "OpenApiExample"
    a.get? "value"
  [(.str "example", (example?.map (·.payload)).getD .null)]

/-- Adds the entry that one named-entry tag declares; it needs both a name and a value. -/
def addNamed (extra : Entries) (a : Tag σ) : Except Error Entries :=
  match a.get? "name", a.get? "value" with
  | some name, some value =>
    if name.payload.keyable then .ok (Value.put extra name.payload value.payload)
    else .error .wrongType
  | _, _ => .ok extra

/-- Adds one attribute of a custom tag. -/
def addAttribute (element tag : String) (extra : Entries)
    (entry : String × TagValue σ) : Traced Entries :=
  match entry.2.coerce with
  | .ok v => do
    Traced.debug ("Mapped " ++ tag ++ "." ++ entry.1 ++ " to " ++ v.shown)
    return Value.put extra (.str entry.1) v
  | .error (.uncoercible reason) =>
    Traced.fail (.unsupportedTag element tag entry.1 reason)
  | .error e => Traced.fail e

/-- Adds the attributes of a tag that is flagged as custom metadata. -/
def addCustom (element : String) (extra : Entries) (a : Tag σ) : Traced Entries :=
  if a.custom then do
    Traced.debug ("Custom annotation " ++ a.name ++ " on " ++ element)
    a.entries.foldlM (addAttribute element a.name) extra
  else return extra

/-- The metadata that the tags of an element declare. -/
def collect (tags : List (Tag σ)) (element : String) : Traced Entries := do
  let named ← Traced.ofExcept
    ((Tag.findAll tags "Custom").foldlM addNamed (withExample tags))
  tags.foldlM (addCustom element) named

/-- The form in which an entry is added to a schema: data as it is, anything else as text. -/
def entryForm : Value → Value
  | .str s => .str s
  | .object o => .str o.text
  | v => v

/-- Adds one entry unless its value is null. -/
def mergeEntry (schema : Entries) (entry : Value × Value) : Entries :=
  match entry.2 with
  | .null => schema
  | v => Value.put schema entry.1 (entryForm v)

/-- Adds every entry whose value is not null, in order. -/
def merge (schema extra : Entries) : Entries := extra.foldl mergeEntry schema

end Extension

end Schemata
