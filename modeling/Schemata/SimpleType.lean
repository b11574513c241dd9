import Schemata.Extension

/-!
# Simple types

A simple type is rendered as a fixed schema wherever it occurs. It is never referenced and never
inlined. The table maps full names to simple types and keeps the order in which names were entered.
-/

namespace Schemata

/-- The fixed schema of a type. -/
structure SimpleType where
  /-- The schema type. -/
  type : String
  /-- The format; null when there is none. -/
  format : Value := .null
  deriving Inhabited

namespace SimpleType

/-- The schema. -/
def schema (s : SimpleType) : Entries :=
  (.str "type", .str s.type) ::
    match s.format with
    | .null => []
    | f => [(.str "format", f)]

/-- A table of simple types by full name. -/
abbrev Table := List (String × SimpleType)

/-- The simple type entered under a name. -/
def Table.get? (table : Table) (name : String) : Option SimpleType :=
  (table.find? (·.1 == name)).map (·.2)

/-- Enters a simple type: a present name keeps its place, a new one goes to the end. -/
def Table.enter : Table → String → SimpleType → Table
  | [], name, s => [(name, s)]
  | (n, t) :: rest, name, s =>
    if n == name then (n, s) :: rest else (n, t) :: Table.enter rest name s

/-- The table with further entries on top. -/
def Table.override (table overrides : Table) : Table :=
  overrides.foldl (fun acc (name, s) ↦ acc.enter name s) table

/-- The types that are simple unless a configuration says otherwise. -/
def defaults : Table :=
  [ ("builtins.bool", ⟨"boolean", .null⟩),
    ("builtins.int", ⟨"integer", .null⟩),
    ("builtins.float", ⟨"number", .str "double"⟩),
    ("builtins.complex", ⟨"string", .null⟩),
    ("builtins.str", ⟨"string", .null⟩),
    ("builtins.NoneType", ⟨"null", .null⟩),
    ("builtins.object", ⟨"object", .null⟩),
    ("typing.Any", ⟨"object", .null⟩),
    ("decimal.Decimal", ⟨"number", .null⟩),
    ("datetime.datetime", ⟨"string", .str "date-time"⟩),
    ("datetime.date", ⟨"string", .str "date"⟩),
    ("datetime.time", ⟨"string", .str "time"⟩),
    ("datetime.timedelta", ⟨"string", .str "duration"⟩),
    ("uuid.UUID", ⟨"string", .str "uuid"⟩),
    ("ipaddress.IPv4Address", ⟨"string", .str "ipv4"⟩),
    ("ipaddress.IPv6Address", ⟨"string", .str "ipv6"⟩),
    ("pathlib.Path", ⟨"string", .null⟩),
    ("pathlib.PurePath", ⟨"string", .null⟩),
    ("pathlib._local.Path", ⟨"string", .null⟩),
    ("pathlib._local.PurePath", ⟨"string", .null⟩) ]

/-- The simple names of elements that turn an array into a binary string, in order. -/
def binaryElements : List String := ["Byte", "byte"]

end SimpleType

end Schemata
