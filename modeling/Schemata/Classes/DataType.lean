import Schemata.Decimal.Reading
import Schemata.Error
import Schemata.Hint
import Schemata.Text.Blank

/-!
# Mixed-in data types

An enum that mixes in a data type makes its constants values of that type: texts, integers or
floating-point numbers. Two constants that are written differently can then have one value, and a
value that the type cannot express makes no sense.
-/

namespace Schemata

/-- A data type that an enum mixes in: its constants are values of it. -/
inductive DataType where
  /-- The texts. -/
  | text
  /-- The texts, but nothing else is made a text. -/
  | textOnly
  /-- The integers. -/
  | integer
  /-- The floating-point numbers. -/
  | float
  deriving DecidableEq, Inhabited

/-- Digits without the underscores between them; nothing if an underscore stands elsewhere. The flag
says whether a digit came just before. -/
def ungrouped? : Bool → List Char → Option (List Char)
  | _, [] => some []
  | afterDigit, c :: rest =>
    if c = '_' then
      if afterDigit && rest.head?.any Char.isDigit then ungrouped? false rest else none
    else (ungrouped? c.isDigit rest).map (c :: ·)

/-- A text without blanks around it and underscores between its digits. -/
def numeral? (s : String) : Option (List Char) :=
  ungrouped? false (Text.stripList Text.isBlank s.toList)

/-- A value as an integer. -/
def integerOf : Value → Except Error Int
  | .int n => .ok n
  | .bool b => .ok (if b then 1 else 0)
  | .float x =>
    match x.truncate? with
    | some n => .ok n
    | none => .error (.invalidValue ("cannot convert float " ++
        (if x.isNaN then "NaN" else "infinity") ++ " to integer"))
  | .str s =>
    match (numeral? s).bind intOfChars? with
    | some n => .ok n
    | none =>
      .error (.invalidValue ("invalid literal for int() with base 10: " ++ Text.quoted s))
  | .declared _ v => integerOf v
  | _ => .error .wrongType

/-- A value as a floating-point number. -/
def floatOf : Value → Except Error Binary64
  | .float x => .ok x
  | .int n => .ok (.ofInt n)
  | .bool b => .ok (.ofInt (if b then 1 else 0))
  | .str s =>
    match (numeral? s).bind fun cs ↦ Binary64.ofText? (String.ofList cs) with
    | some x => .ok x
    | none => .error (.invalidValue ("could not convert string to float: " ++ Text.quoted s))
  | .declared _ v => floatOf v
  | _ => .error .wrongType

namespace DataType

/-- The data type that a class stands for. -/
def ofClass? (c : ClassName) : Option DataType :=
  if c = ⟨"enum", "StrEnum"⟩ then some textOnly
  else if c = ⟨"builtins", "str"⟩ then some text
  else if c = ⟨"builtins", "int"⟩ then some integer
  else if c = ⟨"builtins", "float"⟩ then some float
  else none

/-- The data type among the ancestors of an enum. -/
def mixedIn? (ancestors : List Hint) : Option DataType :=
  ancestors.findSome? fun
    | .named c => ofClass? c
    | _ => none

/-- The value of the data type that a value gives. -/
def convert (dataType : DataType) (v : Value) : Except Error Value :=
  match dataType with
  | text => .ok (.str v.text)
  | textOnly =>
    match v.plain with
    | .str s => .ok (.str s)
    | _ => .error .wrongType
  | integer => return .int (← integerOf v)
  | float => return .float (← floatOf v)

/-- The value of the data type that is made of nothing. -/
def empty : DataType → Value
  | text | textOnly => .str ""
  | integer => .int 0
  | float => .float (.ofInt 0)

/-- The value of the data type that is made of some arguments. The digits of an integer in another
base are beyond it. -/
def make (dataType : DataType) : List Datum → Except Error Value
  | [] => .ok dataType.empty
  | [.plain v] => dataType.convert v
  | [d] => if dataType = text then .ok (.str d.shown) else .error .wrongType
  | _ => .error .wrongType

end DataType

/-- The value of a constant: that of the mixed-in data type, made of the items of a sequence or of
the one value that is given. The constants of other enums stay as they are. -/
def constantValue (dataType : Option DataType) (d : Datum) : Except Error Datum :=
  match dataType, d with
  | some _, .constant .. => .ok d
  | some dataType, .tuple items => return .plain (← dataType.make items)
  | some dataType, d => return .plain (← dataType.make [d])
  | none, d => .ok d

end Schemata
