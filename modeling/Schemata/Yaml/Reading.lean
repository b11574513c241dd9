import Schemata.Text.Casing
import Schemata.Text.Quoted
import Schemata.Yaml.Node

/-!
# Values from YAML

What the nodes of a document stand for. An unquoted scalar stands for what its spelling says, unless
a tag says otherwise; the entries of a mapping are set one after the other; a mapping under the
merge key lends its entries to the mapping it stands in, whose own entries come on top.
-/

namespace Schemata.Yaml

/-- Why a text has no value. -/
inductive ReadFault where
  /-- It is no document, or a document without a value. -/
  | malformed
  /-- It holds a value that does not exist. -/
  | impossible (reason : String)
  deriving DecidableEq, Inhabited

/-! ## Scalars -/

/-- Why a text is no number in a base. -/
def notInBase (base : Nat) (digits : List Char) : String :=
  "invalid literal for int() with base " ++ toString base ++ ": " ++
    Text.quoted (String.ofList digits)

/-- A number with its digits in a base; at least one digit is needed. -/
def baseValue (base : Nat) (digits : List Char) : Except String Nat :=
  match Text.basedValue? base digits with
  | some n => if digits.isEmpty then .error (notInBase base digits) else .ok n
  | none => .error (notInBase base digits)

/-- A number in sixtieths. -/
def sixtiethsValue (pieces : List (List Char)) : Except String Nat :=
  pieces.foldlM (fun n p ↦ (baseValue 10 p).map (n * 60 + ·)) 0

/-- The integer that a spelling denotes. -/
def intValue (cs : List Char) : Except String Int :=
  let (negative, digits) := spanSign (cs.filter (· ≠ '_'))
  let n : Except String Nat := match digits with
    | ['0'] => .ok 0
    | '0' :: 'b' :: rest => baseValue 2 rest
    | '0' :: 'x' :: rest => baseValue 16 rest
    | '0' :: rest => baseValue 8 ('0' :: rest)
    | digits => sixtiethsValue (Plain.splitColons digits)
  n.map fun n ↦ if negative then -(n : Int) else n

/-- The floating-point number that a spelling denotes. -/
def floatValue (cs : List Char) : Except String Binary64 :=
  let (negative, digits) := spanSign ((cs.filter (· ≠ '_')).map Char.toLower)
  match digits with
  | ['.', 'i', 'n', 'f'] => .ok (Binary64.infinity negative)
  | ['.', 'n', 'a', 'n'] => .ok Binary64.nan
  | digits =>
    if digits.contains ':' then
      let whole := digits.takeWhile (· ≠ '.')
      let places := (digits.dropWhile (· ≠ '.')).drop 1
      (sixtiethsValue (Plain.splitColons whole)).map fun n ↦
        Binary64.ofDecimal negative (n * tenTo places.length + digitsValue places)
          (-(places.length : Int))
    else
      match Binary64.ofText? (String.ofList (if negative then '-' :: digits else digits)) with
      | some x => .ok x
      | none =>
        .error ("could not convert string to float: " ++ Text.quoted (String.ofList digits))

/-- The numbers in a text, by the characters between them. -/
def numbersIn (cs : List Char) : List (List Char) :=
  (cs.foldr (fun c acc ↦
    if c.isDigit then
      match acc with
      | run :: rest => (c :: run) :: rest
      | [] => [[c]]
    else [] :: acc) [[]]).filter (!·.isEmpty)

/-- The parts of a second as millionths. -/
def microValue (digits : List Char) : Nat :=
  digitsValue ((digits ++ List.replicate 6 '0').take 6)

/-- The distance from universal time that a spelling ends with. -/
def offsetValue (tail : List Char) : Option Int :=
  match tail.dropWhile (fun c ↦ c ≠ 'Z' && c ≠ '+' && c ≠ '-') with
  | 'Z' :: _ => some 0
  | s :: zone =>
    match numbersIn zone with
    | [h, m] => some (signed s (digitsValue h * 60 + digitsValue m))
    | [h] => some (signed s (digitsValue h * 60))
    | _ => none
  | [] => none
where
  /-- A distance with its sign. -/
  signed (s : Char) (minutes : Nat) : Int := if s = '-' then -(minutes : Int) else minutes

/-- The date that a spelling denotes, with a time if there is one. -/
def momentValue (cs : List Char) : Except String Value :=
  match (numbersIn cs).map digitsValue with
  | year :: month :: day :: hour :: minute :: second :: _ =>
    let afterTime := ((cs.dropWhile (· ≠ ':')).drop 4).dropWhile Char.isDigit
    let micro := match afterTime with
      | '.' :: rest => microValue (rest.takeWhile Char.isDigit)
      | _ => 0
    let offset := offsetValue afterTime
    match offset.bind Calendar.offsetFault? with
    | some fault => .error fault
    | none =>
      Calendar.ofDateTime ⟨year, month, day⟩ { hour, minute, second, micro, offset }
  | year :: month :: day :: _ => Calendar.ofDate ⟨year, month, day⟩
  | _ => .error ""

/-- What a text stands for by its spelling. -/
def spelledValue (s : String) : Except ReadFault Value :=
  match Plain.meaning s with
  | .null => .ok .null
  | .bool b => .ok (.bool b)
  | .int => ((intValue s.toList).map .int).mapError .impossible
  | .float => ((floatValue s.toList).map .float).mapError .impossible
  | .timestamp => (momentValue s.toList).mapError .impossible
  | .merge | .default | .indicator => .error .malformed
  | .text => .ok (.str s)

/-- The beginning of the names of the usual tags. -/
def usualTags : String := "tag:yaml.org,2002:"

/-- The truth value of a word, whatever its case. -/
def truthValue (s : String) : Except ReadFault Value :=
  let word := Text.lower s
  if ["yes", "true", "on"].contains word then .ok (.bool true)
  else if ["no", "false", "off"].contains word then .ok (.bool false)
  else .error (.impossible (Text.quoted word))

/-- What a scalar stands for. A tag for numbers takes any text that a number can be read from, and a
tag that the text cannot meet asks for a value that does not exist. -/
def scalarValue (tag : NodeTag) (s : String) (plain : Bool) : Except ReadFault Value :=
  match tag with
  | .none => if plain then spelledValue s else .ok (.str s)
  | .open => spelledValue s
  | .named name =>
    if name == usualTags ++ "str" then .ok (.str s)
    else if name == usualTags ++ "null" then .ok .null
    else if name == usualTags ++ "int" then ((intValue s.toList).map .int).mapError .impossible
    else if name == usualTags ++ "float" then
      ((floatValue s.toList).map .float).mapError .impossible
    else if name == usualTags ++ "bool" then truthValue s
    else if name == usualTags ++ "timestamp" then
      match Plain.meaning s with
      | .timestamp => (momentValue s.toList).mapError .impossible
      | _ => .error (.impossible "")
    else .error .malformed

/-! ## Collections -/

/-- Whether a tag fits a collection. -/
def fits (tag : NodeTag) (kind : String) : Bool :=
  match tag with
  | .named name => name == usualTags ++ kind
  | _ => true

/-- Whether a node is the merge key. -/
def isMerge : Node → Bool
  | .scalar .none s plain => plain && s == "<<"
  | _ => false

/-- Whether a node is the key of a default value, which is a text. -/
def isDefault : Node → Bool
  | .scalar .none s plain => plain && s == "="
  | _ => false

mutual

/-- The value of a node. -/
def nodeValue : Node → Except ReadFault Value
  | .scalar tag s plain => scalarValue tag s plain
  | .sequence tag items =>
    if fits tag "seq" then return .list (← nodeValues items) else .error .malformed
  | .mapping tag entries =>
    if fits tag "map" then do
      let (lent, own) ← entryValues entries
      return .map (Value.putAll [] (lent ++ own))
    else .error .malformed

/-- The values of several nodes. -/
def nodeValues : List Node → Except ReadFault (List Value)
  | [] => return []
  | n :: ns => return (← nodeValue n) :: (← nodeValues ns)

/-- The entries of a mapping: those that merged mappings lend, and its own. -/
def entryValues : List (Node × Node) →
    Except ReadFault (List (Value × Value) × List (Value × Value))
  | [] => return ([], [])
  | (k, v) :: rest =>
    if isMerge k then do
      let merged ← lentEntries v
      let (lent, own) ← entryValues rest
      return (merged ++ lent, own)
    else do
      let key ← if isDefault k then pure (.str "=") else nodeValue k
      if !key.keyable then throw .malformed
      let value ← nodeValue v
      let (lent, own) ← entryValues rest
      return (lent, (key, value) :: own)

/-- The entries that a node under the merge key lends. -/
def lentEntries : Node → Except ReadFault (List (Value × Value))
  | .mapping _ entries => do
    let (lent, own) ← entryValues entries
    return lent ++ own
  | .sequence _ items => return (← lentLists items).reverse.flatten
  | .scalar _ _ _ => .error .malformed

/-- The entries that several mappings lend. -/
def lentLists : List Node → Except ReadFault (List (List (Value × Value)))
  | [] => return []
  | .mapping _ entries :: ns => do
    let (lent, own) ← entryValues entries
    return (lent ++ own) :: (← lentLists ns)
  | _ :: _ => .error .malformed

end

/-- The value of a text; an empty text stands for the absent value. -/
def read (text : String) : Except ReadFault Value :=
  match Node.ofText? text with
  | none => .error .malformed
  | some none => .ok .null
  | some (some node) => nodeValue node

end Schemata.Yaml
