import Schemata.Decimal.Reading
import Schemata.Text.Digits
import Schemata.Value

/-!
# Reading JSON

The reader that belongs to the printer: `Json.read?` takes exactly the texts of the format's
grammar. A text is one value with blanks around it; a value is a word, a number, a string in quotes,
a list in brackets, or an object in braces whose keys are strings. Escapes name characters by
sixteen-bit units, two of them where one is not enough. An object keeps its entries in the order of
the text.

Every reader takes the characters that are left and gives what it read with what is left after it.
The nesting of values is bounded by the number of characters.
-/

namespace Schemata.Json

/-! ## Strings -/

/-- A blank between the parts of a text. -/
def isBlank (c : Char) : Bool := c = ' ' || c = '\n' || c = '\r' || c = '\t'

/-- What follows blanks. -/
def skipBlanks (cs : List Char) : List Char := cs.dropWhile isBlank

/-- What a short escape stands for. -/
def shortEscape? : Char → Option Char
  | '"' => some '"'
  | '\\' => some '\\'
  | '/' => some '/'
  | 'b' => some '\x08'
  | 'f' => some '\x0c'
  | 'n' => some '\n'
  | 'r' => some '\r'
  | 't' => some '\t'
  | _ => none

/-- Whether a unit is the first of two. -/
def isLeading (unit : Nat) : Bool := 0xd800 ≤ unit && unit < 0xdc00

/-- Whether a unit is the second of two. -/
def isTrailing (unit : Nat) : Bool := 0xdc00 ≤ unit && unit < 0xe000

/-- The character that two units name. -/
def pairChar? (leading trailing : Nat) : Option Char :=
  if isLeading leading && isTrailing trailing then
    Text.charOf? (0x10000 + (leading - 0xd800) * 0x400 + (trailing - 0xdc00))
  else none

/-- A string after its opening quote. -/
def readString : List Char → Option (List Char × List Char)
  | [] => none
  | '"' :: rest => some ([], rest)
  | '\\' :: 'u' :: a :: b :: c :: d :: rest =>
    match Text.hexValue? [a, b, c, d] with
    | none => none
    | some unit =>
      match Text.charOf? unit with
      | some ch => (readString rest).map fun (cs, rest) ↦ (ch :: cs, rest)
      | none =>
        match rest with
        | '\\' :: 'u' :: e :: f :: g :: h :: rest =>
          match (Text.hexValue? [e, f, g, h]).bind (pairChar? unit) with
          | some ch => (readString rest).map fun (cs, rest) ↦ (ch :: cs, rest)
          | none => none
        | _ => none
  | '\\' :: c :: rest =>
    match shortEscape? c with
    | some ch => (readString rest).map fun (cs, rest) ↦ (ch :: cs, rest)
    | none => none
  | c :: rest =>
    if c.toNat < 32 || c = '\\' then none
    else (readString rest).map fun (cs, rest) ↦ (c :: cs, rest)

/-! ## Numbers -/

/-- The digits before the point: a zero by itself, or digits that begin with another one. -/
def readWhole : List Char → Option (List Char × List Char)
  | '0' :: rest => some (['0'], rest)
  | cs =>
    let (digits, rest) := spanDigits cs
    if digits.isEmpty then none else some (digits, rest)

/-- The digits after a point; none where no point follows. -/
def readPlaces : List Char → Option (List Char × List Char)
  | '.' :: rest =>
    let (digits, rest) := spanDigits rest
    if digits.isEmpty then none else some (digits, rest)
  | cs => some ([], cs)

/-- An exponent, if one follows. -/
def readExponent (cs : List Char) : Option (Option Int × List Char) :=
  match cs with
  | e :: rest =>
    if e = 'e' || e = 'E' then
      let (negative, rest) := spanSign rest
      let (digits, rest) := spanDigits rest
      if digits.isEmpty then none
      else
        let n : Int := digitsValue digits
        some (some (if negative then -n else n), rest)
    else some (none, cs)
  | [] => some (none, [])

/-- A number: an integer, or a floating-point number if it has a point or an exponent. -/
def readNumber (cs : List Char) : Option (Value × List Char) := do
  let negative := cs.head? == some '-'
  let (whole, rest) ← readWhole (if negative then cs.drop 1 else cs)
  let (places, rest) ← readPlaces rest
  let (exponent, rest) ← readExponent rest
  let n : Int := digitsValue whole
  if places.isEmpty && exponent.isNone then return (.int (if negative then -n else n), rest)
  else
    let digits := digitsValue (whole ++ places)
    return (.float (Binary64.ofDecimal negative digits (exponent.getD 0 - places.length)), rest)

/-! ## Values -/

mutual

/-- A value. -/
def readValue : Nat → List Char → Option (Value × List Char)
  | 0, _ => none
  | n + 1, cs =>
    match skipBlanks cs with
    | 'n' :: 'u' :: 'l' :: 'l' :: rest => some (.null, rest)
    | 't' :: 'r' :: 'u' :: 'e' :: rest => some (.bool true, rest)
    | 'f' :: 'a' :: 'l' :: 's' :: 'e' :: rest => some (.bool false, rest)
    | '"' :: rest => (readString rest).map fun (s, rest) ↦ (.str (String.ofList s), rest)
    | '[' :: rest =>
      match skipBlanks rest with
      | ']' :: rest => some (.list [], rest)
      | rest => (readItems n rest).map fun (items, rest) ↦ (.list items, rest)
    | '\x7b' :: rest =>
      match skipBlanks rest with
      | '\x7d' :: rest => some (.map [], rest)
      | rest => (readEntries n rest).map fun (entries, rest) ↦ (.map entries, rest)
    | cs => readNumber cs

/-- The items of a list after its opening bracket; there is at least one. -/
def readItems : Nat → List Char → Option (List Value × List Char)
  | 0, _ => none
  | n + 1, cs => do
    let (item, rest) ← readValue n cs
    match skipBlanks rest with
    | ']' :: rest => return ([item], rest)
    | ',' :: rest =>
      let (items, rest) ← readItems n rest
      return (item :: items, rest)
    | _ => none

/-- The entries of an object after its opening brace; there is at least one. -/
def readEntries : Nat → List Char → Option (List (Value × Value) × List Char)
  | 0, _ => none
  | n + 1, cs =>
    match skipBlanks cs with
    | '"' :: rest => do
      let (key, rest) ← readString rest
      match skipBlanks rest with
      | ':' :: rest =>
        let (value, rest) ← readValue n rest
        let entry := (Value.str (String.ofList key), value)
        match skipBlanks rest with
        | '\x7d' :: rest => return ([entry], rest)
        | ',' :: rest =>
          let (entries, rest) ← readEntries n rest
          return (entry :: entries, rest)
        | _ => none
      | _ => none
    | _ => none

end

/-- The value of a text. -/
def read? (text : String) : Option Value :=
  let cs := text.toList
  match readValue (2 * cs.length + 1) cs with
  | some (v, rest) => if (skipBlanks rest).isEmpty then some v else none
  | none => none

end Schemata.Json
