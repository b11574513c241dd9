import Schemata.Hint

/-!
# Expressions over names

A hint that is written as a text is an expression: a name, an attribute of something, something
applied to arguments, alternatives, or any other expression, of which only its parts are known.
`NameExpr.read?` reads the texts that hints are usually written as. What it does not read, operators
other than the bar among it, it takes for no expression; a table of classes can have another reader.
-/

namespace Schemata

/-- An expression over names. -/
inductive NameExpr where
  /-- A name. -/
  | name (s : String)
  /-- An attribute of something. -/
  | part (owner : NameExpr) (s : String)
  /-- Something applied to arguments. -/
  | applied (f : NameExpr) (arguments : List NameExpr)
  /-- Two alternatives. -/
  | either (a b : NameExpr)
  /-- The absent value. -/
  | null
  /-- The mark for any number of further elements. -/
  | ellipsis
  /-- A name written as a text once more. -/
  | text (s : String)
  /-- Several expressions side by side. -/
  | several (items : List NameExpr)
  /-- Another expression: how it is written, and its parts. -/
  | other (source : String) (parts : List NameExpr)
  deriving Inhabited

namespace NameExpr

/-- Whether a character can stand in a name. -/
def isNameChar (c : Char) : Bool := c.isAlphanum || c == '_' || c.val ≥ 128

/-- Whether a character is a blank between words. -/
def isGap (c : Char) : Bool := c == ' ' || c == '\t'

/-- What follows blanks. -/
def skipBlanks (cs : List Char) : List Char := cs.dropWhile isGap

/-- The words that cannot be names. -/
def keywords : List String :=
  ["and", "as", "assert", "async", "await", "break", "class", "continue", "def", "del", "elif",
    "else", "except", "finally", "for", "from", "global", "if", "import", "in", "is", "lambda",
    "nonlocal", "not", "or", "pass", "raise", "return", "try", "while", "with", "yield"]

/-- The expression that a word is, if it is one. -/
def ofWord? (cs : List Char) : Option NameExpr :=
  match String.ofList cs with
  | "None" => some null
  | "True" => some (other "True" [])
  | "False" => some (other "False" [])
  | s => if keywords.contains s then none else some (name s)

/-- A number without a sign: digits, and perhaps a point with further digits. -/
def ofNumber? (cs : List Char) : Option NameExpr :=
  let fraction := (cs.dropWhile Char.isDigit).drop 1
  if (cs.dropWhile Char.isDigit).head?.all (· == '.') && fraction.all Char.isDigit then
    some (other (String.ofList cs) [])
  else none

/-- What stands before the rest of some characters. -/
def upTo (cs rest : List Char) : String := String.ofList (cs.take (cs.length - rest.length))

/-- A text in quotes, after its opening quote. -/
def readQuoted (quote : Char) (cs : List Char) : Option (NameExpr × List Char) :=
  match cs.dropWhile (· ≠ quote) with
  | [] => none
  | _ :: rest => some (text (String.ofList (cs.takeWhile (· ≠ quote))), rest)

/-- An argument without the name that it may be given by. -/
def withoutName (cs : List Char) : List Char :=
  let word := skipBlanks cs
  match skipBlanks (word.dropWhile isNameChar) with
  | '=' :: rest => if word.head?.any isNameChar && rest.head? != some '=' then rest else cs
  | _ => cs

mutual

/-- Reads alternatives. -/
def readAlternatives : Nat → List Char → Option (NameExpr × List Char)
  | 0, _ => none
  | n + 1, cs => do
    let (e, rest) ← readAtom n cs
    let (e, rest) ← readParts n cs e rest
    readFurther n e rest

/-- Reads further alternatives to an expression. -/
def readFurther : Nat → NameExpr → List Char → Option (NameExpr × List Char)
  | 0, _, _ => none
  | n + 1, e, cs =>
    match skipBlanks cs with
    | '|' :: rest => do
      let (f, after) ← readAtom n rest
      let (f, after) ← readParts n rest f after
      readFurther n (either e f) after
    | rest => some (e, rest)

/-- Reads what an expression begins with. -/
def readAtom : Nat → List Char → Option (NameExpr × List Char)
  | 0, _ => none
  | n + 1, cs =>
    match skipBlanks cs with
    | '.' :: '.' :: '.' :: rest => some (ellipsis, rest)
    | '"' :: rest => readQuoted '"' rest
    | '\'' :: rest => readQuoted '\'' rest
    | '(' :: rest => do
      let (items, rest) ← readItems n ')' false rest
      match items with
      | [e] => some (e, rest)
      | items => some (several items, rest)
    | '[' :: inside => do
      let (items, rest) ← readItems n ']' false inside
      some (other (upTo ('[' :: inside) rest) items, rest)
    | c :: rest =>
      if c.isDigit then
        let number := (c :: rest).takeWhile fun c ↦ isNameChar c || c == '.'
        (ofNumber? number).map fun e ↦ (e, (c :: rest).drop number.length)
      else if isNameChar c then
        (ofWord? (c :: rest.takeWhile isNameChar)).map fun e ↦ (e, rest.dropWhile isNameChar)
      else none
    | [] => none

/-- Reads attributes and arguments that follow an expression, which begins with some characters. -/
def readParts : Nat → List Char → NameExpr → List Char → Option (NameExpr × List Char)
  | 0, _, _, _ => none
  | n + 1, start, e, cs =>
    match skipBlanks cs with
    | '.' :: rest =>
      let word := (skipBlanks rest).takeWhile isNameChar
      match ofWord? word with
      | some (name s) =>
        if word.isEmpty then none
        else readParts n start (part e s) ((skipBlanks rest).dropWhile isNameChar)
      | _ => none
    | '[' :: rest => do
      let (items, rest) ← readItems n ']' false rest
      if items.isEmpty then none else readParts n start (applied e items) rest
    | '(' :: rest => do
      let (items, rest) ← readItems n ')' true rest
      readParts n start (other (upTo start rest) (e :: items)) rest
    | cs => some (e, cs)

/-- Reads expressions with commas between them up to a closing bracket; they may be given by name. -/
def readItems : Nat → Char → Bool → List Char → Option (List NameExpr × List Char)
  | 0, _, _, _ => none
  | n + 1, close, byName, cs =>
    match skipBlanks cs with
    | [] => none
    | c :: rest =>
      if c == close then some ([], rest)
      else do
        let item := if byName then withoutName (c :: rest) else c :: rest
        let (e, rest) ← readAlternatives n item
        match skipBlanks rest with
        | ',' :: rest =>
          let (items, rest) ← readItems n close byName rest
          some (e :: items, rest)
        | d :: rest => if d == close then some ([e], rest) else none
        | [] => none

end

/-- The expression that a text spells, if it spells one that hints are usually written as. -/
def read? (s : String) : Option NameExpr :=
  match readAlternatives (4 * s.length + 4) s.toList with
  | some (e, rest) =>
    if s.toList.head?.any isGap || !(skipBlanks rest).isEmpty then none else some e
  | none => none

end NameExpr

end Schemata
