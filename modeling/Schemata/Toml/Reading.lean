import Schemata.Calendar
import Schemata.Decimal.Reading
import Schemata.Text.Digits
import Schemata.Toml.Tables

/-!
# Reading TOML

The statements of a document, one a line. A key is a bare word or a quoted text, and several with
points between them name a path; a value is a text in one of four quotings, a truth value, a date or
a time, a number, a list in brackets or a table in braces. Every reader takes the characters that
are left and gives what it read with what is left after it.

Loops are bounded by the number of characters that are left.
-/

namespace Schemata.Toml

open Text (basedValue? digitIn? hexChar?)

/-! ## Characters -/

/-- A blank inside a line. -/
def isGap (c : Char) : Bool := c = ' ' || c = '\t'

/-- A blank or a line end. -/
def isSpace (c : Char) : Bool := isGap c || c = '\n'

/-- A control character, the tab excepted. -/
def isControl (c : Char) : Bool := (c.toNat < 32 && c != '\t') || c.toNat == 127

/-- Whether a character can stand in a bare key. -/
def isBareChar (c : Char) : Bool := c.isAlphanum || c = '-' || c = '_'

/-- What is left after blanks inside a line. -/
def skipGaps (cs : List Char) : List Char := cs.dropWhile isGap

/-- What is left after a comment, if one stands here. -/
def skipComment : List Char → Option (List Char)
  | '#' :: rest =>
    if (rest.takeWhile (· ≠ '\n')).any isControl then none else some (rest.dropWhile (· ≠ '\n'))
  | cs => some cs

/-- What is left after blanks, line ends and comments. -/
def skipSpace : Nat → List Char → Option (List Char)
  | 0, cs => some cs
  | n + 1, cs =>
    match cs.dropWhile isSpace with
    | '#' :: rest => do skipSpace n (← skipComment ('#' :: rest))
    | cs => some cs

/-! ## Texts -/

/-- What a short escape stands for. -/
def shortEscape? : Char → Option Char
  | 'b' => some (Char.ofNat 8)
  | 't' => some '\t'
  | 'n' => some '\n'
  | 'f' => some (Char.ofNat 12)
  | 'r' => some '\r'
  | '"' => some '"'
  | '\\' => some '\\'
  | _ => none

/-- A numeric escape of a width. -/
def numericEscape (width : Nat) (cs : List Char) : Option (List Char × List Char) :=
  let digits := cs.take width
  if digits.length < width then none
  else (hexChar? digits).map fun c ↦ ([c], cs.drop width)

/-- An escape after its backslash; in texts of several lines a line end can be escaped. -/
def escape (multiline : Bool) : List Char → Option (List Char × List Char)
  | [] => none
  | c :: rest =>
    if multiline && (isGap c || c = '\n') then
      match (c :: rest).dropWhile isGap with
      | [] => some ([], [])
      | '\n' :: rest => some ([], rest.dropWhile isSpace)
      | _ => none
    else if c = 'u' then numericEscape 4 rest
    else if c = 'U' then numericEscape 8 rest
    else (shortEscape? c).map fun r ↦ ([r], rest)

/-- A text in double quotes after the opening ones. -/
def basicText (multiline : Bool) : Nat → List Char → List Char → Option (List Char × List Char)
  | 0, _, _ => none
  | n + 1, found, cs =>
    match cs with
    | [] => none
    | '"' :: rest =>
      if !multiline then some (found, rest)
      else
        match rest with
        | '"' :: '"' :: rest => some (found, rest)
        | rest => basicText multiline n (found ++ ['"']) rest
    | '\\' :: rest => do
      let (run, rest) ← escape multiline rest
      basicText multiline n (found ++ run) rest
    | c :: rest =>
      if isControl c && !(multiline && c = '\n') then none
      else basicText multiline n (found ++ [c]) rest

/-- A text in single quotes after the opening one. -/
def literalText (cs : List Char) : Option (List Char × List Char) :=
  let text := cs.takeWhile (· ≠ '\'')
  match cs.dropWhile (· ≠ '\'') with
  | _ :: rest => if text.any isControl then none else some (text, rest)
  | [] => none

/-- A text in three single quotes after the opening ones. -/
def literalLines : Nat → List Char → List Char → Option (List Char × List Char)
  | 0, _, _ => none
  | n + 1, found, cs =>
    match cs with
    | [] => none
    | '\'' :: '\'' :: '\'' :: rest => some (found, rest)
    | c :: rest =>
      if isControl c && c != '\n' then none else literalLines n (found ++ [c]) rest

/-- A text of several lines with up to two quotes that directly follow its end. -/
def withQuotes (quote : Char) : List Char × List Char → List Char × List Char
  | (text, rest) =>
    match rest with
    | a :: b :: more =>
      if a = quote then
        if b = quote then (text ++ [quote, quote], more) else (text ++ [quote], b :: more)
      else (text, rest)
    | [a] => if a = quote then (text ++ [quote], []) else (text, rest)
    | [] => (text, rest)

/-- What is left after a line end, if one stands here. -/
def skipLineEnd : List Char → List Char
  | '\n' :: rest => rest
  | cs => cs

/-- A text in any quoting. -/
def text? (cs : List Char) : Option (List Char × List Char) :=
  match cs with
  | '"' :: '"' :: '"' :: rest =>
    (basicText true (rest.length + 1) [] (skipLineEnd rest)).map (withQuotes '"')
  | '"' :: rest => basicText false (rest.length + 1) [] rest
  | '\'' :: '\'' :: '\'' :: rest =>
    (literalLines (rest.length + 1) [] (skipLineEnd rest)).map (withQuotes '\'')
  | '\'' :: rest => literalText rest
  | _ => none

/-! ## Keys -/

/-- A part of a key. -/
def keyPart (cs : List Char) : Option (String × List Char) :=
  match cs with
  | '\'' :: rest => (literalText rest).map fun (t, rest) ↦ (String.ofList t, rest)
  | '"' :: rest =>
    (basicText false (rest.length + 1) [] rest).map fun (t, rest) ↦ (String.ofList t, rest)
  | cs =>
    let word := cs.takeWhile isBareChar
    if word.isEmpty then none else some (String.ofList word, cs.drop word.length)

/-- A key: its parts, and what is left after blanks. -/
def key : Nat → List Char → Option (List String × List Char)
  | 0, _ => none
  | n + 1, cs => do
    let (part, rest) ← keyPart cs
    match skipGaps rest with
    | '.' :: rest =>
      let (parts, rest) ← key n (skipGaps rest)
      return (part :: parts, rest)
    | rest => return ([part], rest)

/-! ## Numbers, dates and times -/

/-- Digits of a class with single underscores between them. -/
def digitRun (p : Char → Bool) : List Char → List Char × List Char
  | c :: '_' :: d :: rest =>
    if p c then
      if p d then
        let (run, rest) := digitRun p (d :: rest)
        (c :: run, rest)
      else ([c], '_' :: d :: rest)
    else ([], c :: '_' :: d :: rest)
  | c :: rest =>
    if p c then
      let (run, rest) := digitRun p rest
      (c :: run, rest)
    else ([], c :: rest)
  | [] => ([], [])

/-- Digits in a base, of which there must be one. -/
def based (base : Nat) (cs : List Char) : Option (Value × List Char) :=
  let (run, rest) := digitRun (fun c ↦ (digitIn? base c).isSome) cs
  if run.isEmpty then none else (basedValue? base run).map fun n ↦ (.int n, rest)

/-- The digits before the point of a number. -/
def wholeDigits : List Char → Option (List Char × List Char)
  | '0' :: rest => some (['0'], rest)
  | cs =>
    let (run, rest) := digitRun Char.isDigit cs
    if run.isEmpty then none else some (run, rest)

/-- The digits after the point of a number, if there are any. -/
def placeDigits : List Char → List Char × List Char
  | '.' :: rest =>
    let (run, after) := digitRun Char.isDigit rest
    if run.isEmpty then ([], '.' :: rest) else (run, after)
  | cs => ([], cs)

/-- The exponent of a number, if there is one. -/
def exponent (cs : List Char) : Option Int × List Char :=
  match cs with
  | e :: rest =>
    if e = 'e' || e = 'E' then
      let (negative, digits) := spanSign rest
      let (run, after) := digitRun Char.isDigit digits
      if run.isEmpty then (none, cs)
      else (some (if negative then -(digitsValue run : Int) else digitsValue run), after)
    else (none, cs)
  | [] => (none, [])

/-- A decimal number. -/
def decimal (cs : List Char) : Option (Value × List Char) := do
  let (negative, digits) := spanSign cs
  let (whole, rest) ← wholeDigits digits
  let (places, rest) := placeDigits rest
  let (e, rest) := exponent rest
  if places.isEmpty && e.isNone then
    return (.int (if negative then -(digitsValue whole : Int) else digitsValue whole), rest)
  else
    return (.float (Binary64.ofDecimal negative (digitsValue (whole ++ places))
      (e.getD 0 - places.length)), rest)

/-- A word for a number that is none or not finite. -/
def specialNumber (cs : List Char) : Option (Value × List Char) :=
  let (negative, rest) := spanSign cs
  match rest with
  | 'i' :: 'n' :: 'f' :: rest => some (.float (.infinity negative), rest)
  | 'n' :: 'a' :: 'n' :: rest => some (.float .nan, rest)
  | _ => none

/-- A number. -/
def number (cs : List Char) : Option (Value × List Char) :=
  let prefixed := match cs with
    | '0' :: 'x' :: rest => based 16 rest
    | '0' :: 'b' :: rest => based 2 rest
    | '0' :: 'o' :: rest => based 8 rest
    | _ => none
  (prefixed.or (decimal cs)).or (specialNumber cs)

/-- A number of exactly some digits within bounds. -/
def fixedNumber (width low high : Nat) (cs : List Char) : Option (Nat × List Char) :=
  let digits := cs.take width
  let n := digitsValue digits
  if digits.length == width && digits.all Char.isDigit && low ≤ n && n ≤ high then
    some (n, cs.drop width)
  else none

/-- What is left after a given character. -/
def after (c : Char) : List Char → Option (List Char)
  | d :: rest => if c = d then some rest else none
  | [] => none

/-- A time of day. -/
def clockTime (cs : List Char) : Option (ClockTime × List Char) := do
  let (hour, rest) ← fixedNumber 2 0 23 cs
  let (minute, rest) ← fixedNumber 2 0 59 (← after ':' rest)
  let (second, rest) ← fixedNumber 2 0 59 (← after ':' rest)
  let (micro, rest) := match rest with
    | '.' :: places =>
      let digits := places.takeWhile Char.isDigit
      if digits.isEmpty then (0, rest)
      else (digitsValue ((digits ++ List.replicate 6 '0').take 6), places.drop digits.length)
    | rest => (0, rest)
  return ({ hour, minute, second, micro }, rest)

/-- A distance from universal time. -/
def zone (cs : List Char) : Option Int × List Char :=
  let signed (negative : Bool) (rest : List Char) : Option (Int × List Char) := do
    let (hour, rest) ← fixedNumber 2 0 23 rest
    let (minute, rest) ← fixedNumber 2 0 59 (← after ':' rest)
    let minutes : Int := hour * 60 + minute
    return (if negative then -minutes else minutes, rest)
  let found := match cs with
    | 'Z' :: rest => some ((0 : Int), rest)
    | 'z' :: rest => some (0, rest)
    | '+' :: rest => signed false rest
    | '-' :: rest => signed true rest
    | _ => none
  match found with
  | some (minutes, rest) => (some minutes, rest)
  | none => (none, cs)

/-- A date, by itself or with a time: one that does not exist is an error of its own. -/
def moment (cs : List Char) : Option (Option (Value × List Char)) := do
  let (year, rest) ← fixedNumber 4 0 9999 cs
  let (month, rest) ← fixedNumber 2 1 12 (← after '-' rest)
  let (day, rest) ← fixedNumber 2 1 31 (← after '-' rest)
  let date : Date := ⟨year, month, day⟩
  let time := match rest with
    | c :: rest => if c = 'T' || c = 't' || c = ' ' then clockTime rest else none
    | [] => none
  match time with
  | some (time, rest) =>
    let (offset, rest) := zone rest
    return (Calendar.ofDateTime date { time with offset }).toOption.map fun v ↦ (v, rest)
  | none => return (Calendar.ofDate date).toOption.map fun v ↦ (v, rest)

/-- A value that is neither a text nor a collection. -/
def scalar (cs : List Char) : Option (Value × List Char) :=
  match cs with
  | 't' :: 'r' :: 'u' :: 'e' :: rest => some (.bool true, rest)
  | 'f' :: 'a' :: 'l' :: 's' :: 'e' :: rest => some (.bool false, rest)
  | cs =>
    match moment cs with
    | some found => found
    | none =>
      match clockTime cs with
      | some (time, rest) => (Calendar.ofTime time).toOption.map fun v ↦ (v, rest)
      | none => number cs

/-! ## Collections -/

mutual

/-- A value. -/
def value : Nat → List Char → Option (Value × List Char)
  | 0, _ => none
  | n + 1, cs =>
    match cs with
    | '[' :: rest => do
      let (items, rest) ← items n (← skipSpace rest.length rest)
      return (.list items, rest)
    | '\x7b' :: rest => do
      let (entries, rest) ← match skipGaps rest with
        | '\x7d' :: rest => some ([], rest)
        | rest => entries n rest
      return (← inlineTable entries, rest)
    | '"' :: _ => (text? cs).map fun (t, rest) ↦ (.str (String.ofList t), rest)
    | '\'' :: _ => (text? cs).map fun (t, rest) ↦ (.str (String.ofList t), rest)
    | cs => scalar cs

/-- The items of a list up to its closing bracket. -/
def items : Nat → List Char → Option (List Value × List Char)
  | 0, _ => none
  | n + 1, cs =>
    match cs with
    | ']' :: rest => some ([], rest)
    | cs => do
      let (v, rest) ← value n cs
      match ← skipSpace rest.length rest with
      | ']' :: rest => return ([v], rest)
      | ',' :: rest => do
        let (vs, rest) ← items n (← skipSpace rest.length rest)
        return (v :: vs, rest)
      | _ => none

/-- The entries of a table in braces up to the closing one. -/
def entries : Nat → List Char → Option (List (List String × String × Value) × List Char)
  | 0, _ => none
  | n + 1, cs => do
    let (path, name, v, rest) ← pair n cs
    match skipGaps rest with
    | '\x7d' :: rest => return ([(path, name, v)], rest)
    | ',' :: rest => do
      let (more, rest) ← entries n (skipGaps rest)
      return ((path, name, v) :: more, rest)
    | _ => none

/-- A key with its value: the path, the last part, the value, and what is left. -/
def pair : Nat → List Char → Option (List String × String × Value × List Char)
  | 0, _ => none
  | n + 1, cs => do
    let (parts, rest) ← key (cs.length + 1) cs
    let (v, rest) ← value n (skipGaps (← after '=' rest))
    let name ← parts.getLast?
    return (parts.dropLast, name, v, rest)

end

/-! ## Statements -/

/-- A header after its opening brackets, with the brackets that close it. -/
def header (close : List Char) (make : List String → String → Statement) (cs : List Char) :
    Option (Statement × List Char) := do
  let (parts, rest) ← key (cs.length + 1) (skipGaps cs)
  let name ← parts.getLast?
  if close.isPrefixOf rest then return (make parts.dropLast name, rest.drop close.length) else none

/-- A statement. -/
def statement (cs : List Char) : Option (Statement × List Char) :=
  match cs with
  | '[' :: '[' :: rest => header [']', ']'] .append rest
  | '[' :: rest => header [']'] .table rest
  | cs => do
    let (path, name, v, rest) ← pair (2 * cs.length + 2) cs
    return (.entry path name v, rest)

/-- The statements of a document. -/
def statements : Nat → List Char → Option (List Statement)
  | 0, _ => none
  | n + 1, cs =>
    match skipGaps cs with
    | [] => some []
    | '\n' :: rest => statements n rest
    | '#' :: rest => do
      match ← skipComment ('#' :: rest) with
      | _ :: rest => statements n rest
      | [] => return []
    | cs => do
      let (s, rest) ← statement cs
      match ← skipComment (skipGaps rest) with
      | '\n' :: rest => return s :: (← statements n rest)
      | [] => return [s]
      | _ => none

/-- A text with a line feed at the end of every line. -/
def plainLineEnds : List Char → List Char
  | '\r' :: '\n' :: rest => '\n' :: plainLineEnds rest
  | c :: rest => c :: plainLineEnds rest
  | [] => []

/-- The value of a document, if it is one. -/
def read? (text : String) : Option Value := do
  let cs := plainLineEnds text.toList
  ofStatements (← statements (cs.length + 2) cs)

end Schemata.Toml
