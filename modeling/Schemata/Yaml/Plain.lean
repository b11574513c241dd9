import Schemata.Decimal.Reading
import Schemata.Value

/-!
# Plain scalars

What an unquoted YAML scalar stands for is decided by its spelling alone: truth values, null,
integers in several bases, floating-point numbers, dates and times, and two indicators of their
own; everything else is text. `Plain.meaning` is that decision. A printer has to quote a text whose
spelling means something else, and a reader resolves unquoted scalars by it.
-/

namespace Schemata.Yaml.Plain

/-! ## Spellings -/

/-- The part of a text after some characters of a class, at least `least` and at most `most`. -/
def skipSome (p : Char → Bool) (least most : Nat) (cs : List Char) : Option (List Char) :=
  let run := (cs.takeWhile p).length
  if run < least then none else some (cs.drop (min run most))

/-- The part of a text after one given character. -/
def skipChar (c : Char) : List Char → Option (List Char)
  | d :: rest => if c = d then some rest else none
  | [] => none

/-- Whether nothing of a text is left. -/
def atEnd (rest : Option (List Char)) : Bool :=
  match rest with
  | some [] => true
  | _ => false

/-- A decimal digit or an underscore. -/
def isSpacedDigit (c : Char) : Bool := c.isDigit || c = '_'

/-- A text without the sign it may start with. -/
def unsigned (cs : List Char) : List Char := (spanSign cs).2

/-- The pieces of a text between colons. -/
def splitColons : List Char → List (List Char)
  | [] => [[]]
  | c :: rest =>
    if c = ':' then [] :: splitColons rest
    else
      match splitColons rest with
      | piece :: pieces => (c :: piece) :: pieces
      | [] => [[c]]

/-- One or two digits below sixty. -/
def isSixtieth : List Char → Bool
  | [a] => a.isDigit
  | [a, b] => '0' ≤ a && a ≤ '5' && b.isDigit
  | _ => false

/-- An exponent with a sign, or nothing. -/
def isExponent : List Char → Bool
  | [] => true
  | [_] => false
  | e :: s :: digits =>
    (e = 'e' || e = 'E') && (s = '+' || s = '-') && !digits.isEmpty && digits.all Char.isDigit

/-- The spelling of an integer. -/
def isInt (cs : List Char) : Bool :=
  match unsigned cs with
  | ['0'] => true
  | '0' :: 'b' :: rest => !rest.isEmpty && rest.all fun c ↦ c = '0' || c = '1' || c = '_'
  | '0' :: 'x' :: rest =>
    !rest.isEmpty && rest.all fun c ↦
      isSpacedDigit c || ('a' ≤ c && c ≤ 'f') || ('A' ≤ c && c ≤ 'F')
  | '0' :: rest => rest.all fun c ↦ ('0' ≤ c && c ≤ '7') || c = '_'
  | cs =>
    match splitColons cs with
    | (d :: ds) :: sixtieths => d.isDigit && ds.all isSpacedDigit && sixtieths.all isSixtieth
    | _ => false

/-- The spelling of a number with a point. -/
def isPointed (cs : List Char) : Bool :=
  let whole := cs.takeWhile (· ≠ '.')
  match cs.dropWhile (· ≠ '.') with
  | '.' :: rest =>
    let tail := rest.dropWhile isSpacedDigit
    match splitColons whole with
    | [[]] =>
      match rest with
      | d :: _ => d.isDigit && isExponent tail
      | [] => false
    | [d :: ds] => d.isDigit && ds.all isSpacedDigit && isExponent tail
    | (d :: ds) :: sixtieths =>
      d.isDigit && ds.all isSpacedDigit && sixtieths.all isSixtieth && tail.isEmpty
    | _ => false
  | _ => false

/-- The spelling of a floating-point number. -/
def isFloat (cs : List Char) : Bool :=
  match cs with
  | '.' :: _ => [".nan", ".NaN", ".NAN", ".inf", ".Inf", ".INF"].contains (String.ofList cs) ||
      isPointed cs
  | _ =>
    match unsigned cs with
    | '.' :: rest => ["inf", "Inf", "INF"].contains (String.ofList rest)
    | cs => isPointed cs

/-- Whether a character separates a date from a time. -/
def isGap (c : Char) : Bool := c = ' ' || c = '\t'

/-- What follows the seconds of a time: a fraction, and a time zone. -/
def isTimeTail (cs : List Char) : Bool :=
  let cs := match cs with
    | '.' :: rest => rest.dropWhile Char.isDigit
    | cs => cs
  match cs.dropWhile isGap with
  | [] => cs.isEmpty
  | ['Z'] => true
  | s :: zone =>
    (s = '+' || s = '-') &&
      match skipSome Char.isDigit 1 2 zone with
      | some [] => true
      | some (':' :: minutes) => atEnd (skipSome Char.isDigit 2 2 minutes)
      | _ => false

/-- The spelling of a date, or of a date and a time. -/
def isTimestamp (cs : List Char) : Bool :=
  let short := do
    let rest ← skipSome Char.isDigit 4 4 cs
    let rest ← skipSome Char.isDigit 2 2 (← skipChar '-' rest)
    skipSome Char.isDigit 2 2 (← skipChar '-' rest)
  let long := do
    let rest ← skipSome Char.isDigit 4 4 cs
    let rest ← skipSome Char.isDigit 1 2 (← skipChar '-' rest)
    let rest ← skipSome Char.isDigit 1 2 (← skipChar '-' rest)
    let rest ← match rest with
      | 'T' :: rest => some rest
      | 't' :: rest => some rest
      | rest => skipSome isGap 1 rest.length rest
    let rest ← skipSome Char.isDigit 1 2 rest
    let rest ← skipSome Char.isDigit 2 2 (← skipChar ':' rest)
    skipSome Char.isDigit 2 2 (← skipChar ':' rest)
  atEnd short || (match long with
    | some tail => isTimeTail tail
    | none => false)

/-! ## Meanings -/

/-- What a plain scalar stands for. -/
inductive Meaning where
  | null
  | bool (b : Bool)
  | int
  | float
  | timestamp
  /-- The key that merges another mapping. -/
  | merge
  /-- The key of a default value. -/
  | default
  /-- A lone indicator. -/
  | indicator
  | text
  deriving DecidableEq, Inhabited

/-- The spellings of true. -/
def trueWords : List String :=
  ["yes", "Yes", "YES", "true", "True", "TRUE", "on", "On", "ON"]

/-- The spellings of false. -/
def falseWords : List String :=
  ["no", "No", "NO", "false", "False", "FALSE", "off", "Off", "OFF"]

/-- The spellings of null. -/
def nullWords : List String := ["", "~", "null", "Null", "NULL"]

/-- What a plain scalar stands for. -/
def meaning (s : String) : Meaning :=
  let cs := s.toList
  if nullWords.contains s then .null
  else if trueWords.contains s then .bool true
  else if falseWords.contains s then .bool false
  else if isFloat cs then .float
  else if isInt cs then .int
  else if s == "<<" then .merge
  else if isTimestamp cs then .timestamp
  else if s == "=" then .default
  else if s == "!" || s == "&" || s == "*" then .indicator
  else .text

end Schemata.Yaml.Plain
