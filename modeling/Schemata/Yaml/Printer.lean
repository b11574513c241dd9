import Schemata.Error
import Schemata.Yaml.Character
import Schemata.Yaml.Plain

/-!
# Writing YAML

A value is written in block style: mappings one entry a line, sequences one item a line and not
indented inside a mapping, empty collections in brackets. A text is left plain where its spelling
allows it, else put in single quotes, else in double quotes with everything outside printable ASCII
escaped; texts of more than one word are folded at eighty columns. A structured value that was
declared once and occurs again is written the first time under an anchor and referred to after that.

Writing moves a `Pen`, which knows the column, whether the last thing written was blank, and whether
only indentation has been written on the line; these decide where spaces and line breaks go.
-/

namespace Schemata.Yaml

/-! ## What a text allows -/

/-- Which ways of writing a text there are. -/
structure Analysis where
  /-- Whether the text has more than one line. -/
  multiline : Bool
  /-- Whether the text may stand without quotes. -/
  plain : Bool
  /-- Whether the text may stand in single quotes. -/
  singleQuoted : Bool

/-- Whether a character, in its place, would be read as an indicator. -/
def isIndicator (first afterSeparator : Bool) (c : Char) (rest : List Char) : Bool :=
  if first then
    "#,[]{}&*!|>'\"%@\x60".toList.contains c ||
      (c = '?' || c = ':' || c = '-') && followedBySeparator rest
  else c = ':' && followedBySeparator rest || c = '#' && afterSeparator

/-- Whether any character would be read as an indicator. -/
def hasIndicator : Bool → Bool → List Char → Bool
  | _, _, [] => false
  | first, afterSeparator, c :: rest =>
    isIndicator first afterSeparator c rest || hasIndicator false (isSeparator c) rest

/-- Whether one of two kinds of character directly follows the other. -/
def hasPair (p q : Char → Bool) : List Char → Bool
  | a :: b :: rest => p a && q b || hasPair p q (b :: rest)
  | _ => false

/-- Which ways of writing a text there are. -/
def analyze (cs : List Char) : Analysis :=
  let blank (c : Char) : Bool := c = ' ' || isBreak c
  let special := cs.any fun c ↦ !(c = '\n' || (' ' ≤ c && c ≤ '~'))
  let breaks := cs.any isBreak
  let edge := cs.head?.any blank || cs.getLast?.any blank
  let marker := ["---".toList, "...".toList].any (·.isPrefixOf cs)
  let breakSpace := hasPair isBreak (· = ' ') cs
  let spaceBreak := hasPair (· = ' ') isBreak cs
  { multiline := breaks
    plain := !(edge || breakSpace || spaceBreak || special || breaks || marker ||
      hasIndicator true true cs)
    singleQuoted := !(breakSpace || spaceBreak || special) }

/-! ## The pen -/

/-- What has been written and where the pen stands. -/
structure Pen where
  /-- The text so far. -/
  text : String := ""
  /-- The column of the next character. -/
  column : Nat := 0
  /-- Whether the last thing written was blank. -/
  afterBlank : Bool := true
  /-- Whether only indentation and indicators stand on the line. -/
  indenting : Bool := true
  /-- Whether the document needs an end marker. -/
  openEnded : Bool := false

namespace Pen

/-- The column after which texts are folded. -/
def width : Nat := 80

/-- Writes characters as they are. -/
def put (p : Pen) (cs : List Char) : Pen :=
  { p with text := p.text ++ String.ofList cs, column := p.column + cs.length }

/-- Ends the line. -/
def lineBreak (p : Pen) (c : Char := '\n') : Pen :=
  { p with text := p.text.push c, column := 0, afterBlank := true, indenting := true }

/-- Goes to a new line, unless only indentation stands on this one, and indents it. -/
def indentTo (p : Pen) (indent : Nat) : Pen :=
  let p := if !p.indenting || indent < p.column || (p.column == indent && !p.afterBlank) then
      p.lineBreak
    else p
  if p.column < indent then
    { p.put (List.replicate (indent - p.column) ' ') with afterBlank := true }
  else p

/-- Writes an indicator, after a space where it needs one. -/
def indicator (p : Pen) (s : String) (needsSpace : Bool) (blankAfter : Bool := false)
    (keepsIndent : Bool := false) : Pen :=
  let cs := if p.afterBlank || !needsSpace then s.toList else ' ' :: s.toList
  { p.put cs with
    afterBlank := blankAfter, indenting := p.indenting && keepsIndent, openEnded := false }

/-- Goes to a folded line of the text that is being written. -/
def foldTo (p : Pen) (indent : Nat) : Pen :=
  { p.indentTo indent with afterBlank := false, indenting := false }

end Pen

/-! ## Scalars -/

/-- The characters of a class at the front, and the rest. -/
def spanOf (p : Char → Bool) (cs : List Char) : List Char × List Char :=
  (cs.takeWhile p, cs.dropWhile p)

/-- Writes a plain text word by word: a single space beyond the width becomes a line break. -/
def writeWords (indent : Nat) (split : Bool) : Nat → List Char → Pen → Pen
  | 0, _, p => p
  | fuel + 1, cs, p =>
    match cs with
    | [] => p
    | ' ' :: _ =>
      let (spaces, rest) := spanOf (· = ' ') cs
      let p := if spaces.length = 1 && Pen.width < p.column && split then p.foldTo indent
        else p.put spaces
      writeWords indent split fuel rest p
    | _ =>
      let (word, rest) := spanOf (· ≠ ' ') cs
      writeWords indent split fuel rest (p.put word)

/-- Writes a text without quotes. -/
def writePlain (indent : Nat) (split root : Bool) (cs : List Char) (p : Pen) : Pen :=
  let p := { p with openEnded := p.openEnded || root }
  if cs.isEmpty then p
  else
    let p := if p.afterBlank then p else p.put [' ']
    writeWords indent split (cs.length + 1) cs { p with afterBlank := false, indenting := false }

/-- Writes the line breaks inside single quotes: one more than there are. -/
def writeBreaks (indent : Nat) (breaks : List Char) (p : Pen) : Pen :=
  let p := if breaks.head? = some '\n' then p.lineBreak else p
  (breaks.foldl (fun p c ↦ p.lineBreak c) p).indentTo indent

/-- Writes the inside of single quotes. -/
def writeQuotedWords (indent : Nat) (split : Bool) : Nat → Bool → List Char → Pen → Pen
  | 0, _, _, p => p
  | fuel + 1, first, cs, p =>
    match cs with
    | [] => p
    | '\'' :: rest => writeQuotedWords indent split fuel false rest (p.put ['\'', '\''])
    | c :: _ =>
      if c = ' ' then
        let (spaces, rest) := spanOf (· = ' ') cs
        let fold := spaces.length = 1 && Pen.width < p.column && split && !first && !rest.isEmpty
        writeQuotedWords indent split fuel false rest
          (if fold then p.indentTo indent else p.put spaces)
      else if isBreak c then
        let (breaks, rest) := spanOf isBreak cs
        writeQuotedWords indent split fuel false rest (writeBreaks indent breaks p)
      else
        let (word, rest) := spanOf (fun c ↦ c ≠ ' ' && c ≠ '\'' && !isBreak c) cs
        writeQuotedWords indent split fuel false rest (p.put word)

/-- Writes a text in single quotes. -/
def writeSingleQuoted (indent : Nat) (split : Bool) (cs : List Char) (p : Pen) : Pen :=
  (writeQuotedWords indent split (cs.length + 1) true cs (p.indicator "'" true)).indicator "'" false

/-- The short escapes of double-quoted text, by code point. -/
def shortEscapes : List (Nat × Char) :=
  [ (0, '0'), (7, 'a'), (8, 'b'), (9, 't'), (10, 'n'), (11, 'v'), (12, 'f'), (13, 'r'),
    (0x1b, 'e'), (0x22, '"'), (0x5c, '\\'), (0x85, 'N'), (0xa0, '_'), (0x2028, 'L'),
    (0x2029, 'P') ]

/-- A number in upper-case hexadecimal digits, padded with zeros to a width. -/
def hexUpper (width n : Nat) : List Char := (Text.hexPadded width n).map Char.toUpper

/-- A character as an escape. -/
def escape (c : Char) : List Char :=
  match shortEscapes.find? (·.1 == c.toNat) with
  | some (_, e) => ['\\', e]
  | none =>
    if c.toNat ≤ 0xff then '\\' :: 'x' :: hexUpper 2 c.toNat
    else if c.toNat ≤ 0xffff then '\\' :: 'u' :: hexUpper 4 c.toNat
    else '\\' :: 'U' :: hexUpper 8 c.toNat

/-- Whether a character stands for itself in double quotes. -/
def isLiteral (c : Char) : Bool := ' ' ≤ c && c ≤ '~' && c ≠ '"' && c ≠ '\\'

/-- Writes the inside of double quotes. The run of literal characters read last is still to be
written, the latest first, so that a line can be broken in front of a space. A line can be broken
after an escape as well, which may stand one column beyond the width. -/
def writeEscaped (indent : Nat) (split : Bool) : Bool → List Char → List Char → Pen → Pen
  | _, run, [], p => p.put run.reverse
  | first, run, c :: rest, p =>
    let (run, p) :=
      if isLiteral c then (run, p) else ([], (p.put run.reverse).put (escape c))
    let limit := if isLiteral c then Pen.width else Pen.width + 1
    let breakable := !first && !rest.isEmpty && (c = ' ' || run.isEmpty) &&
      limit < p.column + run.length && split
    if breakable then
      let p := ((p.put run.reverse).put ['\\']).foldTo indent
      let next := if isLiteral c then c :: rest else rest
      let p := if next.head? = some ' ' then p.put ['\\'] else p
      writeEscaped indent split false (if isLiteral c then [c] else []) rest p
    else writeEscaped indent split false (if isLiteral c then c :: run else run) rest p

/-- Writes a text in double quotes. -/
def writeDoubleQuoted (indent : Nat) (split : Bool) (cs : List Char) (p : Pen) : Pen :=
  (writeEscaped indent split true [] cs (p.indicator "\"" true)).indicator "\"" false

/-- A scalar: its spelling, and whether a plain spelling is read back as what it is. -/
structure Scalar where
  /-- The characters. -/
  chars : List Char
  /-- Whether the plain spelling means the value. -/
  meansItself : Bool
  /-- The length of the name of its type. -/
  typeLength : Nat

/-- Where a node stands. -/
structure Place where
  /-- The indentation of the enclosing collection; none at the root. -/
  indent : Option Nat := none
  /-- Whether the node is part of a mapping. -/
  inMapping : Bool := false
  /-- Whether the node is a key before a colon. -/
  simpleKey : Bool := false

/-- Writes a scalar in the first style that it allows. -/
def writeScalar (place : Place) (s : Scalar) (p : Pen) : Pen :=
  let indent := match place.indent with
    | none => 2
    | some n => n + 2
  let a := analyze s.chars
  let lines := !(place.simpleKey && a.multiline)
  let split := !place.simpleKey
  if s.meansItself && lines && a.plain then
    writePlain indent split place.indent.isNone s.chars p
  else if a.singleQuoted && lines then writeSingleQuoted indent split s.chars p
  else writeDoubleQuoted indent split s.chars p

/-- Numbers are written by the fewest digits that read back, with a point before an exponent. -/
def numberLayout : FloatLayout :=
  { pointBeforeExponent := true, infinity := ".inf", nan := ".nan" }

/-- The scalar that a value without parts is written as. -/
def scalarOf? : Value → Option Scalar
  | .null => some ⟨"null".toList, true, 6⟩
  | .bool b => some ⟨(if b then "true" else "false").toList, true, 6⟩
  | .int n => some ⟨(toString n).toList, true, 5⟩
  | .float x => some ⟨(x.render numberLayout).toList, true, 7⟩
  | .str s => some ⟨s.toList, Plain.meaning s = .text, 5⟩
  | _ => none

/-! ## Anchors -/

/-- The declarations met so far, and those met again, in that order. -/
structure Repeats where
  /-- The declarations met. -/
  met : List Nat := []
  /-- The declarations met more than once. -/
  again : List Nat := []

mutual

/-- Collects the repeated declarations of a value. -/
def repeatsOf : Value → Repeats → Repeats
  | .declared n v, r =>
    if r.again.contains n then r
    else if r.met.contains n then { r with again := r.again ++ [n] }
    else repeatsOf v { r with met := n :: r.met }
  | .list items, r => repeatsOfItems items r
  | .map entries, r => repeatsOfEntries entries r
  | _, r => r

/-- Collects the repeated declarations of the items of a list. -/
def repeatsOfItems : List Value → Repeats → Repeats
  | [], r => r
  | v :: rest, r => repeatsOfItems rest (repeatsOf v r)

/-- Collects the repeated declarations of the entries of a mapping. -/
def repeatsOfEntries : List (Value × Value) → Repeats → Repeats
  | [], r => r
  | (k, v) :: rest, r => repeatsOfEntries rest (repeatsOf v (repeatsOf k r))

end

/-- The name of the anchor of a repeated declaration. -/
def anchorName (again : List Nat) (n : Nat) : Option String :=
  (again.idxOf? n).map fun i ↦
    let digits := Nat.toDigits 10 (i + 1)
    "id" ++ String.ofList (List.replicate (3 - digits.length) '0' ++ digits)

/-! ## Nodes -/

/-- A pen together with the declarations that have been written. -/
structure Progress where
  /-- The pen. -/
  pen : Pen := {}
  /-- The repeated declarations already written. -/
  written : List Nat := []

/-- Moves the pen. -/
def Progress.move (s : Progress) (f : Pen → Pen) : Progress := { s with pen := f s.pen }

/-- Whether a key fits before a colon on one line. -/
def isSimpleKey (k : Value) : Bool :=
  match scalarOf? k with
  | some s => !s.chars.isEmpty && !(analyze s.chars).multiline &&
      s.chars.length + s.typeLength < 128
  | none => match k with
    | .list [] => true
    | .map [] => true
    | _ => false

mutual

/-- Writes a node. -/
def writeNode (again : List Nat) (place : Place) : Value → Progress → Except Error Progress
  | .declared n v, s =>
    match anchorName again n with
    | none => writeNode again place v s
    | some name =>
      if s.written.contains n then .ok (s.move (·.indicator ("*" ++ name) true))
      else
        writeNode again place v
          { pen := s.pen.indicator ("&" ++ name) true, written := n :: s.written }
  | .list [], s => .ok (s.move fun p ↦ (p.indicator "[" true true).indicator "]" false)
  | .map [], s => .ok (s.move fun p ↦ (p.indicator "\x7b" true true).indicator "\x7d" false)
  | .list (v :: vs), s =>
    let indent := match place.indent with
      | none => 0
      | some n => if place.inMapping && !s.pen.indenting then n else n + 2
    writeItems again indent (v :: vs) s
  | .map (e :: es), s => writeEntries again ((place.indent.map (· + 2)).getD 0) (e :: es) s
  | .object _, _ => .error .wrongType
  | .null, s => .ok (s.move (writeScalar place ⟨"null".toList, true, 6⟩))
  | .bool b, s => .ok (s.move (writeScalar place ((scalarOf? (.bool b)).getD ⟨[], true, 0⟩)))
  | .int n, s => .ok (s.move (writeScalar place ((scalarOf? (.int n)).getD ⟨[], true, 0⟩)))
  | .float x, s => .ok (s.move (writeScalar place ((scalarOf? (.float x)).getD ⟨[], true, 0⟩)))
  | .str t, s => .ok (s.move (writeScalar place ((scalarOf? (.str t)).getD ⟨[], true, 0⟩)))

/-- Writes the items of a sequence, each after a dash. -/
def writeItems (again : List Nat) (indent : Nat) : List Value → Progress → Except Error Progress
  | [], s => .ok s
  | v :: rest, s => do
    let s := s.move fun p ↦ (p.indentTo indent).indicator "-" true false true
    let s ← writeNode again { indent := some indent } v s
    writeItems again indent rest s

/-- Writes the entries of a mapping: a simple key before a colon, any other after a question
mark. -/
def writeEntries (again : List Nat) (indent : Nat) :
    List (Value × Value) → Progress → Except Error Progress
  | [], s => .ok s
  | (k, v) :: rest, s => do
    let s := s.move (·.indentTo indent)
    let place : Place := { indent := some indent, inMapping := true }
    let s ← if isSimpleKey k then do
        let s ← writeNode again { place with simpleKey := true } k s
        pure (s.move (·.indicator ":" false))
      else do
        let s ← writeNode again place k (s.move (·.indicator "?" true false true))
        pure (s.move fun p ↦ (p.indentTo indent).indicator ":" true false true)
    let s ← writeNode again place v s
    writeEntries again indent rest s

end

/-- A value as a YAML document. -/
def print (v : Value) : Except Error String := do
  let s ← writeNode (repeatsOf v {}).again {} v {}
  let p := s.pen.indentTo 0
  let p := if p.openEnded then (p.indicator "..." true).indentTo 0 else p
  return p.text

end Schemata.Yaml
