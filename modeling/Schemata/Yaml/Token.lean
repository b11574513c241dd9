import Schemata.Decimal.Reading
import Schemata.Yaml.Cursor

/-!
# YAML tokens

`Token.ofText?` cuts a text into tokens. Block structure is made explicit here: where a line is
indented deeper than the collection it stands in, a collection starts, and where it is indented
less, collections end. That a scalar is a key is known only when the colon after it is met, so the
places where a key may have started are remembered as candidates, one for each level of brackets,
and the key's token is put in front of the scalar afterwards.
-/

namespace Schemata.Yaml

/-- A directive before a document. -/
inductive Directive where
  /-- The version of the format. -/
  | version
  /-- What a handle in tags stands for. -/
  | handle (name beginning : List Char)
  /-- One that nothing is known about. -/
  | other
  deriving DecidableEq, Inhabited

/-- A token. -/
inductive Token where
  | directive (d : Directive)
  | documentStart
  | documentEnd
  | blockSequence
  | blockMapping
  | blockEnd
  | openSequence
  | closeSequence
  | openMapping
  | closeMapping
  /-- The dash of a block sequence. -/
  | entry
  /-- The comma of a flow collection. -/
  | comma
  | key
  | value
  | alias (name : List Char)
  | anchor (name : List Char)
  /-- A tag: its handle, if it is not written out, and the rest. -/
  | tag (handle : Option (List Char)) (suffix : List Char)
  | scalar (text : List Char) (plain : Bool)
  deriving DecidableEq, Inhabited

/-- A place where a key may have started. -/
structure Candidate where
  /-- The level of brackets. -/
  level : Nat
  /-- The number of tokens before it. -/
  position : Nat
  /-- Whether it cannot be anything but a key. -/
  required : Bool
  /-- Its line. -/
  line : Nat
  /-- Its column. -/
  column : Nat
  /-- The number of characters left from it on. -/
  left : Nat
  deriving Inhabited

/-- How far a text has been cut into tokens. -/
structure Scan where
  /-- Where reading goes on. -/
  cursor : Cursor
  /-- The indentation of the innermost block collection. -/
  indent : Int := -1
  /-- The indentations of the enclosing ones, innermost first. -/
  outer : List Int := []
  /-- The level of brackets. -/
  level : Nat := 0
  /-- Whether a key may start here. -/
  keyAllowed : Bool := true
  /-- Where keys may have started. -/
  candidates : List Candidate := []
  /-- The tokens so far. -/
  tokens : List Token := []
  deriving Inhabited

namespace Scan

/-- Adds a token. -/
def emit (s : Scan) (t : Token) : Scan := { s with tokens := s.tokens ++ [t] }

/-- Adds a token and moves on. -/
def emitAt (s : Scan) (t : Token) (c : Cursor) : Scan := { s.emit t with cursor := c }

/-- Puts a token between those that exist. -/
def insert (s : Scan) (position : Nat) (t : Token) : Scan :=
  { s with tokens := s.tokens.take position ++ t :: s.tokens.drop position }

/-- Ends the block collections that are indented deeper than a column. -/
def closeTo (column : Int) : Nat → Scan → Scan
  | 0, s => s
  | n + 1, s =>
    if s.indent > column then
      match s.outer with
      | i :: rest => closeTo column n { s.emit .blockEnd with indent := i, outer := rest }
      | [] => s
    else s

/-- Ends the block collections that are indented deeper than a column, outside brackets. -/
def unwind (column : Int) (s : Scan) : Scan :=
  if s.level > 0 then s else closeTo column (s.outer.length + 1) s

/-- Starts a block collection where the column is deeper than the innermost one. -/
def open? (s : Scan) (column : Nat) : Option Scan :=
  if s.indent < column then
    some { s with outer := s.indent :: s.outer, indent := column }
  else none

/-- Gives up the candidate of the current level; a required one was no key, which is an error. -/
def dropCandidate (s : Scan) : Option Scan :=
  if s.candidates.any fun k ↦ k.level == s.level && k.required then none
  else some { s with candidates := s.candidates.filter (·.level != s.level) }

/-- Remembers that a key may start here. -/
def addCandidate (s : Scan) : Option Scan :=
  if !s.keyAllowed then some s
  else do
    let s ← s.dropCandidate
    let candidate : Candidate := {
      level := s.level
      position := s.tokens.length
      required := s.level == 0 && s.indent == s.cursor.column
      line := s.cursor.line
      column := s.cursor.column
      left := s.cursor.rest.length }
    return { s with candidates := candidate :: s.candidates }

/-- Gives up candidates that are on another line or too far away. -/
def dropStale (s : Scan) : Option Scan :=
  let stale (k : Candidate) : Bool :=
    k.line != s.cursor.line || k.left - s.cursor.rest.length > 1024
  if s.candidates.any fun k ↦ stale k && k.required then none
  else some { s with candidates := s.candidates.filter (!stale ·) }

/-- Skips blanks, comments and line ends. -/
def skipBlanks : Nat → Scan → Scan
  | 0, s => s
  | n + 1, s =>
    let c := (s.cursor.span (· = ' ')).2.skipComment
    if c.sees isBreak then
      skipBlanks n { s with cursor := c.lineBreak.2, keyAllowed := s.keyAllowed || s.level == 0 }
    else { s with cursor := c }

/-! ## Single tokens -/

/-- A mark of a document. -/
def documentMark (s : Scan) (t : Token) : Option Scan := do
  let s ← (s.unwind (-1)).dropCandidate
  return { s.emitAt t (s.cursor.advance 3) with keyAllowed := false }

/-- Whether a character can stand in a name. -/
def isNameChar (c : Char) : Bool := c.isAlphanum || c == '-' || c == '_'

/-- Whether a character can stand in a tag. -/
def isTagChar (c : Char) : Bool := c.isAlphanum || "-;/?:@&=+$,_.!~*'()[]%".toList.contains c

/-- Whether a word ends here. -/
def atWordEnd (c : Cursor) : Bool := c.atLineEnd || c.sees (· = ' ')

/-- The handle that a directive explains: an exclamation mark, or a name between two of them. -/
def handleName (c : Cursor) : Option (List Char × Cursor) :=
  if !c.sees (· = '!') then none
  else
    let (name, after) := c.next.span isNameChar
    if after.sees (· = '!') then some ('!' :: name ++ ['!'], after.next)
    else if name.isEmpty && after.sees (· = ' ') then some (['!'], after)
    else none

/-- What a directive of some name says, and the cursor behind it. -/
def directiveValue (name : List Char) (c : Cursor) : Option (Directive × Cursor) :=
  let (_, start) := c.span (· = ' ')
  match String.ofList name with
  | "YAML" =>
    let (major, c) := start.span Char.isDigit
    let (minor, rest) := c.next.span Char.isDigit
    if digitsValue major == 1 && c.sees (· = '.') && !minor.isEmpty && atWordEnd rest then
      some (.version, rest)
    else none
  | "TAG" => do
    let (handle, c) ← handleName start
    let (blanks, c) := c.span (· = ' ')
    let (beginning, c) := c.span isTagChar
    if !blanks.isEmpty && !beginning.isEmpty && atWordEnd c then
      return (.handle handle beginning, c)
    else none
  | _ => some (.other, (c.span (!isBreak ·)).2)

/-- A directive; after it a line may hold a comment only. -/
def directive (s : Scan) : Option Scan := do
  let s ← (s.unwind (-1)).dropCandidate
  let (name, c) := s.cursor.next.span isNameChar
  if name.isEmpty || !atWordEnd c then none
  else
    let (d, c) ← directiveValue name c
    let c := (c.span (· = ' ')).2.skipComment
    if c.atLineEnd then return { s.emitAt (.directive d) c with keyAllowed := false } else none

/-- An opening bracket. -/
def openBracket (s : Scan) (t : Token) : Option Scan := do
  let s ← s.addCandidate
  return { s.emitAt t s.cursor.next with level := s.level + 1, keyAllowed := true }

/-- A closing bracket. -/
def closeBracket (s : Scan) (t : Token) : Option Scan :=
  if s.level == 0 then none
  else do
    let s ← s.dropCandidate
    return { s.emitAt t s.cursor.next with level := s.level - 1, keyAllowed := false }

/-- A comma. -/
def comma (s : Scan) : Option Scan := do
  let s ← s.dropCandidate
  return { s.emitAt .comma s.cursor.next with keyAllowed := true }

/-- Starts a block collection at the cursor if it is deeper than the innermost one. -/
def openBlock (s : Scan) (t : Token) : Scan :=
  match s.open? s.cursor.column with
  | some s => s.emit t
  | none => s

/-- The dash of a block sequence. -/
def entry (s : Scan) : Option Scan :=
  if s.level == 0 && !s.keyAllowed then none
  else do
    let s ← (if s.level == 0 then s.openBlock .blockSequence else s).dropCandidate
    return { s.emitAt .entry s.cursor.next with keyAllowed := true }

/-- The question mark before a key. -/
def explicitKey (s : Scan) : Option Scan :=
  if s.level == 0 && !s.keyAllowed then none
  else do
    let s ← (if s.level == 0 then s.openBlock .blockMapping else s).dropCandidate
    return { s.emitAt .key s.cursor.next with keyAllowed := s.level == 0 }

/-- The colon before a value. -/
def colon (s : Scan) : Option Scan :=
  match s.candidates.find? (·.level == s.level) with
  | some k =>
    let others := s.candidates.filter (·.level != s.level)
    let s := { s with candidates := others }.insert k.position .key
    let s :=
      if s.level == 0 then
        match s.open? k.column with
        | some s => s.insert k.position .blockMapping
        | none => s
      else s
    some { s.emitAt .value s.cursor.next with keyAllowed := false }
  | none =>
    if s.level == 0 && !s.keyAllowed then none
    else do
      let s := if s.level == 0 then s.openBlock .blockMapping else s
      let s ← { s with keyAllowed := s.level == 0 }.dropCandidate
      return s.emitAt .value s.cursor.next

/-- The name after the mark of an alias or an anchor. -/
def markedName (s : Scan) (make : List Char → Token) : Option Scan := do
  let s ← s.addCandidate
  let (name, c) := s.cursor.next.span isNameChar
  if name.isEmpty || !(c.atSeparator || c.sees ("?:,]\x7d%@\x60".toList.contains ·)) then none
  else return { s.emitAt (make name) c with keyAllowed := false }

/-- A tag. -/
def tag (s : Scan) : Option Scan := do
  let s ← s.addCandidate
  let c := s.cursor.next
  let finish (handle : Option (List Char)) (suffix : List Char) (c : Cursor) : Option Scan :=
    if suffix.isEmpty || !c.atSeparator then none
    else some { s.emitAt (.tag handle suffix) c with keyAllowed := false }
  if c.sees (· = '<') then
    let (suffix, c) := c.next.span isTagChar
    if c.sees (· = '>') then finish none suffix c.next else none
  else if c.atSeparator then finish none ['!'] c
  else
    let word := c.rest.takeWhile (!isSeparator ·)
    if word.contains '!' then
      let handle := word.takeWhile (· ≠ '!')
      let (suffix, c) := (c.advance (handle.length + 1)).span isTagChar
      if handle.all isNameChar then finish (some ('!' :: handle ++ ['!'])) suffix c else none
    else
      let (suffix, c) := c.span isTagChar
      finish (some ['!']) suffix c

/-- A block scalar. -/
def block (s : Scan) (folded : Bool) : Option Scan := do
  let s ← { s with keyAllowed := true }.dropCandidate
  let (text, c) ← blockScalar folded s.indent s.cursor.next
  return s.emitAt (.scalar text false) c

/-- A quoted scalar. -/
def quoted (s : Scan) (double : Bool) : Option Scan := do
  let s ← s.addCandidate
  let c := s.cursor.next
  let (text, c) ← quotedScalar double (c.rest.length + 1) c []
  return { s.emitAt (.scalar text false) c with keyAllowed := false }

/-- A plain scalar. -/
def plain (s : Scan) : Option Scan := do
  let s ← s.addCandidate
  let (text, c, broken) :=
    plainScalar (s.indent + 1) (s.level > 0) (s.cursor.rest.length + 1) s.cursor [] [] false
  return { s.emitAt (.scalar text true) c with keyAllowed := broken }

/-- Whether a plain scalar can start with a character, given what follows it. -/
def startsPlain (inFlow : Bool) (ch : Char) (rest : List Char) : Bool :=
  !(isSeparator ch || "-?:,[]\x7b\x7d#&*!|>'\"%@\x60".toList.contains ch) ||
    !followedBySeparator rest && (ch = '-' || !inFlow && (ch = '?' || ch = ':'))

/-- The next token. -/
def step (s : Scan) (ch : Char) (rest : List Char) : Option Scan :=
  let spaced := followedBySeparator rest
  let inFlow := s.level > 0
  if s.cursor.column == 0 && ch = '%' then s.directive
  else if s.cursor.column == 0 && s.cursor.atMarker then
    s.documentMark (if ch = '-' then .documentStart else .documentEnd)
  else if ch = '[' then s.openBracket .openSequence
  else if ch = '\x7b' then s.openBracket .openMapping
  else if ch = ']' then s.closeBracket .closeSequence
  else if ch = '\x7d' then s.closeBracket .closeMapping
  else if ch = ',' then s.comma
  else if ch = '-' && spaced then s.entry
  else if ch = '?' && (inFlow || spaced) then s.explicitKey
  else if ch = ':' && (inFlow || spaced) then s.colon
  else if ch = '*' then s.markedName .alias
  else if ch = '&' then s.markedName .anchor
  else if ch = '!' then s.tag
  else if ch = '|' && !inFlow then s.block false
  else if ch = '>' && !inFlow then s.block true
  else if ch = '\'' then s.quoted false
  else if ch = '"' then s.quoted true
  else if startsPlain inFlow ch rest then s.plain
  else none

/-- All tokens. -/
def run : Nat → Scan → Option (List Token)
  | 0, _ => none
  | n + 1, s => do
    let s ← (skipBlanks (s.cursor.rest.length + 1) s).dropStale
    let s := s.unwind s.cursor.column
    match s.cursor.rest with
    | [] => return ((← (s.unwind (-1)).dropCandidate)).tokens
    | ch :: rest => run n (← s.step ch rest)

end Scan

/-- The tokens of a text, if it can be cut into tokens. -/
def Token.ofText? (text : String) : Option (List Token) :=
  let cs := text.toList
  if !cs.all isReadable then none
  else
    let start : Cursor := { rest := cs }
    let start := if start.sees (·.toNat = 0xfeff) then start.next else start
    Scan.run (cs.length + 1) { cursor := start }

end Schemata.Yaml
