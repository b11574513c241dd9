import Schemata.Text.Digits
import Schemata.Yaml.Character

/-!
# Reading YAML characters

A `Cursor` is a place in a text: what follows it, its line and its column. The scalars of the format
are read from a cursor here, each together with the cursor behind it. In scalars of several lines a
single line break between words becomes a space and further ones are kept.

Loops are bounded by the number of characters that are left.
-/

namespace Schemata.Yaml

/-- A place in a text. -/
structure Cursor where
  /-- What follows. -/
  rest : List Char
  /-- The number of lines before. -/
  line : Nat := 0
  /-- The number of characters before, on the line. -/
  column : Nat := 0
  deriving Inhabited

namespace Cursor

/-- The cursor behind the next character. -/
def next (c : Cursor) : Cursor :=
  match c.rest with
  | [] => c
  | ch :: rest =>
    if isBreak ch then ⟨rest, c.line + 1, 0⟩
    else if ch.toNat = 0xfeff then ⟨rest, c.line, c.column⟩
    else ⟨rest, c.line, c.column + 1⟩

/-- The cursor behind several characters. -/
def advance (c : Cursor) : Nat → Cursor
  | 0 => c
  | n + 1 => c.next.advance n

/-- The next character. -/
def peek (c : Cursor) : Option Char := c.rest.head?

/-- Whether the next character belongs to a class. -/
def sees (c : Cursor) (p : Char → Bool) : Bool := c.peek.any p

/-- Whether nothing but a separator follows, or nothing at all. -/
def atSeparator (c : Cursor) : Bool := followedBySeparator c.rest

/-- Whether a line ends here. -/
def atLineEnd (c : Cursor) : Bool := c.rest.isEmpty || c.sees isBreak

/-- The characters of a class that follow, and the cursor behind them. -/
def span (c : Cursor) (p : Char → Bool) : List Char × Cursor :=
  let run := c.rest.takeWhile p
  (run, c.advance run.length)

/-- The line break that follows, as it is kept in a text, and the cursor behind it. -/
def lineBreak (c : Cursor) : List Char × Cursor :=
  match c.rest with
  | ch :: _ =>
    if ch.toNat = 0x2028 || ch.toNat = 0x2029 then ([ch], c.next)
    else if isBreak ch then (['\n'], c.next)
    else ([], c)
  | [] => ([], c)

/-- Whether the mark of a document's begin or end follows. -/
def atMarker (c : Cursor) : Bool :=
  ["---".toList, "...".toList].any fun m ↦
    m.isPrefixOf c.rest && followedBySeparator (c.rest.drop 3)

/-- The cursor behind a comment. -/
def skipComment (c : Cursor) : Cursor :=
  if c.sees (· = '#') then (c.span (!isBreak ·)).2 else c

end Cursor

/-- Line breaks between two words as they are kept: one by itself is a space. -/
def foldBreaks (first more : List Char) : List Char :=
  if first != ['\n'] then first ++ more else if more.isEmpty then [' '] else more

/-! ## Plain scalars -/

/-- The characters of a plain scalar up to the next separator or indicator. -/
def plainRun (inFlow : Bool) : List Char → List Char
  | [] => []
  | ch :: rest =>
    let endsKey := ch = ':' &&
      (followedBySeparator rest || inFlow && (rest.head?.any (",[]\x7b\x7d".toList.contains ·)))
    if isSeparator ch || endsKey || inFlow && ",?[]\x7b\x7d".toList.contains ch then []
    else ch :: plainRun inFlow rest

/-- The breaks and blanks after a line break in a plain scalar; none if a document mark follows. -/
def plainBreaks : Nat → Cursor → List Char → Option (List Char) × Cursor
  | 0, c, found => (some found, c)
  | n + 1, c, found =>
    if c.sees (· = ' ') then plainBreaks n c.next found
    else if c.sees isBreak then
      let (b, c) := c.lineBreak
      if c.atMarker then (none, c) else plainBreaks n c (found ++ b)
    else (some found, c)

/-- What stands between two runs of a plain scalar, and whether a line ended there. -/
def plainGap (c : Cursor) : List Char × Cursor × Bool :=
  let (blanks, c) := c.span (· = ' ')
  if c.sees isBreak then
    let (first, c) := c.lineBreak
    if c.atMarker then ([], c, true)
    else
      match plainBreaks c.rest.length c [] with
      | (none, c) => ([], c, true)
      | (some more, c) => (foldBreaks first more, c, true)
  else (blanks, c, false)

/-- A plain scalar that must be indented by at least `indent`: its text, the cursor behind it, and
whether a line ended last. -/
def plainScalar (indent : Int) (inFlow : Bool) :
    Nat → Cursor → (text gap : List Char) → Bool → List Char × Cursor × Bool
  | 0, c, text, _, broken => (text, c, broken)
  | n + 1, c, text, gap, broken =>
    let run := plainRun inFlow c.rest
    if c.sees (· = '#') || run.isEmpty then (text, c, broken)
    else
      let (nextGap, c, broken) := plainGap (c.advance run.length)
      let text := text ++ gap ++ run
      if nextGap.isEmpty || c.sees (· = '#') || !inFlow && (c.column : Int) < indent then
        (text, c, broken)
      else plainScalar indent inFlow n c text nextGap broken

/-! ## Quoted scalars -/

/-- The breaks after a line break inside quotes. -/
def quotedBreaks : Nat → Cursor → List Char → Option (List Char × Cursor)
  | 0, c, found => some (found, c)
  | n + 1, c, found =>
    if c.atMarker then none
    else
      let c := (c.span fun ch ↦ ch = ' ' || ch = '\t').2
      if c.sees isBreak then
        let (b, c) := c.lineBreak
        quotedBreaks n c (found ++ b)
      else some (found, c)

/-- What a short escape stands for. -/
def shortEscape? : Char → Option Nat
  | '0' => some 0
  | 'a' => some 7
  | 'b' => some 8
  | 't' => some 9
  | '\t' => some 9
  | 'n' => some 10
  | 'v' => some 11
  | 'f' => some 12
  | 'r' => some 13
  | 'e' => some 27
  | ' ' => some 32
  | '"' => some 34
  | '\\' => some 92
  | '/' => some 47
  | 'N' => some 0x85
  | '_' => some 0xa0
  | 'L' => some 0x2028
  | 'P' => some 0x2029
  | _ => none

/-- The width of a numeric escape. -/
def escapeWidth? : Char → Option Nat
  | 'x' => some 2
  | 'u' => some 4
  | 'U' => some 8
  | _ => none

/-- An escape after its backslash. -/
def escape? (c : Cursor) : Option (List Char × Cursor) :=
  match c.rest with
  | [] => none
  | ch :: rest =>
    if isBreak ch then quotedBreaks rest.length c.next []
    else
      match shortEscape? ch, escapeWidth? ch with
      | some n, _ => (Text.charOf? n).map fun r ↦ ([r], c.next)
      | none, some width =>
        let digits := rest.take width
        if digits.length < width then none
        else (Text.hexChar? digits).map fun r ↦ ([r], c.next.advance width)
      | none, none => none

/-- A quoted scalar after its opening quote. -/
def quotedScalar (double : Bool) : Nat → Cursor → List Char → Option (List Char × Cursor)
  | 0, _, _ => none
  | n + 1, c, text =>
    match c.rest with
    | [] => none
    | ch :: rest =>
      if !double && ch = '\'' then
        if rest.head? == some '\'' then quotedScalar double n (c.advance 2) (text ++ ['\''])
        else some (text, c.next)
      else if double && ch = '"' then some (text, c.next)
      else if double && ch = '\\' then
        match escape? c.next with
        | some (run, c) => quotedScalar double n c (text ++ run)
        | none => none
      else if ch = ' ' || ch = '\t' || isBreak ch then
        let (blanks, c) := c.span fun ch ↦ ch = ' ' || ch = '\t'
        if c.sees isBreak then
          let (first, c) := c.lineBreak
          match quotedBreaks c.rest.length c [] with
          | some (more, c) => quotedScalar double n c (text ++ foldBreaks first more)
          | none => none
        else quotedScalar double n c (text ++ blanks)
      else quotedScalar double n c.next (text ++ [ch])

/-! ## Block scalars -/

/-- What happens to the breaks at the end of a block scalar. -/
inductive Chomping where
  | strip | clip | keep
  deriving DecidableEq, Inhabited

/-- The header of a block scalar: chomping and indentation in either order. -/
def blockHeader (c : Cursor) : Option (Chomping × Option Nat × Cursor) := do
  let chomping (c : Cursor) : Option (Chomping × Cursor) :=
    if c.sees (· = '+') then some (.keep, c.next)
    else if c.sees (· = '-') then some (.strip, c.next)
    else none
  let increment (c : Cursor) : Option (Nat × Cursor) :=
    match c.peek with
    | some d => if d.isDigit then some (d.toNat - '0'.toNat, c.next) else none
    | none => none
  let (mode, width, c) :=
    match chomping c with
    | some (mode, c) =>
      match increment c with
      | some (width, c) => (mode, some width, c)
      | none => (mode, none, c)
    | none =>
      match increment c with
      | some (width, c) =>
        match chomping c with
        | some (mode, c) => (mode, some width, c)
        | none => (.clip, some width, c)
      | none => (.clip, none, c)
  if width == some 0 || !c.atSeparator then none
  else
    let c := (c.span (· = ' ')).2.skipComment
    if c.atLineEnd then some (mode, width, c.lineBreak.2) else none

/-- The empty lines before a block scalar's first line, and the widest indentation among them. -/
def blockLead : Nat → Cursor → List Char → Nat → List Char × Nat × Cursor
  | 0, c, breaks, widest => (breaks, widest, c)
  | n + 1, c, breaks, widest =>
    if c.sees (· = ' ') then blockLead n c.next breaks (max widest c.next.column)
    else if c.sees isBreak then
      let (b, c) := c.lineBreak
      blockLead n c (breaks ++ b) widest
    else (breaks, widest, c)

/-- Skips indentation, at most to a column. -/
def skipIndent (indent : Nat) : Nat → Cursor → Cursor
  | 0, c => c
  | n + 1, c => if c.column < indent && c.sees (· = ' ') then skipIndent indent n c.next else c

/-- The empty lines between two lines of a block scalar. -/
def blockBreaks (indent : Nat) : Nat → Cursor → List Char → List Char × Cursor
  | 0, c, breaks => (breaks, c)
  | n + 1, c, breaks =>
    let c := skipIndent indent c.rest.length c
    if c.sees isBreak then
      let (b, c) := c.lineBreak
      blockBreaks indent n c (breaks ++ b)
    else (breaks, c)

/-- The lines of a block scalar: the text, the last line break, the empty lines after it. -/
def blockLines (folded : Bool) (indent : Nat) :
    Nat → Cursor → (text last breaks : List Char) → List Char × List Char × List Char × Cursor
  | 0, c, text, last, breaks => (text, last, breaks, c)
  | n + 1, c, text, last, breaks =>
    if c.column != indent || c.rest.isEmpty then (text, last, breaks, c)
    else
      let blank (ch : Char) : Bool := ch = ' ' || ch = '\t'
      let flush := !c.sees blank
      let (run, c) := c.span (!isBreak ·)
      let text := text ++ breaks ++ run
      let (last, c) := c.lineBreak
      let (breaks, c) := blockBreaks indent c.rest.length c []
      if c.column == indent && !c.rest.isEmpty then
        if folded && last == ['\n'] && flush && !c.sees blank then
          blockLines folded indent n c (if breaks.isEmpty then text ++ [' '] else text) last breaks
        else blockLines folded indent n c (text ++ last) last breaks
      else (text, last, breaks, c)

/-- A block scalar after its indicator, in a collection indented by `parent`. -/
def blockScalar (folded : Bool) (parent : Int) (c : Cursor) : Option (List Char × Cursor) := do
  let (chomping, width, c) ← blockHeader c
  let least := (max (parent + 1) 1).toNat
  let (breaks, indent, c) :=
    match width with
    | none =>
      let (breaks, widest, c) := blockLead c.rest.length c [] 0
      (breaks, max least widest, c)
    | some w =>
      let indent := least + w - 1
      let (breaks, c) := blockBreaks indent (c.rest.length + 1) c []
      (breaks, indent, c)
  let (text, last, breaks, c) := blockLines folded indent (c.rest.length + 1) c [] [] breaks
  match chomping with
  | .strip => return (text, c)
  | .clip => return (text ++ last, c)
  | .keep => return (text ++ last ++ breaks, c)

end Schemata.Yaml
