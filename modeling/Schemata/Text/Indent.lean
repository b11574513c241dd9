import Schemata.Text.Blank

/-!
# Common indentation

`trimIndent` takes the indentation that all lines share off a text, empties the lines that hold
nothing but spaces and tabs, and drops empty lines at both ends. Only spaces and tabs count as
indentation, and only the line feed ends a line.
-/

namespace Schemata.Text

/-- The lines of a text: its pieces between line feeds. -/
def splitLines : List Char → List (List Char)
  | [] => [[]]
  | c :: rest =>
    if c = '\n' then [] :: splitLines rest
    else
      match splitLines rest with
      | line :: lines => (c :: line) :: lines
      | [] => [[c]]

/-- Lines put together again with line feeds between them. -/
def joinLines : List (List Char) → List Char
  | [] => []
  | [line] => line
  | line :: lines => line ++ '\n' :: joinLines lines

/-- The characters that indent a line. -/
def isIndent (c : Char) : Bool := c = ' ' || c = '\t'

/-- The indentation of a line. -/
def indentOf (line : List Char) : List Char := line.takeWhile isIndent

/-- A line of spaces and tabs becomes the empty line. -/
def blankLine (line : List Char) : List Char := if line.all isIndent then [] else line

/-- The longest common prefix of two lists. -/
def commonPrefix {α : Type} [DecidableEq α] : List α → List α → List α
  | a :: as, b :: bs => if a = b then a :: commonPrefix as bs else []
  | _, _ => []

/-- The longest indentation that all non-empty lines share. -/
def commonIndent (lines : List (List Char)) : List Char :=
  match (lines.filter (!·.isEmpty)).map indentOf with
  | [] => []
  | first :: rest => rest.foldl commonPrefix first

/-- The lines without their common indentation. -/
def dedentLines (lines : List (List Char)) : List (List Char) :=
  let lines := lines.map blankLine
  let margin := (commonIndent lines).length
  lines.map fun line ↦ line.drop margin

/-- The text without common indentation and without empty lines at either end. -/
def trimIndent (s : String) : String :=
  String.ofList (stripList (· = '\n') (joinLines (dedentLines (splitLines s.toList))))

end Schemata.Text
