import Schemata.Text.Blank
import Schemata.Text.Casing

/-!
# Marked-up lines

Lines for the user are written with style tags in brackets. A console without styles shows what is
between the tags. A backslash before a tag makes it text. A closing tag must close a tag that is
open: the one it names, or the last one if it names none. Characters that move the cursor are not
shown.

A console is a parameter of a session, and this is a simple one to run sessions with. It reads plain
style tags; tags that call for an action, other names of a style and names of pictures are beyond it.
-/

namespace Schemata

namespace Markup

/-- A piece of a marked-up line. -/
inductive Piece where
  /-- Text. -/
  | text (cs : List Char)
  /-- A tag, without its brackets. -/
  | tag (cs : List Char)
  deriving DecidableEq, Inhabited

/-- Whether a character can begin a tag. -/
def beginsTag (c : Char) : Bool := c.isLower || c == '#' || c == '/' || c == '@'

/-- The tag after an opening bracket, and what follows it. -/
def tag? (cs : List Char) : Option (List Char × List Char) :=
  match cs with
  | [] => none
  | c :: _ =>
    let name := cs.takeWhile fun c ↦ c != '[' && c != ']'
    match cs.dropWhile fun c ↦ c != '[' && c != ']' with
    | ']' :: rest => if beginsTag c then some (name, rest) else none
    | _ => none

theorem length_lt_of_tag? {cs name rest : List Char} (h : tag? cs = some (name, rest)) :
    rest.length < cs.length := by
  unfold tag? at h
  split at h
  · cases h
  · next c tail =>
    simp only at h
    split at h
    · next more heq =>
      split at h
      · cases h
        have hlen :=
          (List.dropWhile_sublist (fun c ↦ c != '[' && c != ']') (l := c :: tail)).length_le
        rw [heq] at hlen
        simp only [List.length_cons] at hlen ⊢
        omega
      · cases h
    · cases h

/-- The pieces of a line; `escapes` counts the backslashes just before. -/
def pieces (escapes : Nat) : List Char → List Piece
  | [] => [.text (List.replicate escapes '\\')]
  | '\\' :: rest => pieces (escapes + 1) rest
  | '[' :: rest =>
    match _h : tag? rest with
    | some (name, after) =>
      let slashes := .text (List.replicate (escapes / 2) '\\')
      let found := if escapes % 2 == 1 then .text ('[' :: name ++ [']']) else .tag name
      slashes :: found :: pieces 0 after
    | none => .text (List.replicate (escapes - 1) '\\' ++ ['[']) :: pieces 0 rest
  | c :: rest => .text (List.replicate escapes '\\' ++ [c]) :: pieces 0 rest
termination_by cs => cs.length
decreasing_by
  · simp
  · have := length_lt_of_tag? _h
    simp only [List.length_cons]
    omega
  · simp
  · simp

/-- The name of a style as tags are compared by it. -/
def styleName (cs : List Char) : String := Text.strip (Text.lower (String.ofList cs))

/-- The tags that are open after one more, the last one first; none if it closes what is not
open. -/
def openTags (tags : List String) (tag : List Char) : Option (List String) :=
  match tag.takeWhile (· ≠ '=') with
  | '/' :: name =>
    match styleName name, tags with
    | "", [] => none
    | "", _ :: rest => some rest
    | name, tags => if tags.contains name then some (tags.erase name) else none
  | name => some (styleName name :: tags)

/-- The text between tags. -/
def textOf : List String → List Piece → Option (List Char)
  | _, [] => some []
  | tags, .text cs :: rest => (textOf tags rest).map (cs ++ ·)
  | tags, .tag t :: rest => do textOf (← openTags tags t) rest

/-- Whether a character is shown. -/
def isShown (c : Char) : Bool := !(['\x07', '\x08', '\x0b', '\x0c', '\r'].contains c)

/-- What a console without styles shows of a line; none if its tags do not fit together. -/
def plain? (line : String) : Option String :=
  (textOf [] (pieces 0 line.toList)).map fun cs ↦ String.ofList (cs.filter isShown)

end Markup

end Schemata
