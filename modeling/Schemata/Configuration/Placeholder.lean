import Schemata.Configuration.Environment
import Schemata.Trace

/-!
# Placeholders

A placeholder is a dollar sign and a name in braces. The name is everything up to the first closing
brace and is not empty. `Placeholder.pieces` cuts a text into placeholders and the characters
between them in one pass from left to right; filling replaces every placeholder by the value of its
variable, which is not looked at again. A placeholder of an unset variable stays.

In structured values the texts are filled and everything else stays as it is, keys included.
-/

namespace Schemata

/-- A piece of a text. -/
inductive Piece where
  /-- A character outside every placeholder. -/
  | char (c : Char)
  /-- A placeholder of a variable. -/
  | placeholder (name : List Char)
  deriving DecidableEq, Inhabited

namespace Placeholder

/-- The name after an opening brace and what follows its closing brace, if the name is not empty and
the brace is closed. -/
def name? (cs : List Char) : Option (List Char × List Char) :=
  match cs.takeWhile (· ≠ '\x7d'), cs.dropWhile (· ≠ '\x7d') with
  | c :: name, _ :: rest => some (c :: name, rest)
  | _, _ => none

theorem length_lt_of_name? {cs name rest : List Char} (h : name? cs = some (name, rest)) :
    rest.length < cs.length := by
  have hlen : (cs.takeWhile (· ≠ '\x7d')).length + (cs.dropWhile (· ≠ '\x7d')).length =
      cs.length := by
    rw [← List.length_append, List.takeWhile_append_dropWhile]
  unfold name? at h
  split at h
  · simp_all
    omega
  · cases h

/-- The pieces of a text. -/
def pieces : List Char → List Piece
  | [] => []
  | '$' :: '\x7b' :: rest =>
    match _h : name? rest with
    | some (name, after) => .placeholder name :: pieces after
    | none => .char '$' :: pieces ('\x7b' :: rest)
  | c :: rest => .char c :: pieces rest
termination_by cs => cs.length
decreasing_by
  · have := length_lt_of_name? _h
    simp only [List.length_cons]
    omega
  · simp
  · simp

/-- A placeholder as it is written. -/
def written (name : List Char) : String := String.ofList ('$' :: '\x7b' :: name ++ ['\x7d'])

/-- What a piece stands for. -/
def fillPiece (env : Environment) : Piece → Traced String
  | .char c => return String.singleton c
  | .placeholder name =>
    match env.get? (String.ofList name) with
    | some value => return value
    | none => do
      Traced.debug ("Environment variable " ++ written name ++ " not found, keeping placeholder")
      return written name

/-- What several pieces stand for together. -/
def fillPieces (env : Environment) : List Piece → Traced String
  | [] => return ""
  | p :: ps => do
    let first ← fillPiece env p
    return first ++ (← fillPieces env ps)

/-- A text with its placeholders filled. -/
def fillText (env : Environment) (s : String) : Traced String := fillPieces env (pieces s.toList)

mutual

/-- A value with the placeholders in its texts filled. -/
def fill (env : Environment) : Value → Traced Value
  | .str s => return .str (← fillText env s)
  | .list items => return .list (← fillAll env items)
  | .map entries => return .map (← fillEntries env entries)
  | v => return v

/-- Several values with their placeholders filled. -/
def fillAll (env : Environment) : List Value → Traced (List Value)
  | [] => return []
  | v :: vs => do
    let v ← fill env v
    return v :: (← fillAll env vs)

/-- Entries with the placeholders in their values filled. -/
def fillEntries (env : Environment) : List (Value × Value) → Traced (List (Value × Value))
  | [] => return []
  | (k, v) :: rest => do
    let v ← fill env v
    return (k, v) :: (← fillEntries env rest)

end

end Placeholder

end Schemata
