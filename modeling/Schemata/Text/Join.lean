/-!
# Texts put together

Joining with a separator, and the shown forms of fixed sequences.
-/

namespace Schemata.Text

/-- Texts with a separator between them. -/
def joinWith (separator : String) : List String → String
  | [] => ""
  | [s] => s
  | s :: rest => s ++ separator ++ joinWith separator rest

/-- A fixed sequence as it is shown: in parentheses, a lone member followed by a comma. -/
def tupleText : List String → String
  | [s] => "(" ++ s ++ ",)"
  | texts => "(" ++ joinWith ", " texts ++ ")"

end Schemata.Text
