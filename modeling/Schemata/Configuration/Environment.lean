import Schemata.Error
import Schemata.Text.Blank
import Schemata.Text.Casing

/-!
# Environment variables

The variables a process was started with. A variable that is set to the empty text counts as unset
where it would override something, and as a value where it fills a placeholder. Truth values are
read from words.
-/

namespace Schemata

/-- Environment variables with their values; the first entry of a name counts. -/
abbrev Environment := List (String × String)

namespace Environment

/-- The value of a variable. -/
def get? (env : Environment) (name : String) : Option String :=
  (env.find? (·.1 == name)).map (·.2)

/-- The value of a variable, unless it is empty. -/
def override? (env : Environment) (name : String) : Option String :=
  (env.get? name).filter (!·.isEmpty)

end Environment

/-! ## Truth values -/

namespace Truth

/-- The words for true. -/
def trueWords : List String := ["true", "1", "yes", "on", "enabled"]

/-- The words for false. -/
def falseWords : List String := ["false", "0", "no", "off", "disabled"]

/-- Reads a word for a truth value: case and surrounding blanks do not count. -/
def read (text : String) : Except Error Bool :=
  let word := Text.strip (Text.lower text)
  if trueWords.contains word then .ok true
  else if falseWords.contains word then .ok false
  else .error (.notBoolean text)

end Truth

end Schemata
