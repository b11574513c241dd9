/-!
# Characters of YAML

The classes of characters that both directions of the format rest on: breaks end a line, separators
end a word, and a text may hold only characters that can be printed.
-/

namespace Schemata.Yaml

/-- A character that ends a line. -/
def isBreak (c : Char) : Bool :=
  c = '\n' || c.toNat = 0x85 || c.toNat = 0x2028 || c.toNat = 0x2029

/-- A character that separates words, in the view of indicators. -/
def isSeparator (c : Char) : Bool :=
  c = ' ' || c = '\t' || c = '\r' || c.toNat = 0 || isBreak c

/-- Whether the next character separates words; the end of the text does. -/
def followedBySeparator : List Char → Bool
  | [] => true
  | c :: _ => isSeparator c

/-- Whether a text may hold a character. -/
def isReadable (c : Char) : Bool :=
  let n := c.toNat
  n == 9 || n == 10 || n == 13 || (0x20 ≤ n && n ≤ 0x7e) || n == 0x85 || (0xa0 ≤ n && n ≤ 0xd7ff) ||
    (0xe000 ≤ n && n ≤ 0xfffd) || 0x10000 ≤ n

end Schemata.Yaml
