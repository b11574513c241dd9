/-!
# Blank characters

The blank characters are the white space of the Unicode standard and the four information
separators. Stripping takes them from both ends of a text.
-/

namespace Schemata.Text

/-- Whether a character is white space or an information separator. -/
def isBlank (c : Char) : Bool :=
  let n := c.toNat
  (9 ≤ n && n ≤ 13) || (28 ≤ n && n ≤ 32) || n == 0x85 || n == 0xa0 || n == 0x1680 ||
    (0x2000 ≤ n && n ≤ 0x200a) || n == 0x2028 || n == 0x2029 || n == 0x202f || n == 0x205f ||
    n == 0x3000

/-- Drops the characters of a class from both ends. -/
def stripList (p : Char → Bool) (cs : List Char) : List Char :=
  ((cs.dropWhile p).reverse.dropWhile p).reverse

/-- Drops the blank characters at both ends. -/
def strip (s : String) : String := String.ofList (stripList isBlank s.toList)

end Schemata.Text
