/-!
# Digits of other bases

Numbers are written in bases up to sixteen, and numeric escapes name a character by its number in
hexadecimal digits. Writing fills the digits up to a width; reading takes both cases, and refuses a
number that is no character's.
-/

namespace Schemata.Text

/-- A number in lower-case hexadecimal digits, padded with zeros to a width. -/
def hexPadded (width n : Nat) : List Char :=
  let digits := Nat.toDigits 16 n
  List.replicate (width - digits.length) '0' ++ digits

/-- The value of a hexadecimal digit. -/
def hexDigit? (c : Char) : Option Nat :=
  if c.isDigit then some (c.toNat - '0'.toNat)
  else if 'a' ≤ c && c ≤ 'f' then some (c.toNat - 'a'.toNat + 10)
  else if 'A' ≤ c && c ≤ 'F' then some (c.toNat - 'A'.toNat + 10)
  else none

/-- The value of a digit in a base of at most sixteen. -/
def digitIn? (base : Nat) (c : Char) : Option Nat := (hexDigit? c).filter (· < base)

/-- The number that digits denote in a base of at most sixteen. -/
def basedValue? (base : Nat) (digits : List Char) : Option Nat :=
  digits.foldlM (fun n d ↦ (digitIn? base d).map (n * base + ·)) 0

/-- The number that hexadecimal digits denote. -/
def hexValue? (digits : List Char) : Option Nat := basedValue? 16 digits

/-- The character with a number. -/
def charOf? (n : Nat) : Option Char := if h : n.isValidChar then some (Char.ofNatAux n h) else none

/-- The character that hexadecimal digits name. -/
def hexChar? (digits : List Char) : Option Char := (hexValue? digits).bind charOf?

end Schemata.Text
