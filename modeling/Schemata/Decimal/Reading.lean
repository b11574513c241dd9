import Schemata.Decimal.Binary64

/-!
# Reading decimals

A decimal is an optional sign, digits with at most one point among them, and an optional exponent.
`Binary64.ofText?` rounds it to the nearest representable number; the words for infinity and
not-a-number are read as well.
-/

namespace Schemata

/-- The number that a string of digits denotes. -/
def digitsValue (digits : List Char) : Nat :=
  digits.foldl (fun n c ↦ n * 10 + (c.toNat - '0'.toNat)) 0

/-- The digits at the front of a text, and the rest. -/
def spanDigits (cs : List Char) : List Char × List Char :=
  (cs.takeWhile Char.isDigit, cs.dropWhile Char.isDigit)

/-- A sign at the front of a text, as a factor, and the rest. -/
def spanSign : List Char → Bool × List Char
  | '-' :: rest => (true, rest)
  | '+' :: rest => (false, rest)
  | cs => (false, cs)

/-- The integer that a signed string of digits denotes. -/
def intOfChars? (cs : List Char) : Option Int :=
  let (negative, rest) := spanSign cs
  if rest.isEmpty || !rest.all Char.isDigit then none
  else some (if negative then -(digitsValue rest : Int) else digitsValue rest)

namespace Binary64

/-- The exponent after the digits of a decimal; none at all counts as zero. -/
def exponentOf? : List Char → Option Int
  | [] => some 0
  | e :: rest => if e = 'e' || e = 'E' then intOfChars? rest else none

/-- The number nearest to an unsigned decimal. -/
def unsignedOf? (negative : Bool) (cs : List Char) : Option Binary64 :=
  let (whole, rest) := spanDigits cs
  let (places, rest) := match rest with
    | '.' :: rest => spanDigits rest
    | rest => ([], rest)
  if whole.isEmpty && places.isEmpty then none
  else
    (exponentOf? rest).map fun e ↦
      ofDecimal negative (digitsValue (whole ++ places)) (e - places.length)

/-- The number nearest to a decimal. -/
def ofText? (s : String) : Option Binary64 :=
  let (negative, rest) := spanSign s.toList
  let word := String.ofList (rest.map Char.toLower)
  if word == "inf" || word == "infinity" then some (infinity negative)
  else if word == "nan" then some nan
  else unsignedOf? negative rest

end Binary64

end Schemata
