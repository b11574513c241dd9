import Schemata.Decimal.Shortest

/-!
# How a number is laid out

`FloatLayout` holds every decision of a textual number format that the digits themselves do not
make: where positional writing ends, whether a lone digit before an exponent gets a point, and the
words for the values that are no numbers.
-/

namespace Schemata

/-- The decisions of a textual format for floating-point numbers. -/
structure FloatLayout where
  /-- The least power of ten of the first digit that is still written positionally. -/
  positionalFrom : Int := -4
  /-- The least power of ten of the first digit that is written with an exponent again. -/
  positionalBelow : Int := 16
  /-- Whether a single digit before an exponent is followed by a point and a zero. -/
  pointBeforeExponent : Bool := false
  /-- The word for infinity, written after a minus sign when negative. -/
  infinity : String := "inf"
  /-- The word for not-a-number. -/
  nan : String := "nan"

namespace Binary64

/-- The layout of digits whose first one stands for the power `lead` of ten. -/
def layDigits (layout : FloatLayout) (digits : List Char) (lead : Int) : List Char :=
  if layout.positionalFrom ≤ lead ∧ lead < layout.positionalBelow then
    if lead < 0 then
      ['0', '.'] ++ List.replicate (-lead - 1).toNat '0' ++ digits
    else
      let whole := lead.toNat + 1
      let padded := digits ++ List.replicate (whole - digits.length) '0'
      let rest := padded.drop whole
      padded.take whole ++ '.' :: (if rest.isEmpty then ['0'] else rest)
  else
    let rest := digits.drop 1
    let point :=
      if rest.isEmpty then (if layout.pointBeforeExponent then ['.', '0'] else [])
      else '.' :: rest
    let power := Nat.toDigits 10 lead.natAbs
    let padded := if power.length < 2 then '0' :: power else power
    digits.take 1 ++ point ++ ['e', if lead < 0 then '-' else '+'] ++ padded

/-- The text of a number under a layout: the fewest digits that read back, laid out. -/
def render (layout : FloatLayout) (x : Binary64) : String :=
  if x.isNaN then layout.nan
  else
    let sign := if x.negative then "-" else ""
    if x.isInfinite then sign ++ layout.infinity
    else
      let s := x.shortest
      let digits := Nat.toDigits 10 s.digits
      sign ++ String.ofList (layDigits layout digits (s.exponent + (digits.length - 1 : Nat)))

end Binary64

end Schemata
