/-!
# Double-precision numbers by their bits

A `Binary64` is the sixty-four bits of a double-precision number. Keeping the bits, rather than
the machine's own number, makes equality decidable and every conversion a computation on natural
numbers: reading rounds an exact quotient to the nearest representable value, ties to the even
significand, and a finite value is again `significand * 2 ^ scale` exactly.
-/

namespace Schemata

/-- A power of two. -/
def twoTo (n : Nat) : Nat := Nat.pow 2 n

/-- A power of ten. -/
def tenTo (n : Nat) : Nat := Nat.pow 10 n

/-- A double-precision number, given by its sixty-four bits. -/
structure Binary64 where
  /-- Sign, biased exponent and fraction, from the highest bit down. -/
  bits : UInt64
  deriving DecidableEq, Inhabited

namespace Binary64

/-! ## Taking the bits apart -/

/-- Whether the sign bit is set; negative zero is negative. -/
def negative (x : Binary64) : Bool := x.bits.toNat / twoTo 63 == 1

/-- The eleven bits of the biased exponent. -/
def exponentField (x : Binary64) : Nat := x.bits.toNat / twoTo 52 % 2048

/-- The fifty-two bits of the fraction. -/
def fraction (x : Binary64) : Nat := x.bits.toNat % twoTo 52

/-- Not a number. -/
def isNaN (x : Binary64) : Bool := x.exponentField == 2047 && x.fraction != 0

/-- One of the two infinities. -/
def isInfinite (x : Binary64) : Bool := x.exponentField == 2047 && x.fraction == 0

/-- One of the two zeros. -/
def isZero (x : Binary64) : Bool := x.exponentField == 0 && x.fraction == 0

/-- The integer `m` of a finite value `m * 2 ^ scale`. -/
def significand (x : Binary64) : Nat :=
  if x.exponentField = 0 then x.fraction else x.fraction + twoTo 52

/-- The exponent `q` of a finite value `significand * 2 ^ q`. -/
def scale (x : Binary64) : Int := (max x.exponentField 1 : Nat) - 1075

/-- Whether the gap below the value is half the gap above it: the value is a power of two and not
among the smallest numbers. -/
def narrowBelow (x : Binary64) : Bool := x.fraction == 0 && 1 < x.exponentField

/-! ## Putting the bits together -/

/-- The number with the given sign, biased exponent and fraction. -/
def ofFields (negative : Bool) (exponentField fraction : Nat) : Binary64 :=
  ⟨UInt64.ofNat ((if negative then twoTo 63 else 0) + exponentField * twoTo 52 + fraction)⟩

/-- Zero with a sign. -/
def zero (negative : Bool) : Binary64 := ofFields negative 0 0

/-- Infinity with a sign. -/
def infinity (negative : Bool) : Binary64 := ofFields negative 2047 0

/-- The quiet not-a-number. -/
def nan : Binary64 := ofFields false 2047 (twoTo 51)

/-- The quotient rounded to the nearest integer, a half to the even neighbour. -/
def roundHalfEven (num den : Nat) : Nat :=
  let floor := num / den
  let twice := 2 * (num % den)
  if twice < den then floor
  else if den < twice then floor + 1
  else if floor % 2 = 0 then floor else floor + 1

/-- The positive quotient `num / den` divided by `2 ^ q`, as a numerator and a denominator. -/
def dividePow (num den : Nat) (q : Int) : Nat × Nat :=
  (num * twoTo (-q).toNat, den * twoTo q.toNat)

/-- The representable number nearest to `num / den`, a tie to the even significand. Beyond the
largest finite number the result is infinite. -/
def nearest (negative : Bool) (num den : Nat) : Binary64 :=
  if num = 0 then zero negative
  else
    let estimate : Int := (num.log2 : Int) - (den.log2 : Int) - 52
    let (n, d) := dividePow num den estimate
    let q := max (if n < d * twoTo 52 then estimate - 1 else estimate) (-1074)
    let (n, d) := dividePow num den q
    let m := roundHalfEven n d
    let (m, q) := if m = twoTo 53 then (twoTo 52, q + 1) else (m, q)
    if m < twoTo 52 then ofFields negative 0 m
    else if 971 < q then infinity negative
    else ofFields negative (q + 1075).toNat (m - twoTo 52)

/-- The representable number nearest to `digits * 10 ^ exponent`. -/
def ofDecimal (negative : Bool) (digits : Nat) (exponent : Int) : Binary64 :=
  if digits = 0 then zero negative
  else
    let size := exponent + (digits.log2 * 30103 / 100000 : Nat)
    if 400 < size then infinity negative
    else if size < -400 then zero negative
    else nearest negative (digits * tenTo exponent.toNat) (tenTo (-exponent).toNat)

/-- The representable number nearest to an integer. -/
def ofInt (n : Int) : Binary64 := nearest (n < 0) n.natAbs 1

/-! ## Numerical comparison -/

/-- Whether two numbers are the same quantity: the two zeros are, and nothing equals
not-a-number. -/
def sameNumber (x y : Binary64) : Bool :=
  !x.isNaN && !y.isNaN && (x == y || x.isZero && y.isZero)

/-- The integer part of a finite number. -/
def truncate? (x : Binary64) : Option Int :=
  if x.exponentField = 2047 then none
  else
    let (n, d) := dividePow x.significand 1 (-x.scale)
    some (if x.negative then -(n / d : Nat) else (n / d : Nat))

/-- The integer that a finite number without a fractional part denotes. -/
def toInt? (x : Binary64) : Option Int :=
  if x.exponentField = 2047 then none
  else
    let (n, d) := dividePow x.significand 1 (-x.scale)
    if n % d = 0 then some (if x.negative then -(n / d : Nat) else (n / d : Nat)) else none

end Binary64

end Schemata
