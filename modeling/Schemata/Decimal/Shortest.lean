import Schemata.Decimal.Binary64

/-!
# The fewest digits that read back

A decimal reads back as a given double-precision number when it lies in the interval of reals that
round to that number: from halfway to the neighbour below to halfway to the neighbour above, the
ends included exactly when the significand is even. `Binary64.shortest` walks the decimal grids
from one digit to seventeen, tests the value's two neighbours on each with exact integer
arithmetic, and takes the first grid with a hit, the nearer of two hits, and the even one of two
equally near.
-/

namespace Schemata.Binary64

/-- A decimal `digits * 10 ^ exponent`. -/
structure Scaled where
  /-- The digits, read as one number. -/
  digits : Nat
  /-- The power of ten of the last digit. -/
  exponent : Int
  deriving DecidableEq, Inhabited

/-- Whether `a * 10 ^ k ≤ b * 2 ^ j`. -/
def leMixed (a : Nat) (k : Int) (b : Nat) (j : Int) : Bool :=
  a * tenTo k.toNat * twoTo (-j).toNat ≤ b * twoTo j.toNat * tenTo (-k).toNat

/-- Whether `a * 10 ^ k < b * 2 ^ j`. -/
def ltMixed (a : Nat) (k : Int) (b : Nat) (j : Int) : Bool :=
  a * tenTo k.toNat * twoTo (-j).toNat < b * twoTo j.toNat * tenTo (-k).toNat

/-- Whether a decimal rounds to the finite number `x`. -/
def readsBack (x : Binary64) (s : Scaled) : Bool :=
  let low := 4 * x.significand - (if x.narrowBelow then 1 else 2)
  let high := 4 * x.significand + 2
  let q := x.scale - 2
  if x.significand % 2 = 0 then
    !ltMixed s.digits s.exponent low q && leMixed s.digits s.exponent high q
  else
    !leMixed s.digits s.exponent low q && ltMixed s.digits s.exponent high q

/-- The least power of ten above the value, searched upward from a guess. -/
def magnitudeFrom (x : Binary64) : Nat → Int → Int
  | 0, k => k
  | n + 1, k => if leMixed 1 k x.significand x.scale then magnitudeFrom x n (k + 1) else k

/-- The least `k` with `x < 10 ^ k`, for a positive finite value. -/
def magnitude (x : Binary64) : Int :=
  let log := (x.significand.log2 : Int) + x.scale
  magnitudeFrom x 8 ((log * 30103).fdiv 100000 - 1)

/-- The largest multiple of `10 ^ k` not above the value, counted in such units. -/
def floorOn (x : Binary64) (k : Int) : Nat :=
  x.significand * twoTo x.scale.toNat * tenTo (-k).toNat / (twoTo (-x.scale).toNat * tenTo k.toNat)

/-- Of two neighbours on a grid that both read back, the nearer one to the value. -/
def nearer (x : Binary64) (below : Nat) (k : Int) : Nat :=
  if ltMixed (2 * below + 1) k (2 * x.significand) x.scale then below + 1
  else if leMixed (2 * below + 1) k (2 * x.significand) x.scale && below % 2 = 1 then below + 1
  else below

/-- The decimal with `n` or more digits, at most `n + fuel`, that reads back first. -/
def shortestFrom (x : Binary64) (top : Int) : Nat → Nat → Scaled
  | 0, n => ⟨floorOn x (top - n), top - n⟩
  | fuel + 1, n =>
    let k := top - n
    let below := floorOn x k
    match readsBack x ⟨below, k⟩, readsBack x ⟨below + 1, k⟩ with
    | true, true => ⟨nearer x below k, k⟩
    | true, false => ⟨below, k⟩
    | false, true => ⟨below + 1, k⟩
    | false, false => shortestFrom x top fuel (n + 1)

/-- Drops zeros at the end of the digits. -/
def stripZeros : Nat → Scaled → Scaled
  | 0, s => s
  | fuel + 1, s =>
    if s.digits ≠ 0 ∧ s.digits % 10 = 0 then stripZeros fuel ⟨s.digits / 10, s.exponent + 1⟩
    else s

/-- The shortest decimal that reads back as the magnitude of a finite number. -/
def shortest (x : Binary64) : Scaled :=
  if x.isZero then ⟨0, 0⟩
  else stripZeros 400 (shortestFrom x x.magnitude 17 1)

end Schemata.Binary64
