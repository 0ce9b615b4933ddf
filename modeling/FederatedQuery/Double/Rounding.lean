import FederatedQuery.Double.Basic

/-!
Rounding an exact quotient to the nearest number. The magnitude of a result is the number of whole
binades below it times `2^52` plus its rounded significand, so a significand that rounds up to the
next power of two lands in the next binade by itself, and everything past the largest finite number
is the infinity.
-/
namespace FederatedQuery

/-- The nearest integer to a quotient, a half going to the even neighbour. -/
def divNearest (n d : Nat) : Nat :=
  let q := n / d
  let r := n % d
  if 2 * r < d then q else if d < 2 * r then q + 1 else q + q % 2

namespace Double

/-- The number nearest to `n / d` smallest positive numbers. -/
def nearest (negative : Bool) (n d : Nat) : Double :=
  let shift := Nat.log2 (n / d) + 1 - 53
  ofMagnitude negative (min (shift * Nat.pow 2 52 + divNearest n (d * Nat.pow 2 shift)) infinite)

def ofUnits (u : Int) : Double := nearest (decide (u < 0)) u.natAbs 1

def ofInt (i : Int) : Double := ofUnits (i * oneCount)

/-- The number nearest to a decimal coefficient times a power of ten. Exponents whose result is
certainly infinite or zero are settled without writing the power out. -/
def ofDecimal (negative : Bool) (coefficient : Nat) (exponent : Int) : Double :=
  let leading := ((Nat.toDigits 10 coefficient).length : Int) + exponent
  if coefficient = 0 ∨ leading < -330 then zero negative
  else if 330 < leading then infinity negative
  else nearest negative (coefficient * Nat.pow 10 exponent.toNat * oneCount)
    (Nat.pow 10 (-exponent).toNat)

end Double

end FederatedQuery
