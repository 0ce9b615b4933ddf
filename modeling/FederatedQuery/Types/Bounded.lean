/-!
Integers that a number of bits holds.
-/
namespace FederatedQuery

def int64? (i : Int) : Option Int64 :=
  if Int64.minValue.toInt ≤ i ∧ i ≤ Int64.maxValue.toInt then some (Int64.ofInt i) else none

/-- The natural number that an integer is, if it is one. -/
def natural? (i : Int64) : Option Nat := if 0 ≤ i.toInt then some i.toInt.toNat else none

/-- The sum, or the limit that it passes. -/
def saturatingSum (a b : Int64) : Int64 :=
  Int64.ofInt (max Int64.minValue.toInt (min (a.toInt + b.toInt) Int64.maxValue.toInt))

/-- The largest integer up to which floats keep integers exactly. -/
def exactLimit : Nat := Nat.pow 2 53

end FederatedQuery
