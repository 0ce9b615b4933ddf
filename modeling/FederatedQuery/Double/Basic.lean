import FederatedQuery.Types.Bounded

/-!
Binary64 numbers, held as their sixty-four bits: a sign, eleven exponent bits and fifty-two fraction
bits. Every finite number is a whole count of the smallest positive one, `2^-1074`, so numbers are
compared by comparing counts, and no comparison rounds.
-/
namespace FederatedQuery

structure Double where
  bits : UInt64
deriving DecidableEq

namespace Double

def word (x : Double) : Nat := x.bits.toNat

def isNegative (x : Double) : Bool := decide (Nat.pow 2 63 ≤ x.word)

/-- The bits below the sign, read as a number. They grow with the absolute value. -/
def magnitude (x : Double) : Nat := x.word % Nat.pow 2 63

/-- The magnitude of both infinities. Larger magnitudes are not numbers. -/
def infinite : Nat := 2047 * Nat.pow 2 52

def isNaN (x : Double) : Bool := decide (infinite < x.magnitude)

def isFinite (x : Double) : Bool := decide (x.magnitude < infinite)

def isInfinite (x : Double) : Bool := decide (x.magnitude = infinite)

def ofMagnitude (negative : Bool) (magnitude : Nat) : Double :=
  ⟨(magnitude + if negative then Nat.pow 2 63 else 0).toUInt64⟩

def zero (negative : Bool) : Double := ofMagnitude negative 0

def infinity (negative : Bool) : Double := ofMagnitude negative infinite

/-- The quiet value that stands for no number. -/
def nan (negative : Bool) : Double := ofMagnitude negative (infinite + Nat.pow 2 51)

def exponent (x : Double) : Nat := x.magnitude / Nat.pow 2 52

def fraction (x : Double) : Nat := x.magnitude % Nat.pow 2 52

/-- The distance from one count to the next at this exponent. -/
def spacing (x : Double) : Nat := Nat.pow 2 (x.exponent - 1)

/-- The absolute value, counted in smallest positive numbers. An infinity counts as the power of two
that would follow the largest finite number. -/
def count (x : Double) : Nat :=
  if x.exponent = 0 then x.fraction else (Nat.pow 2 52 + x.fraction) * x.spacing

def oneCount : Nat := Nat.pow 2 1074

def units (x : Double) : Int := if x.isNegative then -(x.count : Int) else x.count

/-- The key of the total order: negative values below positive ones, and values that are not numbers
outside the infinities of their sign. -/
def totalKey (x : Double) : Int :=
  if x.isNegative then -(x.magnitude : Int) - 1 else x.magnitude

def totalCompare (x y : Double) : Ordering := compare x.totalKey y.totalKey

/-- Numeric equality: both zeros are equal, and what is not a number equals nothing. -/
def numEq (x y : Double) : Bool := !x.isNaN && !y.isNaN && decide (x.units = y.units)

def numLt (x y : Double) : Bool := !x.isNaN && !y.isNaN && decide (x.units < y.units)

/-- The integer that a number equals, if it is one of sixty-four bits. -/
def integer? (x : Double) : Option Int64 :=
  if x.units % (oneCount : Int) = 0 then int64? (x.units / (oneCount : Int)) else none

/-- The integer part, held to the sixty-four bit range. -/
def truncate (x : Double) : Int64 :=
  if x.isNaN then 0
  else Int64.ofInt (max Int64.minValue.toInt (min Int64.maxValue.toInt (x.units.tdiv (oneCount : Int))))

def negate (x : Double) : Double := ofMagnitude (!x.isNegative) x.magnitude

end Double

end FederatedQuery
