import FederatedQuery.Double.Rounding

/-!
Arithmetic: the exact result on counts, rounded once. An operand that is not a number is handed on, the
left one first; an operation without a result gives the negative quiet value.
-/
namespace FederatedQuery.Double

/-- Hands on an operand that is not a number. -/
def numbers (x y : Double) (result : Double) : Double :=
  if x.isNaN then x else if y.isNaN then y else result

def add (x y : Double) : Double :=
  numbers x y <|
    if x.isInfinite then
      if y.isInfinite ∧ x.isNegative ≠ y.isNegative then nan true else x
    else if y.isInfinite then y
    else if x.units + y.units = 0 then zero (x.isNegative && y.isNegative)
    else ofUnits (x.units + y.units)

def sub (x y : Double) : Double := numbers x y (add x y.negate)

def mul (x y : Double) : Double :=
  let negative := x.isNegative != y.isNegative
  numbers x y <|
    if x.isInfinite ∨ y.isInfinite then
      if x.count = 0 ∨ y.count = 0 then nan true else infinity negative
    else nearest negative (x.count * y.count) oneCount

def div (x y : Double) : Double :=
  let negative := x.isNegative != y.isNegative
  numbers x y <|
    if x.isInfinite then if y.isInfinite then nan true else infinity negative
    else if y.isInfinite then zero negative
    else if y.count = 0 then if x.count = 0 then nan true else infinity negative
    else nearest negative (x.count * oneCount) y.count

/-- The remainder of division toward zero. It has the sign of the dividend. -/
def rem (x y : Double) : Double :=
  numbers x y <|
    if x.isInfinite ∨ y.count = 0 then nan true
    else if y.isInfinite then x
    else nearest x.isNegative (x.count % y.count) 1

end FederatedQuery.Double
