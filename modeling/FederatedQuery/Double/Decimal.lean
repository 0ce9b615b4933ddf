import FederatedQuery.Double.Rounding

/-!
Decimal text of a number: the fewest digits that read back to it, and of those the nearest decimal.
Which exponents are written positionally, and how, is a `Layout`.
-/
namespace FederatedQuery

structure Decimal where
  coefficient : Nat
  exponent : Int

def decimalLength (n : Nat) : Nat := (Nat.toDigits 10 n).length

namespace Double

/-- Quarter counts between which every real reads back to the number, and whether the ends do. -/
structure Reach where
  low : Nat
  value : Nat
  high : Nat
  closed : Bool

def reach (x : Double) : Reach where
  low := 4 * x.count - if x.fraction = 0 ∧ 1 < x.exponent then x.spacing else 2 * x.spacing
  value := 4 * x.count
  high := 4 * x.count + 2 * x.spacing
  closed := x.fraction % 2 = 0

def Reach.holds (r : Reach) (scale point : Nat) : Bool :=
  if r.closed then r.low * scale ≤ point ∧ point ≤ r.high * scale
  else r.low * scale < point ∧ point < r.high * scale

/-- The power of ten that the leading digit of a non-zero number stands for. -/
def leadingExponent (x : Double) : Int :=
  if oneCount ≤ x.count then decimalLength (x.count / oneCount) - 1
  else -(decimalLength (oneCount / x.count) : Int)

/-- How two decimals equally near to a number are told apart. -/
inductive Tie where
  | up
  | even

/-- The nearest of the two neighbours of a number on the grid of multiples of `10^k`, among those that
read back to it. -/
def onGrid? (tie : Tie) (x : Double) (k : Int) : Option Decimal :=
  let r := x.reach
  let step := Nat.pow 10 k.toNat * 4 * oneCount
  let scale := Nat.pow 10 (-k).toNat
  let below := r.value * scale / step
  let take (c : Nat) : Option Decimal := if r.holds scale (c * step) then some ⟨c, k⟩ else none
  let down := r.value * scale - below * step
  let up := (below + 1) * step - r.value * scale
  let first : Bool := match tie with
    | .up => decide (down < up)
    | .even => decide (down < up ∨ down = up ∧ below % 2 = 0)
  if first then take below <|> take (below + 1) else take (below + 1) <|> take below

/-- The shortest decimal that reads back to a finite non-zero number. -/
def shortest (tie : Tie) (x : Double) : Decimal :=
  let k := x.leadingExponent
  let found := (List.range 17).findSome? fun (digits : Nat) => onGrid? tie x (k - digits)
  found.getD ⟨0, 0⟩

/-- The decisions of one number format. -/
structure Layout where
  tie : Tie
  /-- Whether a number whose leading digit stands for this power of ten is written positionally. -/
  positional : Int → Bool
  point : Bool
  plus : Bool

def zeros (n : Nat) : String := String.ofList (List.replicate n '0')

def Layout.positionalText (l : Layout) (digits : List Char) (leading : Int) : String :=
  let width := digits.length
  if leading < 0 then "0." ++ zeros (-leading - 1).toNat ++ String.ofList digits
  else if width ≤ leading.toNat + 1 then
    String.ofList digits ++ zeros (leading.toNat + 1 - width) ++ if l.point then ".0" else ""
  else String.ofList (digits.take (leading.toNat + 1)) ++ "." ++
    String.ofList (digits.drop (leading.toNat + 1))

def Layout.exponentText (l : Layout) (digits : List Char) (leading : Int) : String :=
  let head := String.ofList (digits.take 1)
  let tail := digits.drop 1
  let coefficient := if tail.isEmpty then head else head ++ "." ++ String.ofList tail
  coefficient ++ "e" ++ (if l.plus ∧ 0 ≤ leading then "+" else "") ++ toString leading

def dropEndingZeros (digits : List Char) : List Char :=
  (digits.reverse.dropWhile (· == '0')).reverse

def Layout.text (l : Layout) (x : Double) : String :=
  let sign := if x.isNegative then "-" else ""
  if x.isNaN then "NaN"
  else if x.isInfinite then sign ++ "inf"
  else if x.count = 0 then sign ++ if l.point then "0.0" else "0"
  else
    let d := x.shortest l.tie
    let written := Nat.toDigits 10 d.coefficient
    let leading := (written.length : Int) + d.exponent - 1
    let digits := dropEndingZeros written
    sign ++ if l.positional leading then l.positionalText digits leading
      else l.exponentText digits leading

/-- Numbers inside values: positional from `0.0001` to below `10^16`. -/
def valueLayout : Layout where
  tie := .up
  positional e := decide (-4 ≤ e ∧ e < 16)
  point := true
  plus := false

/-- Numbers converted to character strings: always positional, an integral number without a point. -/
def plainLayout : Layout where
  tie := .up
  positional _ := true
  point := false
  plus := false

/-- Numbers inside documents: positional from `0.00001` to below `10^16`, every exponent signed. -/
def documentLayout : Layout where
  tie := .even
  positional e := decide (-5 ≤ e ∧ e < 16)
  point := true
  plus := true

end Double

end FederatedQuery
