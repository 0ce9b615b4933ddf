import FederatedQuery.Expr.Basic

/-!
Intervals of numbers, for what a field compared with constants can still be.
-/
namespace FederatedQuery

structure Bound where
  value : Double
  inclusive : Bool
deriving DecidableEq

structure Interval where
  lo : Bound
  hi : Bound
deriving DecidableEq

namespace Interval

def unbounded : Interval :=
  ⟨⟨Double.infinity true, false⟩, ⟨Double.infinity false, false⟩⟩

def ofComparison (op : Op) (c : Double) : Interval :=
  match op with
  | .eq => ⟨⟨c, true⟩, ⟨c, true⟩⟩
  | .lt => { unbounded with hi := ⟨c, false⟩ }
  | .le => { unbounded with hi := ⟨c, true⟩ }
  | .gt => { unbounded with lo := ⟨c, false⟩ }
  | .ge => { unbounded with lo := ⟨c, true⟩ }
  | _ => unbounded

def maxLo (a b : Bound) : Bound :=
  if b.value.numLt a.value then a
  else if a.value.numLt b.value then b
  else ⟨a.value, a.inclusive && b.inclusive⟩

def minHi (a b : Bound) : Bound :=
  if a.value.numLt b.value then a
  else if b.value.numLt a.value then b
  else ⟨a.value, a.inclusive && b.inclusive⟩

def intersect (a b : Interval) : Interval := ⟨maxLo a.lo b.lo, minHi a.hi b.hi⟩

def isEmpty (a : Interval) : Bool :=
  a.hi.value.numLt a.lo.value ||
    (a.lo.value.numEq a.hi.value && !(a.lo.inclusive && a.hi.inclusive))

def contains (a : Interval) (c : Double) : Bool :=
  (a.lo.value.numLt c || (a.lo.value.numEq c && a.lo.inclusive)) &&
    (c.numLt a.hi.value || (c.numEq a.hi.value && a.hi.inclusive))

def isPoint (a : Interval) (c : Double) : Bool :=
  a.lo.value.numEq c && a.hi.value.numEq c && a.lo.inclusive && a.hi.inclusive

def isSubset (a b : Interval) : Bool :=
  (b.lo.value.numLt a.lo.value ||
      (a.lo.value.numEq b.lo.value && (b.lo.inclusive || !a.lo.inclusive))) &&
    (a.hi.value.numLt b.hi.value ||
      (a.hi.value.numEq b.hi.value && (b.hi.inclusive || !a.hi.inclusive)))

/-- What a comparison with a constant comes to on every number of an interval, if it is always the
same. An empty interval decides nothing. -/
def decides (known : Interval) (op : Op) (c : Double) : Option Bool :=
  if known.isEmpty then none
  else if op = .ne then
    if !known.contains c then some true else if known.isPoint c then some false else none
  else
    let holds := ofComparison op c
    if known.isSubset holds then some true
    else if (known.intersect holds).isEmpty then some false
    else none

end Interval

/-- The constants that bound a field: integers that a float holds exactly, and finite floats. -/
def Value.bound? : Value → Option Double
  | .int i => if i.toInt.natAbs ≤ exactLimit then some (Double.ofInt i.toInt) else none
  | .float x => if x.isFinite then some x else none
  | _ => none

def Expr.fieldBound? : Expr → Option (Nat × Op × Double)
  | .call op [.ref index _ _, .lit v] _ =>
    if op.isComparison then v.bound?.map fun c => (index, op, c) else none
  | _ => none

end FederatedQuery
