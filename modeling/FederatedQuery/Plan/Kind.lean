/-!
The flavors of joins, set operations and aggregate functions.
-/
namespace FederatedQuery

inductive JoinKind where
  | inner | left | right | full
  /-- Left rows that have a match. -/
  | semi
  /-- Left rows that have none. -/
  | anti
deriving DecidableEq

namespace JoinKind

def name : JoinKind → String
  | inner => "INNER"
  | left => "LEFT"
  | right => "RIGHT"
  | full => "FULL"
  | semi => "SEMI"
  | anti => "ANTI"

/-- Whether only the columns of the left side come out. -/
def leftOnly : JoinKind → Bool
  | semi | anti => true
  | _ => false

/-- Whether unmatched right rows come out, padded on the left. -/
def padsLeft : JoinKind → Bool
  | right | full => true
  | _ => false

/-- Whether unmatched left rows come out, padded on the right. -/
def padsRight : JoinKind → Bool
  | left | full => true
  | _ => false

end JoinKind

inductive SetOp where
  | union | intersect | minus
deriving DecidableEq

def SetOp.name : SetOp → String
  | .union => "Union"
  | .intersect => "Intersect"
  | .minus => "Minus"

inductive AggFunction where
  /-- Without arguments, counts rows. -/
  | count
  | sum | min | max | avg
deriving DecidableEq

def AggFunction.name : AggFunction → String
  | .count => "COUNT"
  | .sum => "SUM"
  | .min => "MIN"
  | .max => "MAX"
  | .avg => "AVG"

structure AggCall where
  function : AggFunction
  args : List Nat
  distinct : Bool
  name : String
deriving DecidableEq

def AggCall.text (c : AggCall) : String :=
  c.function.name ++ "(" ++ (if c.distinct then "DISTINCT " else "") ++
    ", ".intercalate (c.args.map fun i => "$" ++ toString i) ++ ")"

end FederatedQuery
