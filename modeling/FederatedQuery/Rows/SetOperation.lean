import FederatedQuery.Plan.Kind
import FederatedQuery.Rows.Waiting

/-!
Set operations on two lists of rows, in the order of the left rows. With `all` each right row stands
for one left row; otherwise rows come out once.
-/
namespace FederatedQuery.Rows

def hasKey (rows : List Row) (row : Row) : Bool := rows.any (Row.sameKey row)

/-- Keeps the first row of each key, leaving out the keys seen before. -/
def distinctFrom (seen : List Row) : List Row → List Row
  | [] => []
  | row :: rest =>
    if hasKey seen row then distinctFrom seen rest else row :: distinctFrom (seen ++ [row]) rest

def distinct (rows : List Row) : List Row := distinctFrom [] rows

/-- The left rows for each of which a row of its key waits. -/
def intersectAll : List Row → Waiting Row → List Row
  | [], _ => []
  | row :: rest, waiting => match waiting.take row with
    | some (_, waiting) => row :: intersectAll rest waiting
    | none => intersectAll rest waiting

/-- The left rows for which no row of their key waits any more. -/
def minusAll : List Row → Waiting Row → List Row
  | [], _ => []
  | row :: rest, waiting => match waiting.take row with
    | some (_, waiting) => minusAll rest waiting
    | none => row :: minusAll rest waiting

def setOperation (op : SetOp) (all : Bool) (left right : List Row) : List Row :=
  match op, all with
  | .union, true => left ++ right
  | .union, false => distinct (left ++ right)
  | .intersect, true => intersectAll left (waitingRows right)
  | .intersect, false => distinct (left.filter (hasKey (distinct right)))
  | .minus, true => minusAll left (waitingRows right)
  | .minus, false => distinct (left.filter fun row => !hasKey (distinct right) row)

end FederatedQuery.Rows
