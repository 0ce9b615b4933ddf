import FederatedQuery.Plan.Basic
import FederatedQuery.Rows.Waiting

/-!
Changes to the rows of a table. The input of an update or a deletion is rows of the table; each takes
one stored row that has the same key.
-/
namespace FederatedQuery.Rows

/-- Replaces every row for which there is a replacement, and counts them. -/
def updateWhere (replacement : Row → Except Error (Option Row)) (rows : List Row) :
    Except Error (List Row × Nat) := do
  let replacements ← rows.mapM replacement
  return ((rows.zip replacements).map (fun (row, next) => next.getD row),
    (replacements.filter Option.isSome).length)

/-- Removes every row on which the test succeeds, and counts them. -/
def deleteWhere (doomed : Row → Except Error Bool) (rows : List Row) :
    Except Error (List Row × Nat) := do
  let marks ← rows.mapM doomed
  return (((rows.zip marks).filter fun (_, mark) => !mark).map Prod.fst, (marks.filter id).length)

/-- The stored rows with each replaced by what waits for its key, and how many were. -/
def replaceAll : Waiting Row → List Row → List Row × Nat
  | _, [] => ([], 0)
  | waiting, row :: rest => match waiting.take row with
    | some (next, waiting) =>
      let (rows, n) := replaceAll waiting rest
      (next :: rows, n + 1)
    | none =>
      let (rows, n) := replaceAll waiting rest
      (row :: rows, n)

/-- The stored rows without one for each doomed row of the same key, and how many went. -/
def removeAll : Waiting Row → List Row → List Row × Nat
  | _, [] => ([], 0)
  | doomed, row :: rest => match doomed.take row with
    | some (_, doomed) =>
      let (rows, n) := removeAll doomed rest
      (rows, n + 1)
    | none =>
      let (rows, n) := removeAll doomed rest
      (row :: rows, n)

/-- A row with columns set one after the other to expressions over the row as it was. -/
def assign (params : Bindings) (row : Row) : List (Nat × Expr) → Row → Except Error Row
  | [], next => .ok next
  | (column, source) :: rest, next => do
    if next.length ≤ column then .error (.contract (.rowUpdateColumn column))
    assign params row rest (next.set column (← source.eval row params))

/-- The rows of a table after a change with the given input, and the number of changed rows. -/
def change (op : ModifyOp) (params : Bindings) (input stored : List Row) :
    Except Error (List Row × Nat) :=
  match op with
  | .insert => .ok (stored ++ input, input.length)
  | .update columns sources => do
    let changes ← input.mapM fun row => do return (row, ← assign params row (columns.zip sources) row)
    return replaceAll (.ofPairs changes) stored
  | .delete => .ok (removeAll (waitingRows input) stored)

/-- The one row that a modification gives: how many rows it concerns, up to the greatest integer. -/
def countRow (n : Nat) : Row := [.int (Int64.ofInt (min n Int64.maxValue.toInt))]

end FederatedQuery.Rows
