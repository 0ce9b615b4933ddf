import FederatedQuery.Value.Key

/-!
What waits under the keys of rows, in the order in which it came. The first row of a key opens an entry,
and a row belongs to the first entry whose key it shares.
-/
namespace FederatedQuery.Rows

abbrev Waiting (α : Type) := List (Row × List α)

namespace Waiting

variable {α : Type}

def put (row : Row) (a : α) : Waiting α → Waiting α
  | [] => [(row, [a])]
  | (key, queue) :: rest =>
    if Row.sameKey row key then (key, queue ++ [a]) :: rest else (key, queue) :: put row a rest

def ofPairs (pairs : List (Row × α)) : Waiting α :=
  pairs.foldl (fun waiting (row, a) => waiting.put row a) []

/-- Takes what has waited longest under a row's key. -/
def take (row : Row) : Waiting α → Option (α × Waiting α)
  | [] => none
  | (key, queue) :: rest =>
    if Row.sameKey row key then
      match queue with
      | [] => none
      | a :: queue => some (a, (key, queue) :: rest)
    else (take row rest).map fun (a, rest) => (a, (key, queue) :: rest)

end Waiting

def waitingRows (rows : List Row) : Waiting Row := .ofPairs (rows.map fun row => (row, row))

end FederatedQuery.Rows
