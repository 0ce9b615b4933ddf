import FederatedQuery.Error.Basic
import FederatedQuery.Plan.Traits
import FederatedQuery.Value.Order

/-!
Sorting: stable, with nulls where each key wants them, then an offset and a limit.
-/
namespace FederatedQuery.Rows

def compareByKey (key : SortKey) (a b : Value) : Ordering :=
  match a.isNull, b.isNull with
  | true, true => .eq
  | true, false => if key.nullsFirst then .lt else .gt
  | false, true => if key.nullsFirst then .gt else .lt
  | false, false => if key.isDescending then (a.compare b).swap else a.compare b

/-- The order of a collation. A key that one of the rows does not have tells nothing. -/
def compareBy : Collation → Row → Row → Ordering
  | [], _, _ => .eq
  | key :: rest, a, b =>
    let o := match a[key.field]?, b[key.field]? with
      | some x, some y => compareByKey key x y
      | _, _ => .eq
    o.then (compareBy rest a b)

/-- Puts a row in front of the rows at the end of a sorted list that it precedes. The list is given
backwards. -/
def insertBack (c : Collation) (row : Row) : List Row → List Row
  | [] => [row]
  | last :: before =>
    if compareBy c row last = .lt then last :: insertBack c row before else row :: last :: before

def sorted (c : Collation) (rows : List Row) : List Row :=
  (rows.foldl (fun backwards row => insertBack c row backwards) []).reverse

def sort (c : Collation) (offset fetch : Option Nat) (rows : List Row) : Except Error (List Row) :=
  match c.find? fun key => (rows.head?.map List.length).any (· ≤ key.field) with
  | some key => .error (.contract (.rowSortKey key.field))
  | none =>
    let rest := (sorted c rows).drop (offset.getD 0)
    .ok (match fetch with
      | some n => rest.take n
      | none => rest)

end FederatedQuery.Rows
