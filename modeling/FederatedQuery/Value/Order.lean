import FederatedQuery.Value.Basic

/-!
The order behind sorting, grouping and duplicate elimination. Values of different classes are ordered
by class: nulls, booleans, numbers, strings, bytes, dates, timestamps, arrays. Rows are compared column
by column, and a row that ends first comes first.
-/
namespace FederatedQuery

def compareNats : List Nat → List Nat → Ordering
  | [], [] => .eq
  | [], _ :: _ => .lt
  | _ :: _, [] => .gt
  | a :: as, b :: bs => (compare a b).then (compareNats as bs)

/-- An integer against a float: exactly when the float is an integer of sixty-four bits, and else as
floats. -/
def compareIntDouble (i : Int64) (x : Double) : Ordering :=
  match x.integer? with
  | some j => compare i.toInt j.toInt
  | none => (Double.ofInt i.toInt).totalCompare x

namespace Value

mutual

def compare : Value → Value → Ordering
  | null, null => .eq
  | bool a, bool b => Ord.compare a.toNat b.toNat
  | int a, int b => Ord.compare a.toInt b.toInt
  | float a, float b => a.totalCompare b
  | int a, float b => compareIntDouble a b
  | float a, int b => (compareIntDouble b a).swap
  | string a, string b => compareNats (a.toList.map Char.toNat) (b.toList.map Char.toNat)
  | bytes a, bytes b => compareNats (a.map UInt8.toNat) (b.map UInt8.toNat)
  | date a, date b => Ord.compare a.toInt b.toInt
  | timestamp a, timestamp b => Ord.compare a.toInt b.toInt
  | array a, array b => compareRows a b
  | a, b => Ord.compare a.rank b.rank

def compareRows : List Value → List Value → Ordering
  | [], [] => .eq
  | [], _ :: _ => .lt
  | _ :: _, [] => .gt
  | a :: as, b :: bs => (a.compare b).then (compareRows as bs)

end

end Value

end FederatedQuery
