import FederatedQuery.Value.Order

/-!
Rows as grouping keys. Two rows are one key when the order holds them equal and they are made of the
same words; an integral float has the words of its integer.
-/
namespace FederatedQuery

inductive KeyWord where
  | size (n : Nat)
  | rank (n : Nat)
  | truth (b : Bool)
  | integer (i : Int64)
  | bits (w : UInt64)
  | chars (s : String)
  | bytes (b : List UInt8)
  | days (d : Int32)
deriving DecidableEq

namespace Value

def doubleWord (x : Double) : KeyWord :=
  match x.integer? with
  | some i => .integer i
  | none => .bits x.bits

mutual

def keyWords : Value → List KeyWord
  | null => [.rank 0]
  | bool b => [.rank 1, .truth b]
  | int i => [.rank 2, .integer i]
  | float x => [.rank 2, doubleWord x]
  | string s => [.rank 3, .chars s]
  | bytes b => [.rank 4, .bytes b]
  | date d => [.rank 5, .days d]
  | timestamp t => [.rank 6, .integer t]
  | array items => .rank 7 :: .size items.length :: itemWords items

def itemWords : List Value → List KeyWord
  | [] => []
  | v :: rest => v.keyWords ++ itemWords rest

end

end Value

namespace Row

def keyWords (r : Row) : List KeyWord := .size r.length :: Value.itemWords r

/-- Whether the order holds two rows equal. -/
def equal (r s : Row) : Bool := decide (Value.compareRows r s = .eq)

/-- Whether two rows are one grouping key. -/
def sameKey (r s : Row) : Bool := decide (keyWords r = keyWords s) && equal r s

end Row

end FederatedQuery
