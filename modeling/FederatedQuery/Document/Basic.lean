import FederatedQuery.Double.Basic

/-!
Documents as a document store exchanges them. The entries of an object keep the order in which their
keys first came.
-/
namespace FederatedQuery

inductive Document where
  | null
  | bool (b : Bool)
  | int (i : Int)
  | float (x : Double)
  | string (s : String)
  | array (items : List Document)
  | object (entries : List (String × Document))

abbrev Entries := List (String × Document)

namespace Entries

/-- Sets a key: in its place if it is there, and else at the end. -/
def put (key : String) (value : Document) : Entries → Entries
  | [] => [(key, value)]
  | (k, v) :: rest => if k = key then (k, value) :: rest else (k, v) :: put key value rest

def keys (entries : Entries) : List String := entries.map Prod.fst

def get? (entries : Entries) (key : String) : Option Document := entries.lookup key

def ofPairs (pairs : List (String × Document)) : Entries :=
  pairs.foldl (fun entries (key, value) => entries.put key value) []

end Entries

namespace Document

def single (key : String) (value : Document) : Document := object [(key, value)]

def text? : Document → Option String
  | string s => some s
  | _ => none

def entries? : Document → Option Entries
  | object entries => some entries
  | _ => none

def get? (d : Document) (key : String) : Option Document := d.entries?.bind (·.get? key)

def int64? : Document → Option Int64
  | int i => FederatedQuery.int64? i
  | _ => none

def nat64? : Document → Option Nat
  | int i => if 0 ≤ i ∧ i < UInt64.size then some i.toNat else none
  | _ => none

end Document

end FederatedQuery
