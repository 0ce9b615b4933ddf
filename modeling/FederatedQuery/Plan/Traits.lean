import FederatedQuery.Plan.Convention

/-!
Physical traits of an operator: its convention, the order of its output and how its rows are spread.
-/
namespace FederatedQuery

inductive Direction where
  | ascending
  | descending
deriving DecidableEq

inductive NullOrder where
  | first
  | last
  /-- Nulls sort as the highest values. -/
  | unspecified
deriving DecidableEq

structure SortKey where
  field : Nat
  direction : Direction
  nulls : NullOrder
deriving DecidableEq

abbrev Collation := List SortKey

inductive Distribution where
  | any
  | singleton
  | hash (keys : List Nat)
  | range (keys : List Nat)
  | roundRobin
  | broadcast
  | random
deriving DecidableEq

structure Traits where
  convention : Convention
  collation : Collation
  distribution : Distribution
deriving DecidableEq

def fieldList (fields : List Nat) : String :=
  "[" ++ ", ".intercalate (fields.map toString) ++ "]"

namespace SortKey

def isDescending (k : SortKey) : Bool := decide (k.direction = .descending)

/-- Whether nulls come first once the default is resolved. -/
def nullsFirst (k : SortKey) : Bool :=
  match k.nulls with
  | .first => true
  | .last => false
  | .unspecified => k.isDescending

def text (k : SortKey) : String :=
  "$" ++ toString k.field ++ (if k.isDescending then " DESC" else "") ++
    match k.nulls with
    | .first => " NULLS FIRST"
    | .last => " NULLS LAST"
    | .unspecified => ""

end SortKey

namespace Collation

/-- An order satisfies every leading part of itself. -/
def satisfies (c required : Collation) : Bool := required.isPrefixOf c

/-- Re-indexes the keys up to the first whose field has no image. -/
def remap (mapping : Nat → Option Nat) : Collation → Collation
  | [] => []
  | k :: rest => match mapping k.field with
    | some field => { k with field } :: remap mapping rest
    | none => []

def text (c : Collation) : String := "[" ++ ", ".intercalate (c.map SortKey.text) ++ "]"

end Collation

namespace Distribution

def satisfies (d required : Distribution) : Bool := decide (required = any ∨ d = required)

def text : Distribution → String
  | any => "any"
  | singleton => "single"
  | hash keys => "hash" ++ fieldList keys
  | range keys => "range" ++ fieldList keys
  | roundRobin => "rr"
  | broadcast => "broadcast"
  | random => "random"

end Distribution

namespace Traits

def logical : Traits := ⟨.logical, [], .any⟩

/-- Whether every required trait is there; a logical requirement takes any convention. -/
def satisfies (t required : Traits) : Bool :=
  decide (required.convention = .logical ∨ t.convention = required.convention) &&
    Collation.satisfies t.collation required.collation && t.distribution.satisfies required.distribution

def text (t : Traits) : String :=
  t.convention.text ++ (if t.collation.isEmpty then "" else "." ++ Collation.text t.collation) ++
    if t.distribution = .any then "" else "." ++ t.distribution.text

end Traits

end FederatedQuery
