import FederatedQuery.Simplify.Interval
import FederatedQuery.Simplify.Rules

/-!
Predicates known to be true on every row: conjuncts in canonical form, each once.
-/
namespace FederatedQuery

structure Predicates where
  conjuncts : List Expr

namespace Predicates

def empty : Predicates := ⟨[]⟩

def contains (p : Predicates) (e : Expr) : Bool := e.isIn p.conjuncts

def insert (p : Predicates) (e : Expr) : Predicates :=
  if p.contains e.canonical then p else ⟨p.conjuncts ++ [e.canonical]⟩

def assume (p : Predicates) (e : Expr) : Predicates := e.conjuncts.foldl insert p

def ofList (exprs : List Expr) : Predicates := exprs.foldl assume empty

def union (p q : Predicates) : Predicates := q.conjuncts.foldl assume p

def intersect (p q : Predicates) : Predicates := ⟨p.conjuncts.filter q.contains⟩

/-- Re-indexes the conjuncts and drops those that refer to a field without an image. -/
def remap (mapping : Nat → Option Nat) (p : Predicates) : Predicates :=
  ofList (p.conjuncts.filterMap (Expr.remap mapping))

def isRef (index : Nat) : Expr → Bool
  | .ref i _ _ => i == index
  | _ => false

/-- Whether a conjunct can only be true when a field is not null. -/
def conjunctNotNull (index : Nat) : Expr → Bool
  | .call op operands _ =>
    match op with
    | .isNotNull | .not | .isTrue | .isFalse => (operands.head?.map (isRef index)).getD false
    | _ => op.isComparison && operands.any (isRef index)
  | e => isRef index e

def provesNotNull (p : Predicates) (index : Nat) : Bool := p.conjuncts.any (conjunctNotNull index)

def conjunctInterval? (index : Nat) (e : Expr) : Option Interval :=
  match e.fieldBound? with
  | some (i, op, c) => if i = index ∧ op ≠ .ne then some (Interval.ofComparison op c) else none
  | none => none

/-- The interval that the conjuncts on a field hold it to, if there are any. -/
def interval? (p : Predicates) (index : Nat) : Option Interval :=
  match p.conjuncts.filterMap (conjunctInterval? index) with
  | [] => none
  | first :: rest => some (rest.foldl Interval.intersect first)

end Predicates

end FederatedQuery
