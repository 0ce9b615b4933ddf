import FederatedQuery.Simplify.Predicates

/-!
The simplifier: passes from the operands up, until a pass changes nothing or the passes run out. A
result holds on the rows on which the assumed predicates are true.
-/
namespace FederatedQuery

structure Simplifier where
  predicates : Predicates
  passes : Nat

namespace Simplifier

def defaultPasses : Nat := 16

def ofPredicates (predicates : Predicates) : Simplifier := ⟨predicates, defaultPasses⟩

/-- Sets the number of passes; at least one is made. -/
def withPasses (s : Simplifier) (passes : Nat) : Simplifier := { s with passes := max passes 1 }

def assuming (s : Simplifier) (condition : Expr) : Simplifier :=
  { s with predicates := s.predicates.union (Predicates.ofList [condition]) }

/-- Replaces a boolean expression by what the predicates say of it. -/
def decideByPredicates (s : Simplifier) (e : Expr) : Expr :=
  if e.isLiteral || e.type ≠ .boolean || s.predicates.conjuncts.isEmpty then e
  else if s.predicates.contains e then Expr.trueLit
  else if s.predicates.contains e.negation then Expr.falseLit
  else
    let decided := do
      let (index, op, c) ← e.fieldBound?
      (← s.predicates.interval? index).decides op c
    match decided with
    | some b => .lit (.bool b)
    | none => e

/-- A null test of what is never null. -/
def simplifyNullTest (s : Simplifier) (op : Op) (operands : List Expr) (ty : SqlType) : Expr :=
  match operands with
  | [e] =>
    let known := !e.nullable || match e with
      | .ref index _ _ => s.predicates.provesNotNull index
      | _ => false
    if known then .lit (.bool (op = .isNotNull)) else .call op [e] ty
  | operands => .call op operands ty

def simplifyTruthTest (mode : Mode) (op : Op) (operands : List Expr) (ty : SqlType) : Expr :=
  match operands with
  | [e] =>
    if e.nullable then .call op [e] ty
    else if op = .isTrue then e
    else e.simplifyNot mode
  | operands => .call op operands ty

def reduceCall (s : Simplifier) (mode : Mode) (op : Op) (operands : List Expr) (ty : SqlType) : Expr :=
  match Expr.foldConstant? op operands ty with
  | some folded => folded
  | none => match op with
    | .and => Expr.simplifyAnd mode operands
    | .or => Expr.simplifyOr mode operands
    | .not => match operands with
      | [e] => e.simplifyNot mode
      | operands => .call op operands ty
    | .isNull | .isNotNull => s.simplifyNullTest op operands ty
    | .isTrue | .isFalse => simplifyTruthTest mode op operands ty
    | .eq | .ne | .lt | .le | .gt | .ge => Expr.simplifyComparison op operands ty
    | .case => Expr.simplifyCase operands ty
    | .coalesce => Expr.simplifyCoalesce operands ty
    | _ => .call op operands ty

mutual

/-- One pass. The operands of a conjunction or disjunction keep the mode, the conditions of a case are
conditions, and all other operands are values. -/
def reduce (s : Simplifier) (mode : Mode) : Expr → Expr
  | .call op operands ty =>
    let operands := match op with
      | .and | .or => reduceAll s mode operands
      | .case => reduceBranches s operands
      | _ => reduceAll s .value operands
    s.decideByPredicates (s.reduceCall mode op operands ty)
  | e => s.decideByPredicates e

def reduceAll (s : Simplifier) (mode : Mode) : List Expr → List Expr
  | [] => []
  | e :: rest => reduce s mode e :: reduceAll s mode rest

def reduceBranches (s : Simplifier) : List Expr → List Expr
  | [] => []
  | [otherwise] => [reduce s .value otherwise]
  | condition :: result :: rest =>
    reduce s .condition condition :: reduce s .value result :: reduceBranches s rest

end

/-- Passes until one changes nothing, and at most `passes`. -/
def iterate (s : Simplifier) (mode : Mode) : Nat → Expr → Expr
  | 0, e => e
  | passes + 1, e =>
    let next := s.reduce mode e
    if next.same e then e else iterate s mode passes next

/-- Simplifies a value; nulls stay nulls. -/
def simplify (s : Simplifier) (e : Expr) : Expr := s.iterate .value s.passes e

/-- Simplifies a condition; null may become false. -/
def simplifyCondition (s : Simplifier) (e : Expr) : Expr := s.iterate .condition s.passes e

end Simplifier

end FederatedQuery
