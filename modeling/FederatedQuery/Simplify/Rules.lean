import FederatedQuery.Expr.Eval

/-!
Simplifying one call whose operands are already simple. In value mode a rule keeps the value, null
included. In condition mode it may also turn null into false, since a filter rejects both.
-/
namespace FederatedQuery

inductive Mode where
  | value
  | condition
deriving DecidableEq

namespace Expr

/-- A literal of a type; a null gets its type from a cast. -/
def typedLiteral (v : Value) (ty : SqlType) : Expr :=
  if v.isNull ∧ ty ≠ .null ∧ ty ≠ .boolean ∧ ty ≠ .any then call .cast [nullLit] ty else lit v

/-- The value of a call on literals. What fails to evaluate is left to fail at run time. -/
def foldConstant? (op : Op) (operands : List Expr) (ty : SqlType) : Option Expr :=
  if op = .unwind ∨ op = .arrayValue ∨ operands.isEmpty ∨ !operands.all isLiteral ∨
      (op = .cast ∧ (operands.head?.map isNull) = some true) then none
  else match (call op operands ty).eval [] (fun _ => none) with
    | .ok v => some (typedLiteral v ty)
    | .error _ => none

mutual

def flatten (op : Op) : List Expr → List Expr
  | [] => []
  | e :: rest => flattenTerm op e ++ flatten op rest

def flattenTerm (op : Op) : Expr → List Expr
  | call inner operands ty => if inner = op then flatten op operands else [call inner operands ty]
  | e => [e]

end

def distinct (exprs : List Expr) : List Expr :=
  exprs.foldl (fun kept e => if e.isIn kept then kept else kept ++ [e]) []

/-- An expression that is true exactly when this one is false. -/
def negation : Expr → Expr
  | call .not [e] _ => e
  | call op operands ty => match op.negation? with
    | some negated => call negated operands ty
    | none => (call op operands ty).negated
  | e => e.negated

/-- Whether an expression is true or false on every row. -/
def isDecided (e : Expr) : Bool :=
  !e.nullable || decide (e.op? = some .isNull) || decide (e.op? = some .isNotNull)

def simplifyAnd (mode : Mode) (operands : List Expr) : Expr :=
  let all := flatten .and operands
  if all.any isFalse || (mode = .condition && all.any isNull) then falseLit
  else
    let terms := distinct (all.filter fun e => !e.isTrue && !e.isNull)
    if terms.any fun e => (mode = .condition || e.isDecided) && e.negation.isIn terms then falseLit
    else conjunction (if all.any isNull then terms ++ [nullLit] else terms)

def simplifyOr (mode : Mode) (operands : List Expr) : Expr :=
  let all := flatten .or operands
  if all.any isTrue then trueLit
  else
    let terms := distinct (all.filter fun e => !e.isFalse && !e.isNull)
    if terms.any fun e => e.isDecided && e.negation.isIn terms then trueLit
    else disjunction (if mode = .value && all.any isNull then terms ++ [nullLit] else terms)

mutual

def simplifyNot (mode : Mode) : Expr → Expr
  | lit (.bool b) => lit (.bool (!b))
  | lit .null => nullLit
  | call op operands ty => match op, operands with
    | .not, [e] => e
    | .and, operands => simplifyOr mode (simplifyNots operands)
    | .or, operands => simplifyAnd mode (simplifyNots operands)
    | op, operands => match op.negation? with
      | some negated => call negated operands ty
      | none => (call op operands ty).negated
  | e => e.negated

def simplifyNots : List Expr → List Expr
  | [] => []
  | e :: rest => simplifyNot .value e :: simplifyNots rest

end

/-- Puts a constant to the right, and decides a comparison of an expression with itself. -/
def simplifyComparison (op : Op) (operands : List Expr) (ty : SqlType) : Expr :=
  match operands with
  | [a, b] =>
    let (op, left, right) := match op.reversal? with
      | some reversed => if a.isConstant && !b.isConstant then (reversed, b, a) else (op, a, b)
      | none => (op, a, b)
    if left.same right && !left.nullable && !left.isConstant then
      lit (.bool (op = .eq || op = .le || op = .ge))
    else call op [left, right] ty
  | operands => call op operands ty

/-- A comparison in the form in which predicates are kept and looked up. -/
def canonical : Expr → Expr
  | call op operands ty =>
    if op.isComparison then simplifyComparison op operands ty else call op operands ty
  | e => e

/-- The branches of a case that can be taken, and the result when none is. -/
def liveBranches : List Expr → List Expr × Option Expr
  | [] => ([], none)
  | [otherwise] => ([], some otherwise)
  | condition :: result :: rest =>
    if condition.isTrue then ([], some result)
    else if condition.isFalse || condition.isNull then liveBranches rest
    else
      let (branches, otherwise) := liveBranches rest
      (condition :: result :: branches, otherwise)

def simplifyCase (operands : List Expr) (ty : SqlType) : Expr :=
  match liveBranches operands with
  | ([], otherwise) => otherwise.getD (typedLiteral .null ty)
  | (branches, otherwise) => call .case (branches ++ otherwise.toList) ty

/-- Operands of a coalesce that can be chosen: up to the first that is never null, without nulls and
repetitions. -/
def coalesceTerms (kept : List Expr) : List Expr → List Expr
  | [] => kept
  | e :: rest =>
    if e.isNull || e.isIn kept then coalesceTerms kept rest
    else if e.nullable then coalesceTerms (kept ++ [e]) rest
    else kept ++ [e]

def simplifyCoalesce (operands : List Expr) (ty : SqlType) : Expr :=
  match coalesceTerms [] operands with
  | [] => typedLiteral .null ty
  | [e] => e
  | terms => call .coalesce terms ty

end Expr

end FederatedQuery
