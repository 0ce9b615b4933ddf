import FederatedQuery.Expr.Operator
import FederatedQuery.Types.RowType
import FederatedQuery.Value.Basic

/-!
Expressions over an input row. A reference carries the type and nullability of the field it reads, so
an expression can be reasoned about without its row type. The operands of a case are flat: condition,
result, condition, result, and last a default if there is one.
-/
namespace FederatedQuery

inductive Expr where
  | ref (index : Nat) (ty : SqlType) (nullable : Bool)
  | lit (value : Value)
  | param (index : Nat) (ty : SqlType)
  | call (op : Op) (operands : List Expr) (ty : SqlType)

namespace Expr

def type : Expr → SqlType
  | ref _ ty _ | param _ ty | call _ _ ty => ty
  | lit v => v.type

/-- The results of a case: every second operand, and the default. -/
def caseResults : List Expr → List Expr
  | [] => []
  | [otherwise] => [otherwise]
  | _ :: result :: rest => result :: caseResults rest

def firstType (exprs : List Expr) : SqlType :=
  ((exprs.map type).find? (· ≠ .null)).getD .null

def joinTypes : List SqlType → SqlType
  | [] => .any
  | ty :: rest => rest.foldl SqlType.numericJoin ty

/-- The result type of a call, from its operands. -/
def resultType (op : Op) (operands : List Expr) : SqlType :=
  let first := (operands.head?.map type).getD .any
  match op with
  | .eq | .ne | .lt | .le | .gt | .ge | .and | .or | .not
  | .isNull | .isNotNull | .isTrue | .isFalse => .boolean
  | .plus | .minus | .times | .divide | .mod => joinTypes (operands.map type)
  | .negate | .cast => first
  | .concat | .upper | .lower | .substring => .varchar none
  | .charLength => .integer
  | .case => firstType (caseResults operands)
  | .coalesce => firstType operands
  | .item | .unwind => match first with
    | .array item => item
    | _ => .any
  | .arrayValue => .array (((operands.map type).find? (· ≠ .null)).getD .any)

def apply (op : Op) (operands : List Expr) : Expr := call op operands (resultType op operands)

def trueLit : Expr := lit (.bool true)

def falseLit : Expr := lit (.bool false)

def nullLit : Expr := lit .null

def negated (e : Expr) : Expr := apply .not [e]

/-- A conjunction; true when there is nothing to join, and a single expression stands for itself. -/
def conjunction : List Expr → Expr
  | [] => trueLit
  | [e] => e
  | exprs => apply .and exprs

def disjunction : List Expr → Expr
  | [] => falseLit
  | [e] => e
  | exprs => apply .or exprs

mutual

def nullable : Expr → Bool
  | ref _ _ nullable => nullable
  | lit v => v.isNull
  | param .. => true
  | call op operands _ => match op with
    | .isNull | .isNotNull | .isTrue | .isFalse | .arrayValue => false
    | .item | .unwind => true
    | .coalesce => allNullable operands
    | .case => resultsNullable operands
    | _ => anyNullable operands

def anyNullable : List Expr → Bool
  | [] => false
  | e :: rest => e.nullable || anyNullable rest

def allNullable : List Expr → Bool
  | [] => true
  | e :: rest => e.nullable && allNullable rest

/-- A case without a default may be null. -/
def resultsNullable : List Expr → Bool
  | [] => true
  | [otherwise] => otherwise.nullable
  | _ :: result :: rest => result.nullable || resultsNullable rest

end

def isTrue : Expr → Bool
  | lit (.bool b) => b
  | _ => false

def isFalse : Expr → Bool
  | lit (.bool b) => !b
  | _ => false

def isNull : Expr → Bool
  | lit v => v.isNull
  | _ => false

def isLiteral : Expr → Bool
  | lit _ => true
  | _ => false

/-- A literal or a parameter: the same on every row. -/
def isConstant : Expr → Bool
  | lit _ | param .. => true
  | _ => false

def op? : Expr → Option Op
  | call op _ _ => some op
  | _ => none

def operands : Expr → List Expr
  | call _ operands _ => operands
  | _ => []

mutual

/-- The terms of nested conjunctions, without those that are literally true. -/
def conjuncts : Expr → List Expr
  | call op operands ty => if op = .and then conjunctsOf operands else [call op operands ty]
  | lit v => if (lit v).isTrue then [] else [lit v]
  | e => [e]

def conjunctsOf : List Expr → List Expr
  | [] => []
  | e :: rest => e.conjuncts ++ conjunctsOf rest

end

mutual

def containsUnwind : Expr → Bool
  | call op operands _ => decide (op = .unwind) || anyUnwind operands
  | _ => false

def anyUnwind : List Expr → Bool
  | [] => false
  | e :: rest => e.containsUnwind || anyUnwind rest

end

mutual

def refs : Expr → List Nat
  | ref index _ _ => [index]
  | call _ operands _ => refsOf operands
  | _ => []

def refsOf : List Expr → List Nat
  | [] => []
  | e :: rest => e.refs ++ refsOf rest

end

mutual

def params : Expr → List Nat
  | param index _ => [index]
  | call _ operands _ => paramsOf operands
  | _ => []

def paramsOf : List Expr → List Nat
  | [] => []
  | e :: rest => e.params ++ paramsOf rest

end

mutual

/-- Replaces every reference; nothing when one has no replacement. -/
def bindRefs (f : Nat → SqlType → Bool → Option Expr) : Expr → Option Expr
  | ref index ty nullable => f index ty nullable
  | call op operands ty => (bindRefsAll f operands).map fun operands => call op operands ty
  | e => some e

def bindRefsAll (f : Nat → SqlType → Bool → Option Expr) : List Expr → Option (List Expr)
  | [] => some []
  | e :: rest => match e.bindRefs f, bindRefsAll f rest with
    | some e, some rest => some (e :: rest)
    | _, _ => none

end

/-- Re-indexes references. -/
def remap (mapping : Nat → Option Nat) (e : Expr) : Option Expr :=
  e.bindRefs fun index ty nullable => (mapping index).map fun index => ref index ty nullable

def shift (offset : Nat) (e : Expr) : Expr := (e.remap fun i => some (i + offset)).getD e

def substitute (exprs : List Expr) (e : Expr) : Option Expr :=
  e.bindRefs fun index _ _ => exprs[index]?

mutual

/-- Equality of expressions, with constants compared by `Value.same`. -/
def same : Expr → Expr → Bool
  | ref i t n, ref j u m => i == j && decide (t = u) && n == m
  | lit a, lit b => a.same b
  | param i t, param j u => i == j && decide (t = u)
  | call o as t, call p bs u => decide (o = p) && sameAll as bs && decide (t = u)
  | _, _ => false

def sameAll : List Expr → List Expr → Bool
  | [], [] => true
  | a :: as, b :: bs => a.same b && sameAll as bs
  | _, _ => false

end

def isIn (e : Expr) (exprs : List Expr) : Bool := exprs.any e.same

end Expr

end FederatedQuery
