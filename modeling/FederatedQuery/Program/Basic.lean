import FederatedQuery.Expr.Checked
import FederatedQuery.Simplify.Basic

/-!
Programs: a filter and a list of named projections over an input row. At most one projection is an
unwind, which gives a row for each item of its array.
-/
namespace FederatedQuery

structure Program where
  input : RowType
  projects : List Expr
  condition : Option Expr
  output : RowType

namespace Program

def isUnwind (e : Expr) : Bool := e.op? = some .unwind

def checkProject (arity : Nat) (e : Expr) : Except Error Unit := do
  e.validate arity
  if isUnwind e then
    if e.operands.any Expr.containsUnwind then .error (.contract .nestedUnwind)
  else if e.containsUnwind then .error (.contract (.unwindInside e))

def checkCondition (arity : Nat) (e : Expr) : Except Error Unit := do
  e.validate arity
  if e.type ≠ .boolean ∧ e.type ≠ .null ∧ e.type ≠ .any then .error (.contract (.conditionType e))
  if e.containsUnwind then .error (.contract .unwindInCondition)

def checkUnwinds (projects : List Expr) : Except Error Unit :=
  let unwinds := (projects.filter isUnwind).length
  if 1 < unwinds then .error (.contract (.manyUnwinds unwinds)) else .ok ()

/-- A checked program. Its output fields have the types and nullability of the projections. -/
def new (input : RowType) (projects : List (Expr × String)) (condition : Option Expr) :
    Except Error Program := do
  let exprs := projects.map Prod.fst
  exprs.forM (checkProject input.arity)
  checkUnwinds exprs
  condition.forM (checkCondition input.arity)
  return ⟨input, exprs, condition, ⟨projects.map fun (e, name) => ⟨name, e.type, e.nullable⟩⟩⟩

def refsFrom : Nat → List Field → List Expr
  | _, [] => []
  | index, f :: rest => .ref index f.type f.nullable :: refsFrom (index + 1) rest

def identity (input : RowType) : Program := ⟨input, refsFrom 0 input.fields, none, input⟩

def filter (input : RowType) (condition : Expr) : Except Error Program :=
  new input ((refsFrom 0 input.fields).zip input.names) (some condition)

def project (input : RowType) (projects : List (Expr × String)) : Except Error Program :=
  new input projects none

/-- Whether expressions are the references to the positions from `index` on. -/
def areRefsFrom : Nat → List Expr → Bool
  | _, [] => true
  | index, .ref i _ _ :: rest => i == index && areRefsFrom (index + 1) rest
  | _, _ => false

def isIdentity (p : Program) : Bool :=
  decide (p.projects.length = p.input.arity) && areRefsFrom 0 p.projects

/-- Passes every row on as it is. -/
def isTrivial (p : Program) : Bool := p.condition.isNone && p.isIdentity

def unwindPosition (p : Program) : Option Nat := p.projects.findIdx? isUnwind

/-- For each output field, the input field that it is, if it is one. -/
def forwarded (p : Program) : List (Option Nat) :=
  p.projects.map fun
    | .ref index _ _ => some index
    | _ => none

def params (p : Program) : List Nat := Expr.paramsOf (p.projects ++ p.condition.toList)

/-- The program with simpler expressions, for rows on which the simplifier's predicates hold; none when
no such row passes. -/
def normalize (p : Program) (s : Simplifier) : Option Program :=
  match p.condition with
  | none => some { p with projects := p.projects.map s.simplify }
  | some condition =>
    let condition := s.simplifyCondition condition
    if condition.isTrue then some { p with projects := p.projects.map s.simplify, condition := none }
    else if condition.isFalse || condition.isNull then none
    else some { p with
      projects := p.projects.map (s.assuming condition).simplify
      condition := some condition }

def accepts (p : Program) (row : Row) (params : Bindings) : Except Error Bool :=
  match p.condition with
  | some condition => condition.test row params
  | none => .ok true

/-- The projections of a row; an unwind gives its whole array. -/
def projectRow (p : Program) (row : Row) (params : Bindings) : Except Error Row :=
  Expr.evalAll row params p.projects

def text (p : Program) : String :=
  let columns := (p.projects.zip p.output.names).map fun (e, name) => name ++ "=" ++ e.text
  "[" ++ ", ".intercalate columns ++ "]" ++ match p.condition with
    | some condition => " WHERE " ++ condition.text
    | none => ""

end Program

end FederatedQuery
