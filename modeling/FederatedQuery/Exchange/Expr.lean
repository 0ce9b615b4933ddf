import FederatedQuery.Exchange.Value
import FederatedQuery.Program.Basic

/-!
Expressions and programs as documents. A call names its operator and its type; without a type it has
the one that its operands give it.
-/
namespace FederatedQuery.Exchange

def operators : List (String × Op) :=
  [("Eq", .eq), ("Ne", .ne), ("Lt", .lt), ("Le", .le), ("Gt", .gt), ("Ge", .ge), ("And", .and),
    ("Or", .or), ("Not", .not), ("IsNull", .isNull), ("IsNotNull", .isNotNull), ("IsTrue", .isTrue),
    ("IsFalse", .isFalse), ("Plus", .plus), ("Minus", .minus), ("Times", .times),
    ("Divide", .divide), ("Mod", .mod), ("Negate", .negate), ("Concat", .concat),
    ("Upper", .upper), ("Lower", .lower), ("CharLength", .charLength), ("Substring", .substring),
    ("Cast", .cast), ("Case", .case), ("Coalesce", .coalesce), ("Item", .item),
    ("ArrayValue", .arrayValue), ("Unwind", .unwind)]

mutual

def readExpr : Document → Read Expr
  | .array [.string "$", index, ty, mayBeNull] => do
    return .ref (← natural index) (← readType ty) (← boolean mayBeNull)
  | .array [.string "lit", v] => do return .lit (← readValue v)
  | .array [.string "?", index, ty] => do return .param (← natural index) (← readType ty)
  | .array (op :: ty :: operands) => do
    let op ← wordFor operators op
    let operands ← readExprs operands
    match ← nullable readType ty with
    | some ty => return .call op operands ty
    | none => return .apply op operands
  | _ => expected "expression"

def readExprs : List Document → Read (List Expr)
  | [] => .ok []
  | d :: rest => do
    let e ← readExpr d
    return e :: (← readExprs rest)

end

mutual

def ofExpr : Expr → Document
  | .ref index ty mayBeNull => .array [.string "$", ofNat index, ofType ty, .bool mayBeNull]
  | .lit v => .array [.string "lit", ofValue v]
  | .param index ty => .array [.string "?", ofNat index, ofType ty]
  | .call op operands ty => .array (toWord operators op :: ofType ty :: ofExprs operands)

def ofExprs : List Expr → List Document
  | [] => []
  | e :: rest => ofExpr e :: ofExprs rest

end

/-- A renumbering of fields: the new position of each, or null for one that goes. -/
def readMapping (d : Document) : Read (Nat → Option Nat) := do
  let targets ← listOf (nullable natural) d
  return fun i => (targets[i]?).getD none

def readProjection : Document → Read (Expr × String)
  | .array [e, name] => do return (← readExpr e, ← text name)
  | _ => expected "projection"

/-- A program over a row type: a filter, projections, both or neither. -/
def readProgram (d : Document) : Read Program := do
  let input ← field d "fields" readRowType
  let projects ← option d "projects" (listOf readProjection)
  let condition ← option d "where" readExpr
  match projects, condition with
  | some projects, none => checked (Program.project input projects)
  | some projects, some condition => checked (Program.new input projects (some condition))
  | none, some condition => checked (Program.filter input condition)
  | none, none => return Program.identity input

end FederatedQuery.Exchange
