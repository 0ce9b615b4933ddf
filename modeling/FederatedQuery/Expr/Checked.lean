import FederatedQuery.Error.Basic

/-!
Expressions checked against the row they are for.
-/
namespace FederatedQuery.Expr

def input (rowType : RowType) (index : Nat) : Except Error Expr :=
  match rowType.fields[index]? with
  | some f => .ok (ref index f.type f.nullable)
  | none => .error (.contract (.fieldOutsideType index rowType))

/-- Refuses a reference outside the first `arity` fields. -/
def validate (arity : Nat) (e : Expr) : Except Error Unit :=
  match e.refs.find? (arity ≤ ·) with
  | some index => .error (.contract (.fieldOutsideInput index arity))
  | none => .ok ()

end FederatedQuery.Expr
