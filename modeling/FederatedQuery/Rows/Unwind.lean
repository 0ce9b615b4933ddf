import FederatedQuery.Program.Basic

/-!
Rows that a program makes of one row. An unwind makes one for each item of its array, and none of an
empty array or a null.
-/
namespace FederatedQuery.Rows

def expand (position : Nat) (projected : Row) : Except Error (List Row) :=
  match projected[position]? with
  | some (.array items) => .ok (items.map fun item => projected.set position item)
  | some .null | none => .ok []
  | some other => .error (.eval (.notArray other))

def unwindRow (program : Program) (position : Nat) (params : Bindings) (row : Row) :
    Except Error (List Row) := do
  if ← program.accepts row params then expand position (← program.projectRow row params) else return []

end FederatedQuery.Rows
