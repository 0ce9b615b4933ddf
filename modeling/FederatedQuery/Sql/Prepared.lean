import FederatedQuery.Sql.Compose
import FederatedQuery.Sql.Presets
import FederatedQuery.Sql.Text

/-!
Statements as text, ready to be sent to the system that runs them.
-/
namespace FederatedQuery.Sql

structure Prepared where
  text : String
  dialect : String
  params : List Nat
  rowType : RowType
  kind : StatementKind

def boundValue (params : Bindings) (index : Nat) : Except Error Value :=
  match params index with
  | some v => .ok v
  | none => .error (.unboundParameter index)

def Prepared.bind (q : Prepared) (params : Bindings) : Except Error (List Value) :=
  q.params.mapM (boundValue params)

/-- The statement of a plan in a dialect, whatever the convention of the plan. -/
def prepare (d : Dialect) (p : Plan) : Except Error Prepared := do
  let s ← statement d p
  let (text, params) := s.render d
  return ⟨text, d.name, params, p.rowType, s.kind⟩

/-- The dialect with a name, or the failure that there is none. -/
def findDialect (dialects : List Dialect) (name : String) : Except Error Dialect :=
  match dialects.find? (·.name = name) with
  | some d => .ok d
  | none => .error (.unsupported name "dialect" s!"no SQL dialect registered under '{name}'")

/-- The dialect that a plan's convention names. -/
def planDialect (dialects : List Dialect) (p : Plan) : Except Error Dialect :=
  match p.convention with
  | .sql name => findDialect dialects name
  | c => .error (.contract (.notSql c))

def emit (dialects : List Dialect) (p : Plan) : Except Error Prepared := do
  prepare (← planDialect dialects p) p

end FederatedQuery.Sql
