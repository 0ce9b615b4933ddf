import FederatedQuery.Plan.Kind
import FederatedQuery.Value.Basic

/-!
Queries as syntax. Names that depend on the dialect, of functions and of types in casts, are in it
already; the spelling of everything else is left to the text.
-/
namespace FederatedQuery.Sql

mutual

inductive Term where
  | column (qualifier : Option String) (name : String)
  | literal (value : Value)
  | param (index : Nat) (ty : SqlType)
  | binary (symbol : String) (left right : Term)
  /-- A symbol in front, `NOT` or `-`. -/
  | unary (symbol : String) (operand : Term)
  /-- A symbol behind, like `IS NULL`. -/
  | suffixed (operand : Term) (symbol : String)
  | function (name : String) (distinct : Bool) (args : List Term)
  | star
  | case (branches : List (Term × Term)) (otherwise : Option Term)
  | cast (operand : Term) (typeName : String)
  | substring (text start : Term) (length : Option Term)
  | array (items : List Term)
  | item (array index : Term)
  | exists (negated : Bool) (query : Query)
  | subquery (query : Query)

inductive Query where
  | select (block : Select)
  /-- An operation on two or more queries, from left to right. -/
  | setOp (op : SetOp) (all : Bool) (inputs : List Query)

structure Select where
  /-- Terms with their aliases; none at all stands for every column. -/
  projection : List (Term × Option String)
  source : Option Source
  filter : Option Term
  groupBy : List Term
  having : Option Term
  /-- Terms with whether they are descending and whether nulls are asked to come first. -/
  orderBy : List (Term × Bool × Option Bool)
  offset : Option Nat
  fetch : Option Nat

inductive Source where
  | table (path : List String) (label : Option String)
  | derived (query : Query) (label : String)
  | values (rows : List (List Term)) (label : String) (columns : List String)
  | join (kind : JoinKind) (left right : Source) (on : Term)

end

def Select.empty : Select := ⟨[], none, none, [], none, [], none, none⟩

inductive InsertSource where
  | values (rows : List (List Term))
  | query (query : Query)

inductive Statement where
  | query (query : Query)
  | insert (table : List String) (columns : List String) (source : InsertSource)
  | update (table : List String) (assignments : List (String × Term)) (filter : Option Term)
  | delete (table : List String) (filter : Option Term)

inductive StatementKind where
  | query | insert | update | delete
deriving DecidableEq

def Statement.kind : Statement → StatementKind
  | .query _ => .query
  | .insert .. => .insert
  | .update .. => .update
  | .delete .. => .delete

/-- Whether a statement gives a count of rows instead of rows. -/
def StatementKind.isModification (k : StatementKind) : Bool := decide (k ≠ .query)

namespace Term

def columnName? : Term → Option String
  | column _ name => some name
  | _ => none

def isAggregateName (name : String) : Bool := name ∈ ["COUNT", "SUM", "MIN", "MAX", "AVG"]

mutual

/-- Whether an aggregate is called outside subqueries. -/
def containsAggregate : Term → Bool
  | function name _ args => isAggregateName name || anyAggregate args
  | binary _ left right => left.containsAggregate || right.containsAggregate
  | unary _ operand | suffixed operand _ | cast operand _ => operand.containsAggregate
  | case branches otherwise => branchesAggregate branches || optionAggregate otherwise
  | substring text start length =>
    text.containsAggregate || start.containsAggregate || optionAggregate length
  | array items => anyAggregate items
  | item whole index => whole.containsAggregate || index.containsAggregate
  | column .. | literal _ | param .. | star | .exists .. | subquery _ => false

def anyAggregate : List Term → Bool
  | [] => false
  | t :: rest => t.containsAggregate || anyAggregate rest

def branchesAggregate : List (Term × Term) → Bool
  | [] => false
  | (condition, result) :: rest =>
    condition.containsAggregate || result.containsAggregate || branchesAggregate rest

def optionAggregate : Option Term → Bool
  | none => false
  | some t => t.containsAggregate

end

end Term

end FederatedQuery.Sql
