import FederatedQuery.Expr.Eval
import FederatedQuery.Proofs.Rows.Groups
import FederatedQuery.Sql.Syntax

/-!
What a query means. A block takes the rows of its source, keeps those on which its condition is true, shares
them out to groups when it is about groups, keeps the groups on which the condition on groups is true, and
computes its terms for every row or group that is left. Which blocks are about groups is left open, as not all
stores agree on it. Columns are found by name. The scalar operators and the aggregate functions are those of the
rows in process. Blocks that limit or order their rows, set operations and joins are left without a meaning.
-/
namespace FederatedQuery.Sql

/-- Rows under the names of their columns. -/
structure Relation where
  columns : List String
  rows : List Row

/-- The tables of a store by their paths. -/
abbrev Database := List String → Option Relation

/-- The columns of a source, each with the label of what it comes from. -/
abbrev Scope := List (String × String)

def meaningless (construct : String) : Error := .unsupported "SQL" construct "has no meaning here"

namespace Scope

def names (s : Scope) : List String := s.map Prod.snd

/-- Whether a name, which can be qualified, is that of a column. -/
def isNamed (qualifier : Option String) (name : String) (column : String × String) : Bool :=
  decide (column.2 = name) && qualifier.all (· = column.1)

/-- The place of the column of a name; none when there is no such column or more than one. -/
def position? (s : Scope) (qualifier : Option String) (name : String) : Option Nat :=
  if s.countP (isNamed qualifier name) = 1 then s.findIdx? (isNamed qualifier name) else none

end Scope

/-- What a term can read: a row of the source, or a group of rows. -/
structure Reading where
  column : Option String → String → Except Error Value
  aggregate : AggFunction → Bool → List Term → Except Error Value
  /-- The values of all columns. -/
  whole : Except Error Row

def unaryOp? : String → Option Op
  | "NOT" => some .not
  | "-" => some .negate
  | _ => none

def suffixOp? : String → Option Op
  | "IS NULL" => some .isNull
  | "IS NOT NULL" => some .isNotNull
  | "IS TRUE" => some .isTrue
  | "IS FALSE" => some .isFalse
  | _ => none

def aggregate? : String → Option AggFunction
  | "COUNT" => some .count
  | "SUM" => some .sum
  | "MIN" => some .min
  | "MAX" => some .max
  | "AVG" => some .avg
  | _ => none

/-- The right side counts only when the left is not false. -/
def conjoined (left right : Except Error Value) : Except Error Value := do
  match ← (← left).truth with
  | some false => return .bool false
  | t => return (t.and (← (← right).truth)).toValue

/-- The right side counts only when the left is not true. -/
def disjoined (left right : Except Error Value) : Except Error Value := do
  match ← (← left).truth with
  | some true => return .bool true
  | t => return (t.or (← (← right).truth)).toValue

def strictly (op : Op) (left right : Except Error Value) : Except Error Value := do
  op.applyValues [← left, ← right] .any

def applyBinary (symbol : String) (left right : Except Error Value) : Except Error Value :=
  match symbol with
  | "AND" => conjoined left right
  | "OR" => disjoined left right
  | "=" => strictly .eq left right
  | "<>" => strictly .ne left right
  | "<" => strictly .lt left right
  | "<=" => strictly .le left right
  | ">" => strictly .gt left right
  | ">=" => strictly .ge left right
  | "+" => strictly .plus left right
  | "-" => strictly .minus left right
  | "*" => strictly .times left right
  | "/" => strictly .divide left right
  | _ => .error (meaningless symbol)

def applyUnary (symbol : String) (op : Option Op) (operand : Except Error Value) : Except Error Value :=
  match op with
  | some op => do op.applyValues [← operand] .any
  | none => .error (meaningless symbol)

namespace Term

mutual

def eval (r : Reading) (params : Bindings) : Term → Except Error Value
  | column qualifier name => r.column qualifier name
  | literal v => .ok v
  | param index _ => Expr.binding params index
  | binary symbol left right => applyBinary symbol (left.eval r params) (right.eval r params)
  | unary symbol operand => applyUnary symbol (unaryOp? symbol) (operand.eval r params)
  | suffixed operand symbol => applyUnary symbol (suffixOp? symbol) (operand.eval r params)
  | function name distinct args => match aggregate? name with
    | some f => r.aggregate f distinct args
    | none => if name = "COALESCE" then evalFirst r params args else .error (meaningless name)
  | case branches otherwise => evalBranches r params (evalDefault r params otherwise) branches
  | star => .error (meaningless "*")
  | cast .. => .error (meaningless "CAST")
  | substring .. => .error (meaningless "SUBSTRING")
  | array _ => .error (meaningless "ARRAY")
  | item .. => .error (meaningless "ITEM")
  | .exists .. => .error (meaningless "EXISTS")
  | subquery _ => .error (meaningless "subquery")

/-- The first value that is not null. -/
def evalFirst (r : Reading) (params : Bindings) : List Term → Except Error Value
  | [] => .ok .null
  | t :: rest => do
    let v ← t.eval r params
    if v.isNull then evalFirst r params rest else return v

/-- The result of the first branch whose condition is true. -/
def evalBranches (r : Reading) (params : Bindings) (otherwise : Except Error Value) :
    List (Term × Term) → Except Error Value
  | [] => otherwise
  | (condition, result) :: rest => do
    match ← (← condition.eval r params).truth with
    | some true => result.eval r params
    | _ => evalBranches r params otherwise rest

def evalDefault (r : Reading) (params : Bindings) : Option Term → Except Error Value
  | none => .ok .null
  | some t => t.eval r params

end

/-- Unknown counts as false. -/
def test (r : Reading) (params : Bindings) (t : Term) : Except Error Bool := do
  return (← (← t.eval r params).truth).getD false

end Term

def Reading.ofRow (scope : Scope) (row : Row) : Reading where
  column qualifier name := match scope.position? qualifier name with
    | some i => Expr.field row i
    | none => .error (meaningless name)
  aggregate f _ _ := .error (meaningless f.name)
  whole := .ok row

/-- The terms whose values an aggregate function takes; counting rows takes none. -/
def arguments : List Term → List Term
  | [.star] => []
  | terms => terms

def Term.position? (scope : Scope) : Term → Option Nat
  | .column qualifier name => scope.position? qualifier name
  | _ => none

/-- A group of rows. Of its columns, those it is grouped by have one value. -/
def Reading.ofGroup (scope : Scope) (params : Bindings) (groupBy : List Term) (group : Row × List Row) : Reading where
  column qualifier name := match scope.position? qualifier name with
    | some i => match groupBy.findIdx? fun t => t.position? scope == some i with
      | some k => Expr.field group.1 k
      | none => .error (meaningless name)
    | none => .error (meaningless name)
  aggregate f distinct terms := do
    let inputs ← group.2.mapM fun row => (arguments terms).mapM (Term.eval (.ofRow scope row) params)
    let s ← Rows.callState ⟨f, List.range (arguments terms).length, distinct, f.name⟩ inputs
    return s.acc.result
  whole := .error (meaningless "*")

/-- The members that pass a test. -/
def passing {α : Type} (test : α → Except Error Bool) : List α → Except Error (List α)
  | [] => .ok []
  | a :: rest => do
    let passes ← test a
    let kept ← passing test rest
    return if passes then a :: kept else kept

/-- The members on which a condition is true, if there is one. -/
def satisfying {α : Type} (test : Term → α → Except Error Bool) (condition : Option Term) (members : List α) :
    Except Error (List α) :=
  match condition with
  | none => .ok members
  | some t => passing (test t) members

/-- Rows shared out by the values of terms; all of them to one group when there are no terms. -/
def grouped (scope : Scope) (params : Bindings) (groupBy : List Term) (rows : List Row) :
    Except Error (List (Row × List Row)) := do
  let keys ← rows.mapM fun row => groupBy.mapM (Term.eval (.ofRow scope row) params)
  return if groupBy.isEmpty then [([], rows)] else Rows.Waiting.ofPairs (keys.zip rows)

namespace Select

section Units

variable (groups : Select → Bool) (scope : Scope) (params : Bindings) (rows : List Row) (s : Select)

/-- The rows, or the groups that they form where the block is about groups. -/
def units : Except Error (List Reading) :=
  if groups s then (grouped scope params s.groupBy rows).map (List.map (.ofGroup scope params s.groupBy))
  else .ok (rows.map (.ofRow scope))

/-- The rows or groups for which the block gives a row. -/
def readings : Except Error (List Reading) := do
  let kept ← satisfying (fun t row => t.test (.ofRow scope row) params) s.filter rows
  let all ← s.units groups scope params kept
  satisfying (fun t r => t.test r params) s.having all

end Units

/-- The column of a term: its alias, or the column that it is. -/
def columnName (term : Term × Option String) : String := term.2.getD (term.1.columnName?.getD "")

def columns (scope : Scope) (s : Select) : List String :=
  if s.projection.isEmpty then scope.names else s.projection.map columnName

def row (params : Bindings) (s : Select) (r : Reading) : Except Error Row :=
  if s.projection.isEmpty then r.whole else s.projection.mapM fun (t, _) => t.eval r params

def relation (groups : Select → Bool) (scope : Scope) (params : Bindings) (rows : List Row) (s : Select) :
    Except Error Relation :=
  if !s.orderBy.isEmpty || s.offset.isSome || s.fetch.isSome then .error (meaningless "ORDER BY")
  else do return ⟨s.columns scope, ← (← s.readings groups scope params rows).mapM (s.row params)⟩

/-- Whether a block groups, has a condition on groups or calls an aggregate. -/
def isGrouped (s : Select) : Bool :=
  !s.groupBy.isEmpty || s.having.isSome || s.projection.any fun (t, _) => t.containsAggregate

end Select

section Meaning

variable (groups : Select → Bool) (db : Database) (params : Bindings)

mutual

def Query.meaningBy : Query → Except Error Relation
  | .select block => block.meaningBy
  | .setOp op .. => .error (meaningless op.name)

def Select.meaningBy : Select → Except Error Relation
  | ⟨projection, source, filter, groupBy, having, orderBy, offset, fetch⟩ => do
    let (scope, rows) ← sourceMeaningBy source
    Select.relation groups scope params rows ⟨projection, source, filter, groupBy, having, orderBy, offset, fetch⟩

/-- Without a source there is one row, without columns. -/
def sourceMeaningBy : Option Source → Except Error (Scope × List Row)
  | none => .ok ([], [[]])
  | some source => source.meaningBy

def Source.meaningBy : Source → Except Error (Scope × List Row)
  | .table path label => match db path with
    | some r => .ok (r.columns.map (label.getD (path.getLast?.getD ""), ·), r.rows)
    | none => .error (meaningless (".".intercalate path))
  | .derived query label => do
    let r ← query.meaningBy
    return (r.columns.map (label, ·), r.rows)
  | .values _ label _ => .error (meaningless label)
  | .join kind .. => .error (meaningless kind.name)

end

end Meaning

/-- The meaning where any clause or term about groups makes a block one about groups. -/
def Query.meaning (db : Database) (params : Bindings) (q : Query) : Except Error Relation :=
  q.meaningBy Select.isGrouped db params

end FederatedQuery.Sql
