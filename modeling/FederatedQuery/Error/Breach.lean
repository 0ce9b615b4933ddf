import FederatedQuery.Cursor.Phase
import FederatedQuery.Expr.Text
import FederatedQuery.Plan.Convention
import FederatedQuery.Plan.Kind

/-!
Broken contracts: an expression, a plan or a call that an earlier stage should not have handed over.
Operators are named as in a printed plan.
-/
namespace FederatedQuery

inductive Breach where
  | fieldOutsideRow (index arity : Nat)
  | fieldOutsideType (index : Nat) (rowType : RowType)
  | fieldOutsideInput (index arity : Nat)
  | operandCount (op : Op) (expected found : Nat)
  | notEvaluable (op : Op)
  | nestedUnwind
  | unwindInside (e : Expr)
  | manyUnwinds (found : Nat)
  | conditionType (condition : Expr)
  | unwindInCondition
  | valuesArity (found : Nat) (rowType : RowType)
  | programInput (program input : RowType)
  | groupKey (index : Nat) (input : RowType)
  | aggregateArity (function : AggFunction) (found : Nat)
  | aggregateArgument (index : Nat) (input : RowType)
  | noInputs (operator : String)
  | incompatibleInput (op : SetOp) (input first : RowType)
  | sortKey (index : Nat) (input : RowType)
  | modifyInput (op : String) (input : RowType) (table : String) (rowType : RowType)
  | assignmentCount (columns sources : Nat)
  | assignedColumn (index : Nat) (table : String)
  | notRowCount (input : RowType)
  | copiedArity (operator : String) (found expected : Nat)
  | copiedInput (operator : String) (old new : RowType)
  | noInput (operator : String) (index : Nat)
  | logicalTarget
  | convertedRows (old new : RowType)
  | notExecutable (operator : String) (convention : Convention)
  | logicalConverter
  | closedCursor (call : String)
  | noCurrentRow (phase : Phase)
  | noUnwind
  | noUnwoundRow
  | noDistinctRow
  | rowGroupKey (index : Nat)
  | rowArgument (index : Nat)
  | rowSortKey (index : Nat)
  | rowUpdateColumn (index : Nat)
  | notSql (convention : Convention)
  | queryColumn (index : Nat)
  | queryAssignment (index : Nat)
  | noOperands (symbol : String)
  | noOperand (op : Op)
  | substringCall
  | itemCall
  | notPipeline (convention : Convention)
  | notModification (operator : String)
  | documentField (index : Nat)
  | documentAssignment (index : Nat)
  | templateField (index : Nat)
  | substringStart
  | itemIndex
  | foreignArtifact (kind : ConventionKind)
  | sessionOpen (transaction : Nat) (adapter : String)
  /-- A breach that its finder put into words. -/
  | stated (message : String)

namespace Breach

def field (index : Nat) : String := "$" ++ toString index

def kindName : ConventionKind → String
  | .logical => "None"
  | .pull => "PullIterator"
  | .sql => "Sql"
  | .document => "DocumentPipeline"

def message : Breach → String
  | fieldOutsideRow i n =>
    s!"field reference {field i} out of range for row of arity {n}"
  | fieldOutsideType i r => s!"field reference {field i} out of range for row type {r.text}"
  | fieldOutsideInput i n => s!"field reference {field i} out of range for input of arity {n}"
  | operandCount op expected found =>
    s!"{op.name} expects {expected} operand(s), got {found}"
  | notEvaluable op => s!"operator {op.name} is not evaluable here"
  | nestedUnwind => "nested unwind in projection"
  | unwindInside e => s!"unwind must be a top-level projection, found inside {e.text}"
  | manyUnwinds n => s!"program has {n} multi-valued projections; at most one is allowed"
  | conditionType e => s!"condition {e.text} has type {e.type.text}, expected BOOLEAN"
  | unwindInCondition => "unwind is not allowed in a condition"
  | valuesArity n r => s!"values row of arity {n} does not match row type {r.text}"
  | programInput p r => s!"program input {p.text} does not match {r.text}"
  | groupKey i r => s!"group key {field i} out of range for input {r.text}"
  | aggregateArity f n => s!"{f.name} takes exactly one argument, got {n}"
  | aggregateArgument i r => s!"aggregate argument {field i} out of range for input {r.text}"
  | noInputs operator => s!"{operator} without inputs"
  | incompatibleInput op r first =>
    s!"{op.name} input {r.text} is not compatible with {first.text}"
  | sortKey i r => s!"sort key {field i} out of range for input {r.text}"
  | modifyInput op r table expected =>
    s!"{op} input {r.text} does not match table {table} {expected.text}"
  | assignmentCount columns sources => s!"UPDATE assigns {columns} columns from {sources} sources"
  | assignedColumn i table => s!"UPDATE column {field i} out of range for table {table}"
  | notRowCount r => s!"ModifyCollect input {r.text} is not a row count"
  | copiedArity operator found expected =>
    s!"{operator} copied with {found} inputs, expected {expected}"
  | copiedInput operator old new =>
    s!"{operator} input changed row type from {old.text} to {new.text}"
  | noInput operator i => s!"{operator} has no input {i}"
  | logicalTarget => "cannot plan into the logical convention"
  | convertedRows old new => s!"converter changed row type from {old.text} to {new.text}"
  | notExecutable operator c => s!"{operator} in convention {c.text} reached the execution compiler"
  | logicalConverter => "converter from the logical convention reached the execution compiler"
  | closedCursor call => s!"{call} on a closed enumerator"
  | noCurrentRow phase => s!"current() called while the enumerator is {phase.text}"
  | noUnwind => "unwind enumerator over a program without unwind"
  | noUnwoundRow => "unwind cursor out of range"
  | noDistinctRow => "distinct cursor without a row"
  | rowGroupKey i => s!"group key {field i} out of range"
  | rowArgument i => s!"aggregate argument {field i} out of range"
  | rowSortKey i => s!"sort key {field i} out of range"
  | rowUpdateColumn i => s!"update column {field i} out of range"
  | notSql c => s!"SQL emitter handed a {c.text} fragment"
  | queryColumn i => s!"field {field i} out of range in SQL fragment"
  | queryAssignment i => s!"UPDATE column {field i} out of range"
  | noOperands symbol => s!"{symbol} without operands"
  | noOperand op => s!"{op.name} without operand"
  | substringCall => "SUBSTRING needs a string and a start"
  | itemCall => "ITEM needs an array and an index"
  | notPipeline c => s!"pipeline emitter handed a {c.text} fragment"
  | notModification operator => s!"expected a modify node, got {operator}"
  | documentField i => s!"field reference {field i} out of range"
  | documentAssignment i => s!"update assigns missing column {field i}"
  | templateField i => s!"insert template references missing {field i}"
  | substringStart => "SUBSTRING without start"
  | itemIndex => "ITEM without index"
  | foreignArtifact kind => s!"document store handed a {kindName kind} artifact"
  | sessionOpen tx adapter => s!"session for tx{tx} on {adapter} acquired twice"
  | stated message => message

end Breach

end FederatedQuery
