import FederatedQuery.Plan.Basic
import FederatedQuery.Sql.Fragment
import FederatedQuery.Sql.Scalar

/-!
The statement of a plan. Each operator adds its clauses to the fragment of its input.
-/
namespace FederatedQuery.Sql

def tableColumns (table : Table) : List String :=
  (List.range table.rowType.arity).map fun i => (table.physicalName? i).getD ""

def scanned (table : Table) : Block :=
  .ofSource (.table table.path none) [table.physicalTable] (plainColumns (tableColumns table))
    table.rowType.names

def literalRows (d : Dialect) (rows : List Row) : Except Error (List (List Term)) :=
  rows.mapM fun row => row.mapM (literalTerm d)

def literalSelect (d : Dialect) (names : List String) (filter : Option Term) (row : List Term) : Query :=
  .select { Select.empty with
    projection := List.zipWith (fun t name => (t, some name)) row names
    source := d.dualTable.map fun dual => .table [dual] none
    filter }

/-- No row at all: nulls of the right types under a false condition. -/
def emptySelect (d : Dialect) (rowType : RowType) : Query :=
  literalSelect d rowType.names (some (.binary "=" (.literal (.int 1)) (.literal (.int 0))))
    (rowType.fields.map fun f => .cast (.literal .null) (d.castName f.type))

def valuesFragment (d : Dialect) (rowType : RowType) (rows : List Row) (next : Nat) :
    Except Error (Fragment × Nat) := do
  let names := rowType.names
  match ← literalRows d rows with
  | [] => return (.finished (emptySelect d rowType) names, next)
  | row :: rest =>
    if d.valuesInFrom then
      return (.block (.ofSource (.values (row :: rest) (derivedName next) names) [derivedName next]
        (plainColumns names) names), next + 1)
    else if rest.isEmpty then return (.finished (literalSelect d names none row) names, next)
    else return (.finished (.setOp .union true ((row :: rest).map (literalSelect d names none))) names,
      next)

/-- Adds a condition: to the groups when the input has only just been grouped, else to the rows. -/
def conditionFragment (d : Dialect) (grouped : Bool) (condition : Expr) (f : Fragment) (next : Nat) :
    Except Error (Fragment × Nat) := do
  let filtered : Except Error (Fragment × Nat) := do
    let (b, next) := f.readyFor .filter next
    let t ← scalarTerm d b.fields condition
    return (.block { b with filter := some t, clauses := .filter :: b.clauses }, next)
  match f with
  | .block b =>
    if grouped && b.endsBy .groupBy then
      let t ← scalarTerm d b.fields condition
      return (.block { b with having := some t, clauses := .having :: b.clauses }, next)
    else filtered
  | .finished .. => filtered

def Fragment.renamed (names : List String) : Fragment → Fragment
  | .block b => .block { b with names }
  | .finished query _ => .finished query names

def projectFragment (d : Dialect) (projects : List Expr) (names : List String) (f : Fragment)
    (next : Nat) : Except Error (Fragment × Nat) := do
  let (b, next) := f.readyFor .projection next
  let fields ← scalarTerms d b.fields projects
  return (.block { b with fields, names, clauses := .projection :: b.clauses }, next)

def programFragment (d : Dialect) (grouped : Bool) (program : Program) (names : List String)
    (f : Fragment) (next : Nat) : Except Error (Fragment × Nat) := do
  if program.unwindPosition.isSome then .error (unwindError d)
  else
    let (f, next) ← match program.condition with
      | none => .ok (f, next)
      | some condition => conditionFragment d grouped condition f next
    if program.isIdentity then return (f.renamed names, next)
    else projectFragment d program.projects names f next

/-- Whether an aggregate without keys can take the aggregates of its grouped input as arguments. Counting
rows would count the groups, so each call needs an argument that is not a key. -/
def nests (d : Dialect) (innerKeys : Nat) (group : List Nat) (calls : List AggCall) (b : Block) : Bool :=
  d.nestedAggregates && group.isEmpty && b.endsBy .groupBy &&
    calls.all fun call => !call.args.isEmpty && call.args.all fun arg => innerKeys ≤ arg

def groupFragment (group : List Nat) (calls : List AggCall) (names : List String) (f : Fragment)
    (next : Nat) : Except Error (Fragment × Nat) := do
  let (b, next) := f.readyFor .groupBy next
  let keys ← group.mapM (fieldTerm b.fields)
  let results ← calls.mapM (aggregateTerm b.fields)
  return (.block { b with
    groupBy := keys, fields := keys ++ results, names, clauses := .groupBy :: b.clauses }, next)

/-- An aggregate over a fragment, which comes from an aggregate itself when its number of keys is
given. -/
def aggregateFragment (d : Dialect) (innerKeys : Option Nat) (group : List Nat) (calls : List AggCall)
    (names : List String) (f : Fragment) (next : Nat) : Except Error (Fragment × Nat) := do
  match innerKeys, f with
  | some keys, .block b =>
    if nests d keys group calls b then
      let fields ← calls.mapM (aggregateTerm b.fields)
      return (.block { b with fields, names, clauses := .projection :: b.clauses }, next)
    else groupFragment group calls names f next
  | _, _ => groupFragment group calls names f next

/-- Two fragments joined. A semijoin or antijoin is a test of the left rows. -/
def joinFragment (d : Dialect) (kind : JoinKind) (on : Expr) (names : List String)
    (left right : Fragment) (next : Nat) : Except Error (Fragment × Nat) := do
  let (l, next) := left.side [] next
  let (r, next) := right.side l.qualifiers next
  let on ← scalarTerm d (l.fields ++ r.fields) on
  if kind.leftOnly then
    let matching : Query := .select { Select.empty with source := some r.source, filter := some on }
    return (.block { Block.ofSource l.source l.qualifiers l.fields names with
      filter := some (.exists (kind = .anti) matching), clauses := [.filter, .source] }, next)
  else
    return (.block (.ofSource (.join kind l.source r.source on) (l.qualifiers ++ r.qualifiers)
      (l.fields ++ r.fields) names), next)

def setOpFragment (op : SetOp) (all : Bool) (names : List String) (first : Fragment)
    (rest : List Fragment) : Fragment :=
  if rest.isEmpty then first
  else .finished (.setOp op all (flattened op all true first.toQuery ++
    rest.flatMap fun f => flattened op all false f.toQuery)) names

/-- The keys of an order. Where nulls can neither be asked for nor are in place by default, a key in
front sorts them; without truth values it is a number. -/
def orderTerms (d : Dialect) (fields : List Term) (key : SortKey) :
    Except Error (List (Term × Bool × Option Bool)) := do
  let t ← fieldTerm fields key.field
  let isNull : Term := .suffixed t "IS NULL"
  return match d.nullsRendering key.nulls key.isDescending with
    | .native => [(t, key.isDescending, none)]
    | .clause first => [(t, key.isDescending, some first)]
    | .emulated first =>
      let test := if d.booleanLiterals then isNull
        else .case [(isNull, .literal (.int 1))] (some (.literal (.int 0)))
      [(test, first, none), (t, key.isDescending, none)]

/-- An order by nothing, for dialects that limit only ordered rows. -/
def anyOrder : Term × Bool × Option Bool :=
  (.subquery (.select { Select.empty with projection := [(.literal .null, none)] }), false, none)

def sortFragment (d : Dialect) (collation : Collation) (offset fetch : Option Nat) (f : Fragment)
    (next : Nat) : Except Error (Fragment × Nat) := do
  let limited := offset.isSome || fetch.isSome
  let (b, next) := f.readyFor (if collation.isEmpty then .fetch else .orderBy) next
  let keys ← collation.mapM (orderTerms d b.fields)
  let orderBy := if keys.isEmpty && limited && d.limitNeedsOrder then [anyOrder] else keys.flatten
  let clauses := (if orderBy.isEmpty then [] else [.orderBy]) ++ (if limited then [.fetch] else []) ++
    b.clauses
  return (.block { b with orderBy, offset, fetch, clauses }, next)

/-- The number of keys when the plan is an aggregate. -/
def groupKeys? : Plan → Option Nat
  | .aggregate _ group _ _ => some group.length
  | _ => none

mutual

def fragment (d : Dialect) : Plan → Nat → Except Error (Fragment × Nat)
  | .scan _ table, next => .ok (.block (scanned table), next)
  | .values h rows, next => valuesFragment d h.rowType rows next
  | .calculate h program input, next => do
    let (f, next) ← fragment d input next
    programFragment d (groupKeys? input).isSome program h.rowType.names f next
  | .aggregate h group calls input, next => do
    let (f, next) ← fragment d input next
    aggregateFragment d (groupKeys? input) group calls h.rowType.names f next
  | .join h kind on left right, next => do
    let (l, next) ← fragment d left next
    let (r, next) ← fragment d right next
    joinFragment d kind on h.rowType.names l r next
  | .setOp h op all first rest, next => do
    let (f, next) ← fragment d first next
    let (fs, next) ← fragments d rest next
    return (setOpFragment op all h.rowType.names f fs, next)
  | .sort _ collation offset fetch input, next => do
    let (f, next) ← fragment d input next
    sortFragment d collation offset fetch f next
  | .modify .., _ =>
    .error (.unsupported d.name "Modify" "data modification can only be the root of a SQL statement")
  | .collect .., _ =>
    .error (.unsupported d.name "ModifyCollect"
      s!"dialect {d.name} cannot merge several modifications into one statement")
  | .converter _ source _, _ =>
    .error (.unsupported d.name "Converter"
      s!"dialect {d.name} cannot embed a fragment in convention {source.text}")

def fragments (d : Dialect) : List Plan → Nat → Except Error (List Fragment × Nat)
  | [], next => .ok ([], next)
  | p :: rest, next => do
    let (f, next) ← fragment d p next
    let (fs, next) ← fragments d rest next
    return (f :: fs, next)

end

/-- Whether a plan reads the rows of a table as they are. -/
def scans (table : Table) : Plan → Bool
  | .scan _ scannedTable => decide (scannedTable.path = table.path)
  | _ => false

/-- The condition on the rows to change. They can only come from the changed table itself. -/
def changeCondition (d : Dialect) (op : String) (table : Table) (input : Plan) :
    Except Error (Option Expr) :=
  let foreign : Error :=
    .unsupported d.name op s!"{op} on {table.dottedPath} must read from the target table"
  if scans table input then .ok none
  else match input with
    | .calculate _ program inner =>
      if program.isIdentity && scans table inner then .ok program.condition else .error foreign
    | _ => .error foreign

def conditionTerm (d : Dialect) (fields : List Term) : Option Expr → Except Error (Option Term)
  | none => .ok none
  | some condition => (scalarTerm d fields condition).map some

def assignmentTerm (d : Dialect) (columns : List String) (assignment : Nat × Expr) :
    Except Error (String × Term) := do
  match columns[assignment.1]? with
  | none => .error (.contract (.queryAssignment assignment.1))
  | some column => return (column, ← scalarTerm d (plainColumns columns) assignment.2)

def insertSource (d : Dialect) (input : Plan) : Except Error InsertSource := do
  match input with
  | .values _ (row :: rest) => return .values (← literalRows d (row :: rest))
  | _ => return .query (← fragment d input 0).1.toQuery

def modification (d : Dialect) (table : Table) (op : ModifyOp) (input : Plan) :
    Except Error Statement := do
  let columns := tableColumns table
  match op with
  | .insert => return .insert table.path columns (← insertSource d input)
  | .update targets sources =>
    let condition ← changeCondition d "UPDATE" table input
    let assignments ← (targets.zip sources).mapM (assignmentTerm d columns)
    return .update table.path assignments (← conditionTerm d (plainColumns columns) condition)
  | .delete =>
    let condition ← changeCondition d "DELETE" table input
    return .delete table.path (← conditionTerm d (plainColumns columns) condition)

def statement (d : Dialect) : Plan → Except Error Statement
  | .modify _ table op input => modification d table op input
  | p => do return .query (← fragment d p 0).1.toQuery

end FederatedQuery.Sql
