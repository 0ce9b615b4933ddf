import FederatedQuery.Plan.Basic

/-!
Building plans. Field references and input types are checked, and the row type is derived.
-/
namespace FederatedQuery.Plan

def logicalHead (rowType : RowType) : Head := ⟨rowType, .logical⟩

def ofTable (table : Table) : Plan := scan (logicalHead table.rowType) table

def ofRows (rowType : RowType) (rows : List Row) : Except Error Plan :=
  match rows.find? fun row => row.length ≠ rowType.arity with
  | some row => .error (.contract (.valuesArity row.length rowType))
  | none => .ok (values (logicalHead rowType) rows)

def run (input : Plan) (program : Program) : Except Error Plan :=
  if program.input.compatible input.rowType then
    .ok (calculate (logicalHead program.output) program input)
  else .error (.contract (.programInput program.input input.rowType))

def filter (input : Plan) (condition : Expr) : Except Error Plan := do
  input.run (← Program.filter input.rowType condition)

def project (input : Plan) (projects : List (Expr × String)) : Except Error Plan := do
  input.run (← Program.project input.rowType projects)

/-- The column of an aggregate call. Without group keys the input can be empty, and then everything but
a count is null. -/
def callField (input : RowType) (grouped : Bool) (call : AggCall) : Except Error Field := do
  if call.function ≠ .count ∧ call.args.length ≠ 1 then
    .error (.contract (.aggregateArity call.function call.args.length))
  match call.args.find? (input.arity ≤ ·) with
  | some index => .error (.contract (.aggregateArgument index input))
  | none => match call.function, call.args.head?.bind (input.fields[·]?) with
    | .count, _ => return ⟨call.name, .bigInt, false⟩
    | .avg, arg => return ⟨call.name, .double, !grouped || (arg.map Field.nullable).getD true⟩
    | function, arg =>
      let ty := (arg.map Field.type).getD .any
      return ⟨call.name, if function = .sum ∧ ty.isIntegral then .bigInt else ty,
        !grouped || (arg.map Field.nullable).getD true⟩

def groupField (input : RowType) (index : Nat) : Except Error Field :=
  match input.fields[index]? with
  | some field => .ok field
  | none => .error (.contract (.groupKey index input))

def group (input : Plan) (keys : List Nat) (calls : List AggCall) : Except Error Plan := do
  let keyFields ← keys.mapM (groupField input.rowType)
  let callFields ← calls.mapM (callField input.rowType !keys.isEmpty)
  let rowType : RowType := ⟨RowType.freshFields [] (keyFields ++ callFields)⟩
  return aggregate (logicalHead rowType) keys calls input

def joinOn (left right : Plan) (kind : JoinKind) (on : Expr) : Except Error Plan := do
  let joined := left.rowType.join right.rowType kind.padsLeft kind.padsRight
  on.validate joined.arity
  return join (logicalHead (if kind.leftOnly then left.rowType else joined)) kind on left right

/-- A column is nullable when it is in one of the inputs. -/
def widen (fields : List Field) (others : List Field) : List Field :=
  (fields.zip others).map fun (f, other) => { f with nullable := f.nullable || other.nullable }

def setOperation (op : SetOp) (all : Bool) : List Plan → Except Error Plan
  | [] => .error (.contract (.noInputs op.name))
  | first :: rest =>
    match rest.find? fun input => !input.rowType.compatible first.rowType with
    | some input => .error (.contract (.incompatibleInput op input.rowType first.rowType))
    | none =>
      let fields := (rest.map (·.rowType.fields)).foldl widen first.rowType.fields
      .ok (setOp (logicalHead ⟨fields⟩) op all first rest)

def sortBy (input : Plan) (collation : Collation) (offset fetch : Option Nat) : Except Error Plan :=
  match collation.find? fun key => input.rowType.arity ≤ key.field with
  | some key => .error (.contract (.sortKey key.field input.rowType))
  | none =>
    .ok (sort ⟨input.rowType, { Traits.logical with collation }⟩ collation offset fetch input)

def checkAssignments (table : Table) (input : RowType) (columns : List Nat) (sources : List Expr) :
    Except Error Unit := do
  if columns.length ≠ sources.length then
    .error (.contract (.assignmentCount columns.length sources.length))
  match columns.find? (table.rowType.arity ≤ ·) with
  | some column => .error (.contract (.assignedColumn column table.name))
  | none => sources.forM (Expr.validate input.arity)

def modifyTable (table : Table) (op : ModifyOp) (input : Plan) : Except Error Plan := do
  if !input.rowType.compatible table.rowType then
    .error (.contract (.modifyInput op.name input.rowType table.name table.rowType))
  match op with
  | .update columns sources => checkAssignments table input.rowType columns sources
  | _ => pure ()
  return modify (logicalHead .rowCount) table op input

def collectCounts (all : Bool) (inputs : List Plan) : Except Error Plan :=
  match inputs with
  | [] => .error (.contract (.noInputs "ModifyCollect"))
  | first :: rest =>
    match (first :: rest).find? fun input => !input.rowType.compatible .rowCount with
    | some input => .error (.contract (.notRowCount input.rowType))
    | none => .ok (collect (logicalHead .rowCount) all first rest)

def convert (input : Plan) (target : Convention) : Plan :=
  converter { input.head with traits := { input.traits with convention := target } } input.convention input

end FederatedQuery.Plan
