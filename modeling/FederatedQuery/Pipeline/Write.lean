import FederatedQuery.Pipeline.Stage

/-!
Writes to a document store. A write that fixes every field of the primary key concerns one document at
most, and uses the operation for one.
-/
namespace FederatedQuery.Pipeline

inductive Write where
  | insert (collection : String) (documents : List Document)
  /-- The change is a document, or a list of stages when it computes values. -/
  | update (collection : String) (filter change : Document) (one : Bool)
  | delete (collection : String) (filter : Document) (one : Bool)

namespace Write

def collection : Write → String
  | insert c _ | update c _ _ _ | delete c _ _ => c

def hasMarkers : Write → Bool
  | insert _ documents => documents.any Document.hasMarkers
  | update _ filter change _ => filter.hasMarkers || change.hasMarkers
  | delete _ filter _ => filter.hasMarkers

def bind (params : Bindings) : Write → Except Error Write
  | insert c documents => do return insert c (← documents.mapM (Document.bind params))
  | update c filter change one => do
    let filter ← filter.bind params
    return update c filter (← change.bind params) one
  | delete c filter one => do return delete c (← filter.bind params) one

end Write

def insertError : Error :=
  unsupported "INSERT" "documents can only be inserted from literal rows or a parameter template"

/-- A field of a document to insert: a constant, or a value of the literal row. -/
def templateField (row : Row) : Expr → Except Error Document
  | .lit v => Document.ofValue v
  | .param index _ => .ok (.marker index)
  | .ref index _ _ => match row[index]? with
    | some v => Document.ofValue v
    | none => .error (.contract (.templateField index))
  | e => .error (unsupported "INSERT" s!"cannot compute {e.text} while inserting documents")

/-- The documents to insert: literal rows, or a template over one of them. -/
def insertDocuments (names : List String) : Plan → Except Error (List Document)
  | .values _ rows => rows.mapM (rowDocument names)
  | .calculate _ program (.values _ [row]) =>
    if program.condition.isNone then do
      let pairs ← (names.zip program.projects).mapM fun (name, e) => do
        return (name, ← templateField row e)
      return [.object (Entries.ofPairs pairs)]
    else .error insertError
  | _ => .error insertError

/-- Whether a plan reads the documents of a table as they are. -/
def readsTable (table : Table) : Plan → Bool
  | .scan _ scanned => decide (scanned.path = table.path)
  | _ => false

/-- The condition on the documents to change, which can only be those of the changed collection. -/
def targetCondition (statement : String) (table : Table) (input : Plan) : Except Error (Option Expr) :=
  let foreign : Error := unsupported statement
    s!"{statement} must filter the target collection directly, found {input.name}"
  match input with
  | .calculate _ program inner =>
    if program.isIdentity && readsTable table inner then .ok program.condition else .error foreign
  | p => if readsTable table p then .ok none else .error foreign

def conditionDocument (names : List String) : Option Expr → Except Error Document
  | none => .ok (.object [])
  | some condition => filterDocument names condition

def fixesKey (table : Table) : Option Expr → Bool
  | none => false
  | some condition =>
    let fixed := condition.conjuncts.filterMap fixedField?
    !table.primaryKey.isEmpty && table.primaryKey.all fun key => decide (key ∈ fixed)

def assignedName (names : List String) (column : Nat) : Except Error String :=
  match names[column]? with
  | some name => .ok name
  | none => .error (.contract (.documentAssignment column))

/-- What sets columns to expressions: constants at once, and other values in a stage. -/
def updateDocument (names : List String) (columns : List Nat) (sources : List Expr) :
    Except Error Document := do
  match sources.mapM constant? with
  | some constants =>
    let pairs ← (columns.zip constants).mapM fun (column, c) => do
      let name ← assignedName names column
      return (name, ← c.document)
    return .single "$set" (.object (Entries.ofPairs pairs))
  | none =>
    let pairs ← (columns.zip sources).mapM fun (column, e) => do
      let name ← assignedName names column
      return (name, ← exprDocument names e)
    return .array [.single "$set" (.object (Entries.ofPairs pairs))]

def writeOf (table : Table) (op : ModifyOp) (input : Plan) : Except Error Write := do
  let names := storedNames table
  match op with
  | .insert => return .insert table.physicalTable (← insertDocuments names input)
  | .update columns sources =>
    let condition ← targetCondition "UPDATE" table input
    let update ← updateDocument names columns sources
    return .update table.physicalTable (← conditionDocument names condition) update
      (fixesKey table condition)
  | .delete =>
    let condition ← targetCondition "DELETE" table input
    return .delete table.physicalTable (← conditionDocument names condition) (fixesKey table condition)

end FederatedQuery.Pipeline
