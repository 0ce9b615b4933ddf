import FederatedQuery.Pipeline.Write

/-!
Pipelines and writes ready to be sent to a document store, once parameters are bound.
-/
namespace FederatedQuery.Pipeline

/-- Whether an artifact runs as it is or is a template for each set of parameters. -/
inductive ExecutionMode where
  | direct
  | prepared
deriving DecidableEq

def modeOf (hasMarkers : Bool) : ExecutionMode := if hasMarkers then .prepared else .direct

structure Prepared where
  collection : String
  stages : List Document
  mode : ExecutionMode
  rowType : RowType

namespace Prepared

def bind (q : Prepared) (params : Bindings) : Except Error (List Document) :=
  match q.mode with
  | .direct => .ok q.stages
  | .prepared => q.stages.mapM (Document.bind params)

def bindAll (q : Prepared) (sets : List Bindings) : Except Error (List (List Document)) :=
  sets.mapM q.bind

def text (q : Prepared) : String :=
  (if q.collection.isEmpty then "db" else q.collection) ++ ".aggregate(" ++
    (Document.array q.stages).text ++ ")"

end Prepared

structure PreparedWrite where
  write : Write
  mode : ExecutionMode

def PreparedWrite.bind (q : PreparedWrite) (params : Bindings) : Except Error Write :=
  match q.mode with
  | .direct => .ok q.write
  | .prepared => q.write.bind params

def checkConvention (p : Plan) : Except Error Unit :=
  if p.convention = .document then .ok () else .error (.contract (.notPipeline p.convention))

def emitQuery (p : Plan) : Except Error Prepared := do
  checkConvention p
  let c ← chain p
  let stages := c.stages.map Stage.document
  return ⟨c.collection, stages, modeOf (stages.any Document.hasMarkers), p.rowType⟩

def emitWrite (p : Plan) : Except Error PreparedWrite := do
  checkConvention p
  match p with
  | .modify _ table op input =>
    let write ← writeOf table op input
    return ⟨write, modeOf write.hasMarkers⟩
  | p => .error (.contract (.notModification p.name))

end FederatedQuery.Pipeline
