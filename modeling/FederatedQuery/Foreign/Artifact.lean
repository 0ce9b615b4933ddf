import FederatedQuery.Config.Options
import FederatedQuery.Pipeline.Prepared
import FederatedQuery.Sql.Prepared

/-!
What a foreign store is given to run: the text of a query, a pipeline or a write.
-/
namespace FederatedQuery.Foreign

inductive Artifact where
  | sql (query : Sql.Prepared)
  | pipeline (query : Pipeline.Prepared)
  | write (query : Pipeline.PreparedWrite)

namespace Artifact

def rowType : Artifact → RowType
  | sql q => q.rowType
  | pipeline q => q.rowType
  | write _ => .rowCount

def kind : Artifact → ConventionKind
  | sql _ => .sql
  | pipeline _ | write _ => .document

end Artifact

/-- The conventions for which artifacts can be made: queries in some dialects, and pipelines. -/
structure Emitters where
  dialects : Option (List Dialect)
  pipelines : Bool

namespace Emitters

def default : Emitters := ⟨some Dialect.presets, true⟩

def empty : Emitters := ⟨none, false⟩

def ofOptions (o : Config.Options) : Emitters := ⟨some o.allDialects, true⟩

def missing (p : Plan) : Error :=
  .unsupported p.convention.text p.name s!"no emitter registered for convention {p.convention.text}"

def emit (e : Emitters) (p : Plan) : Except Error Artifact :=
  match p.convention.kind with
  | .sql => match e.dialects with
    | some dialects => (Sql.emit dialects p).map .sql
    | none => .error (missing p)
  | .document =>
    if e.pipelines then
      match p with
      | .modify .. => (Pipeline.emitWrite p).map .write
      | p => (Pipeline.emitQuery p).map .pipeline
    else .error (missing p)
  | .logical | .pull => .error (missing p)

end Emitters

/-- The plan itself unless it is run in process; then what is below it. -/
def topmost (p : Plan) (below : List Plan) : List Plan := if p.convention = .pull then below else [p]

mutual

/-- The topmost parts of a plan that are not run in process, from left to right. -/
def fragments : Plan → List Plan
  | p@(.scan ..) | p@(.values ..) => topmost p []
  | p@(.calculate _ _ input) | p@(.aggregate _ _ _ input) | p@(.sort _ _ _ _ input)
  | p@(.modify _ _ _ input) | p@(.converter _ _ input) => topmost p (fragments input)
  | p@(.join _ _ _ left right) => topmost p (fragments left ++ fragments right)
  | p@(.setOp _ _ _ first rest) | p@(.collect _ _ first rest) =>
    topmost p (fragments first ++ fragmentsOf rest)

def fragmentsOf : List Plan → List Plan
  | [] => []
  | p :: rest => fragments p ++ fragmentsOf rest

end

end FederatedQuery.Foreign
