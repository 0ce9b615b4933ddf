import FederatedQuery.Document.Reader
import FederatedQuery.Exchange.Basic
import FederatedQuery.Execution.Profile

/-!
Artifacts and what is left of their execution, written down as documents. A document that goes to a
store is written as its text.
-/
namespace FederatedQuery.Exchange

def ofStored (d : Document) : Document := .string d.text

def readStored (d : Document) : Read Document := do
  match Document.read? (← text d) with
  | some v => return v
  | none => expected "document"

def ofStoredList (l : List Document) : Document := .array (l.map ofStored)

def ofMode : Pipeline.ExecutionMode → Document
  | .direct => .string "direct"
  | .prepared => .string "prepared"

def ofWrite (w : Pipeline.Write) : Document :=
  .object (("collection", .string w.collection) :: match w with
    | .insert _ documents => [("write", .string "insert"), ("documents", ofStoredList documents)]
    | .update _ filter change one => [("write", .string "update"), ("filter", ofStored filter),
        ("update", ofStored change), ("one", .bool one)]
    | .delete _ filter one => [("write", .string "delete"), ("filter", ofStored filter), ("one", .bool one)])

def ofDeletion (m : Foreign.Deletion) : Document :=
  .object [("filter", ofStored m.filter), ("one", .bool m.one)]

def transactionText (tx : Nat) : String := "tx" ++ toString tx

def ofSession (s : Foreign.Session) : Document :=
  .object [("tx", .string (transactionText s.transaction)), ("adapter", .string s.adapter),
    ("id", ofNat s.id)]

def ofProfile (p : Profile) : Document :=
  .object [("simplify", ofNat p.simplify), ("convert", ofNat p.convert), ("compile", ofNat p.compile),
    ("sql_emit", ofNat p.sqlEmit), ("pipeline_emit", ofNat p.pipelineEmit), ("bind", ofNat p.bind)]

end FederatedQuery.Exchange
