/-!
Calling conventions: the family of backends that runs an operator.
-/
namespace FederatedQuery

inductive Convention where
  /-- Not placed yet, so not executable. -/
  | logical
  /-- Cursors in this process. -/
  | pull
  /-- Query text for the named dialect. -/
  | sql (dialect : String)
  /-- Aggregation pipelines of a document store. -/
  | document
deriving DecidableEq

/-- A convention without its parameters. -/
inductive ConventionKind where
  | logical
  | pull
  | sql
  | document
deriving DecidableEq

namespace Convention

def kind : Convention → ConventionKind
  | logical => .logical
  | pull => .pull
  | sql _ => .sql
  | document => .document

def text : Convention → String
  | logical => "NONE"
  | pull => "pull-iterator"
  | sql dialect => "sql:" ++ dialect
  | document => "document-pipeline"

/-- Reads a convention; a dialect is named by what follows `sql:`. -/
def read? (s : String) : Option Convention :=
  if s = "NONE" ∨ s = "none" then some logical
  else if s = "pull-iterator" then some pull
  else if s = "document-pipeline" then some document
  else match s.toList with
    | 's' :: 'q' :: 'l' :: ':' :: c :: rest => some (sql (String.ofList (c :: rest)))
    | _ => none

end Convention

end FederatedQuery
