/-!
Where a cursor stands.
-/
namespace FederatedQuery

inductive Phase where
  /-- Before the first row. -/
  | unstarted
  /-- On a row. -/
  | positioned
  /-- Past the last row. -/
  | exhausted
  | closed
deriving DecidableEq

namespace Phase

def text : Phase → String
  | unstarted => "unstarted"
  | positioned => "positioned"
  | exhausted => "exhausted"
  | closed => "closed"

def advanced (found : Bool) : Phase := if found then positioned else exhausted

end Phase

end FederatedQuery
