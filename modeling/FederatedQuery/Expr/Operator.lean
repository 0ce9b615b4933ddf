/-!
Scalar operators.
-/
namespace FederatedQuery

inductive Op where
  | eq | ne | lt | le | gt | ge
  | and | or | not
  | isNull | isNotNull | isTrue | isFalse
  | plus | minus | times | divide | mod | negate
  | concat | upper | lower | charLength | substring
  | cast | case | coalesce
  | item | arrayValue
  /-- Expansion of an array into rows, allowed only as a whole projection. -/
  | unwind
deriving DecidableEq

namespace Op

def name : Op → String
  | eq => "=" | ne => "<>" | lt => "<" | le => "<=" | gt => ">" | ge => ">="
  | and => "AND" | or => "OR" | not => "NOT"
  | isNull => "IS NULL" | isNotNull => "IS NOT NULL" | isTrue => "IS TRUE" | isFalse => "IS FALSE"
  | plus => "+" | minus => "-" | times => "*" | divide => "/" | mod => "MOD" | negate => "-"
  | concat => "||" | upper => "UPPER" | lower => "LOWER" | charLength => "CHAR_LENGTH"
  | substring => "SUBSTRING" | cast => "CAST" | case => "CASE" | coalesce => "COALESCE"
  | item => "ITEM" | arrayValue => "ARRAY" | unwind => "UNWIND"

def isComparison : Op → Bool
  | eq | ne | lt | le | gt | ge => true
  | _ => false

/-- The operator that holds exactly when this one is false. -/
def negation? : Op → Option Op
  | eq => some ne | ne => some eq
  | lt => some ge | ge => some lt
  | le => some gt | gt => some le
  | isNull => some isNotNull | isNotNull => some isNull
  | _ => none

/-- The comparison with its operands exchanged. -/
def reversal? : Op → Option Op
  | eq => some eq | ne => some ne
  | lt => some gt | gt => some lt
  | le => some ge | ge => some le
  | _ => none

/-- Whether a call is null exactly when one of its operands is. -/
def isStrict : Op → Bool
  | and | or | isNull | isNotNull | isTrue | isFalse | case | coalesce | item | arrayValue
  | unwind => false
  | _ => true

end Op

end FederatedQuery
