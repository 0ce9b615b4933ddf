/-!
Semantic types of fields and expressions.
-/
namespace FederatedQuery

inductive SqlType where
  | boolean
  | integer
  | bigInt
  | double
  | decimal (precision scale : Nat)
  | varchar (limit : Option Nat)
  | binary
  | date
  | timestamp
  | array (item : SqlType)
  | any
  | null
deriving DecidableEq

namespace SqlType

def name : SqlType → String
  | boolean => "BOOLEAN"
  | integer => "INTEGER"
  | bigInt => "BIGINT"
  | double => "DOUBLE"
  | decimal .. => "DECIMAL"
  | varchar _ => "VARCHAR"
  | binary => "VARBINARY"
  | date => "DATE"
  | timestamp => "TIMESTAMP"
  | array _ => "ARRAY"
  | any => "ANY"
  | null => "NULL"

def text : SqlType → String
  | decimal precision scale => s!"DECIMAL({precision}, {scale})"
  | varchar (some limit) => s!"VARCHAR({limit})"
  | array item => item.text ++ " ARRAY"
  | other => other.name

def isNumeric : SqlType → Bool
  | integer | bigInt | double | decimal .. => true
  | _ => false

def isIntegral : SqlType → Bool
  | integer | bigInt => true
  | _ => false

def isCharacter : SqlType → Bool
  | varchar _ => true
  | _ => false

/-- The type of arithmetic on two operands. -/
def numericJoin : SqlType → SqlType → SqlType
  | double, _ | _, double => double
  | decimal .., _ | _, decimal .. => double
  | bigInt, _ | _, bigInt => bigInt
  | integer, integer => integer
  | null, other | other, null => other
  | _, _ => any

end SqlType

end FederatedQuery
