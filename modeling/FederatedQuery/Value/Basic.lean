import FederatedQuery.Double.Rounding
import FederatedQuery.Types.SqlType

/-!
Values, rows and bindings of dynamic parameters. Integers and timestamps have sixty-four bits, dates
thirty-two; a date counts days and a timestamp milliseconds from 1970-01-01.
-/
namespace FederatedQuery

inductive Value where
  | null
  | bool (b : Bool)
  | int (i : Int64)
  | float (x : Double)
  | string (s : String)
  | bytes (b : List UInt8)
  | date (days : Int32)
  | timestamp (millis : Int64)
  | array (items : List Value)

abbrev Row := List Value

/-- The value bound to each parameter ordinal. -/
abbrev Bindings := Nat → Option Value

namespace Value

def isNull : Value → Bool
  | null => true
  | _ => false

mutual

/-- The semantic type of a value; an array takes it from its first item that is not null. -/
def type : Value → SqlType
  | null => .null
  | bool _ => .boolean
  | int _ => .bigInt
  | float _ => .double
  | string _ => .varchar none
  | bytes _ => .binary
  | date _ => .date
  | timestamp _ => .timestamp
  | array items => .array (itemType items)

def itemType : List Value → SqlType
  | [] => .any
  | v :: rest => if v.isNull then itemType rest else v.type

end

def double? : Value → Option Double
  | int i => some (Double.ofInt i.toInt)
  | float x => some x
  | _ => none

/-- The class a value is compared in. Integers and floats share one. -/
def rank : Value → Nat
  | null => 0
  | bool _ => 1
  | int _ | float _ => 2
  | string _ => 3
  | bytes _ => 4
  | date _ => 5
  | timestamp _ => 6
  | array _ => 7

mutual

/-- Equality of constants: floats by their numeric value, so that both zeros are the same and what is
not a number is never the same. -/
def same : Value → Value → Bool
  | null, null => true
  | bool a, bool b => a == b
  | int a, int b => a == b
  | float a, float b => a.numEq b
  | string a, string b => a == b
  | bytes a, bytes b => a == b
  | date a, date b => a == b
  | timestamp a, timestamp b => a == b
  | array a, array b => sameItems a b
  | _, _ => false

def sameItems : List Value → List Value → Bool
  | [], [] => true
  | a :: as, b :: bs => a.same b && sameItems as bs
  | _, _ => false

end

end Value

end FederatedQuery
