import FederatedQuery.Error.Basic
import FederatedQuery.Value.Order

/-!
Operations on values that can fail. A truth value is true, false or unknown, and null is unknown.
-/
namespace FederatedQuery

abbrev Truth := Option Bool

namespace Truth

def toValue : Truth → Value
  | some b => .bool b
  | none => .null

/-- False if either is false, and else unknown if either is unknown. -/
def and : Truth → Truth → Truth
  | some false, _ | _, some false => some false
  | some true, some true => some true
  | _, _ => none

/-- True if either is true, and else unknown if either is unknown. -/
def or : Truth → Truth → Truth
  | some true, _ | _, some true => some true
  | some false, some false => some false
  | _, _ => none

end Truth

namespace Value

def truth : Value → Except Error Truth
  | null => .ok none
  | bool b => .ok (some b)
  | other => .error (.eval (.notBoolean other))

/-- Comparison in a query: unknown next to a null, and an error across classes. -/
def sqlCompare (a b : Value) : Except Error (Option Ordering) :=
  if a.isNull || b.isNull then .ok none
  else if a.rank ≠ b.rank then .error (.eval (.incomparable a b))
  else .ok (some (a.compare b))

def dateText (days : Int32) : Except Error String :=
  match Calendar.dateText? days.toInt with
  | some text => .ok text
  | none => .error (.eval (.dateOutOfRange days))

def timestampText (millis : Int64) : Except Error String :=
  match Calendar.timestampText? millis.toInt with
  | some text => .ok text
  | none => .error (.eval (.timestampOutOfRange millis))

end Value

end FederatedQuery
