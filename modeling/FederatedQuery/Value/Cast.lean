import FederatedQuery.Text.Blank
import FederatedQuery.Value.Checked

/-!
Conversion of values to a type. Null stays null, text is read without the white space around it, and an
array keeps its items as they are.
-/
namespace FederatedQuery.Value

def fits32 (i : Int64) : Bool := decide (Int32.minValue.toInt ≤ i.toInt ∧ i.toInt ≤ Int32.maxValue.toInt)

def toBoolean? : Value → Option Bool
  | bool b => some b
  | int i => some (decide (i ≠ 0))
  | string s =>
    let word := String.ofList ((Text.trim s.toList).map Char.toLower)
    if word = "true" then some true else if word = "false" then some false else none
  | _ => none

def toInteger? : Value → Option Int64
  | int i => some i
  | bool b => some (if b then 1 else 0)
  | float x => if x.isFinite then some x.truncate else none
  | string s => (readInt? (Text.trim s.toList)).bind int64?
  | _ => none

def toDouble? : Value → Option Double
  | int i => some (Double.ofInt i.toInt)
  | float x => some x
  | string s => Double.parse? (String.ofList (Text.trim s.toList))
  | _ => none

/-- The text of a value in a character column, if it has one. -/
def toText (target : SqlType) : Value → Except Error String
  | string s => .ok s
  | bool b => .ok (if b then "TRUE" else "FALSE")
  | int i => .ok (toString i.toInt)
  | float x => .ok (Double.plainLayout.text x)
  | date d => dateText d
  | timestamp t => timestampText t
  | other => .error (.eval (.notCastable other target))

def toBytes? : Value → Option (List UInt8)
  | bytes b => some b
  | string s => some s.toUTF8.toList
  | _ => none

def toDate? : Value → Option Int32
  | date d => some d
  | timestamp t => some (Int32.ofInt (t.toInt.fdiv Calendar.millisPerDay))
  | string s => (Calendar.readDate? (Text.trim s.toList)).map Int32.ofInt
  | _ => none

def toTimestamp? : Value → Option Int64
  | timestamp t => some t
  | date d => some (Int64.ofInt (d.toInt * Calendar.millisPerDay))
  | string s => (Calendar.readTimestamp? (Text.trim s.toList)).map Int64.ofInt
  | _ => none

/-- The converted value, or an error that names the value and the type. -/
def castResult (v : Value) (target : SqlType) : Option Value → Except Error Value
  | some result => .ok result
  | none => .error (.eval (.notCastable v target))

def cast (v : Value) (target : SqlType) : Except Error Value :=
  if v.isNull then .ok null
  else match target with
    | .any | .null => .ok v
    | .boolean => castResult v target (v.toBoolean?.map bool)
    | .integer => do
      match ← castResult v target (v.toInteger?.map int) with
      | int i => if fits32 i then .ok (int i) else .error (.eval (.notInteger i))
      | other => .ok other
    | .bigInt => castResult v target (v.toInteger?.map int)
    | .double | .decimal .. => castResult v target (v.toDouble?.map float)
    | .varchar none => do return string (← v.toText target)
    | .varchar (some limit) => do return string (String.ofList ((← v.toText target).toList.take limit))
    | .binary => castResult v target (v.toBytes?.map bytes)
    | .date => castResult v target (v.toDate?.map date)
    | .timestamp => castResult v target (v.toTimestamp?.map timestamp)
    | .array _ => match v with
      | array items => .ok (array items)
      | _ => .error (.eval (.notCastable v target))

end FederatedQuery.Value
