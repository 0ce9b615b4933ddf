import FederatedQuery.Exchange.Basic

/-!
Values and types as documents.
-/
namespace FederatedQuery.Exchange

mutual

def readValue : Document → Read Value
  | .null => .ok .null
  | .bool b => .ok (.bool b)
  | .int i => .ok (.int (Int64.ofInt i))
  | .string s => .ok (.string s)
  | .array items => do return .array (← readValues items)
  | .object [("f", .string s)] =>
    match Double.parse? s with
    | some x => .ok (.float x)
    | none => expected "float"
  | .object [("x", .string s)] =>
    match Text.readHex? s.toList with
    | some b => .ok (.bytes b)
    | none => expected "hexadecimal text"
  | .object [("d", days)] => do return .date (Int32.ofInt (← integer days))
  | .object [("ts", millis)] => do return .timestamp (Int64.ofInt (← integer millis))
  | .object entries => do return .int (Int64.ofInt (← integer (.object entries)))
  | .float _ => expected "value"

def readValues : List Document → Read (List Value)
  | [] => .ok []
  | d :: rest => do
    let v ← readValue d
    return v :: (← readValues rest)

end

mutual

def ofValue : Value → Document
  | .null => .null
  | .bool b => .bool b
  | .int i => ofInt i.toInt
  | .float x => .single "f" (.string (Double.valueLayout.text x))
  | .string s => .string s
  | .bytes b => .single "x" (.string (Text.hexBytes false b))
  | .date days => .single "d" (.int days.toInt)
  | .timestamp millis => .single "ts" (ofInt millis.toInt)
  | .array items => .array (ofValues items)

def ofValues : List Value → List Document
  | [] => []
  | v :: rest => ofValue v :: ofValues rest

end

def readRow : Document → Read Row := listOf readValue

def ofRow (row : Row) : Document := .array (ofValues row)

def ofRows (rows : List Row) : Document := .array (rows.map ofRow)

/-- Values by the ordinals of parameters; none is bound when there is no document. -/
def readBindings : Option Document → Read Bindings
  | none => .ok fun _ => none
  | some (.object entries) => do
    let bound ← entries.mapM fun (key, v) => do
      match readInt? key.toList with
      | some i => return (i.toNat, ← readValue v)
      | none => expected "ordinal"
    return fun i => bound.lookup i
  | some _ => expected "bindings"

def simpleTypes : List (String × SqlType) :=
  [("boolean", .boolean), ("integer", .integer), ("big_int", .bigInt), ("double", .double),
    ("binary", .binary), ("date", .date), ("timestamp", .timestamp), ("any", .any), ("null", .null)]

def readType : Document → Read SqlType
  | .object [("varchar", limit)] => do return .varchar (← nullable natural limit)
  | .object [("array", item)] => do return .array (← readType item)
  | .object [("decimal", d)] => do
    return .decimal (← field d "precision" natural) (← field d "scale" natural)
  | d => wordFor simpleTypes d

def ofType : SqlType → Document
  | .varchar limit => .single "varchar" (ofOption ofNat limit)
  | .array item => .single "array" (ofType item)
  | .decimal p s => .single "decimal" (.object [("precision", ofNat p), ("scale", ofNat s)])
  | ty => toWord simpleTypes ty

def readField (d : Document) : Read Field := do
  match d with
  | .array [name, ty, mayBeNull] => return ⟨← text name, ← readType ty, ← boolean mayBeNull⟩
  | _ => expected "field"

def readRowType (d : Document) : Read RowType := do return ⟨← listOf readField d⟩

end FederatedQuery.Exchange
