import FederatedQuery.Text.Base64
import FederatedQuery.Value.Cast

/-!
Values as documents. Dates, timestamps and bytes have no form of their own there and are written as
objects with a reserved key.
-/
namespace FederatedQuery.Document

def ofMillis (millis : Int) : Document :=
  single "$date" (single "$numberLong" (string (toString millis)))

def ofBytes (bytes : List UInt8) : Document :=
  single "$binary" (object [("base64", string (Text.base64 bytes)), ("subType", string "00")])

mutual

def ofValue : Value → Except Error Document
  | .null => .ok null
  | .bool b => .ok (bool b)
  | .int i => .ok (int i.toInt)
  | .float x => if x.isFinite then .ok (float x) else .error (.eval (.noDocumentForm x))
  | .string s => .ok (string s)
  | .bytes b => .ok (ofBytes b)
  | .date days => .ok (ofMillis (days.toInt * Calendar.millisPerDay))
  | .timestamp millis => .ok (ofMillis millis.toInt)
  | .array items => do return array (← ofValues items)

def ofValues : List Value → Except Error (List Document)
  | [] => .ok []
  | v :: rest => do
    let d ← ofValue v
    return d :: (← ofValues rest)

end

/-- The moment under the reserved key of dates: a number, or the text of one in an object. -/
def millis? : Document → Option Int64
  | int i => FederatedQuery.int64? i
  | object entries => do
    let text ← (Entries.get? entries "$numberLong").bind text?
    FederatedQuery.int64? (← readInt? text.toList)
  | _ => none

/-- The value of an object with a reserved key. -/
def reservedValue (entries : Entries) : Except Error Value :=
  match entries.get? "$date" with
  | some date => match millis? date with
    | some millis => .ok (.timestamp millis)
    | none => .error (.eval (.malformedDate date))
  | none => match entries.get? "$binary" with
    | some binary => match (binary.get? "base64").bind text? with
      | none => .error (.eval (.malformedBinary binary))
      | some payload => match Text.readBase64? payload with
        | some bytes => .ok (.bytes bytes)
        | none => .error (.eval .malformedPayload)
    | none => .error (.eval (.nestedDocument (object entries)))

/-- The type of the items of an array; not known for other types. -/
def itemTypeOf : SqlType → SqlType
  | .array item => item
  | _ => .any

mutual

def toValue (ty : SqlType) : Document → Except Error Value
  | null => Value.null.cast ty
  | bool b => (Value.bool b).cast ty
  | int i => match FederatedQuery.int64? i with
    | some i => (Value.int i).cast ty
    | none => (Value.float (Double.ofInt i)).cast ty
  | float x => (Value.float x).cast ty
  | string s => (Value.string s).cast ty
  | array items => do (Value.array (← toValues (itemTypeOf ty) items)).cast ty
  | object entries => do (← reservedValue entries).cast ty

def toValues (ty : SqlType) : List Document → Except Error (List Value)
  | [] => .ok []
  | d :: rest => do
    let v ← toValue ty d
    return v :: (← toValues ty rest)

end

/-- The row that an object holds under the names of its columns; what is missing is null. -/
def toRow (rowType : RowType) : Document → Except Error Row
  | object entries => rowType.fields.mapM fun f => toValue f.type ((Entries.get? entries f.name).getD null)
  | d => .error (.eval (.notDocument d))

end FederatedQuery.Document
