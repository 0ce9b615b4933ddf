import FederatedQuery.Document.Text
import FederatedQuery.Expr.Operator
import FederatedQuery.Value.Text

/-!
Causes of failed evaluations.
-/
namespace FederatedQuery

inductive Fault where
  | notBoolean (found : Value)
  | incomparable (left right : Value)
  | dateOutOfRange (days : Int32)
  | timestampOutOfRange (millis : Int64)
  | notUnwindable (found : Value)
  | notIndexable (array index : Value)
  | negationOverflow
  | notNegatable (found : Value)
  | notString (op : Op) (found : Value)
  | divisionByZero
  | overflow (op : Op)
  | notNumeric (op : Op) (left right : Value)
  | substringOperands
  | negativeLength
  | notCastable (found : Value) (target : SqlType)
  | notInteger (i : Int64)
  | notArray (found : Value)
  | sumOverflow
  | sumOperand (found : Value)
  | averageOperand (found : Value)
  | noDocumentForm (x : Double)
  | malformedDate (found : Document)
  | malformedBinary (found : Document)
  | malformedPayload
  | nestedDocument (found : Document)
  | notDocument (found : Document)
  /-- A failure that an outside system put into words. -/
  | reported (message : String)

namespace Fault

/-- The last date whose day number, counted from 4714 BC, has thirty-two bits. -/
def lastNumberedDay : Int := Int32.maxValue.toInt - 2440588

def message : Fault → String
  | notBoolean v => "expected boolean, found " ++ v.text
  | incomparable a b => "cannot compare " ++ a.text ++ " with " ++ b.text
  | dateOutOfRange d =>
    if lastNumberedDay < d.toInt then "date out of range: " ++ toString d.toInt ++ " days from epoch"
    else "date out of range"
  | timestampOutOfRange _ => "timestamp out of range"
  | notUnwindable v => "cannot unwind non-array value " ++ v.text
  | notIndexable a i => "cannot index " ++ a.text ++ " by " ++ i.text
  | negationOverflow => "integer overflow in negation"
  | notNegatable v => "cannot negate " ++ v.text
  | notString op v => op.name ++ " expects a string, found " ++ v.text
  | divisionByZero => "division by zero"
  | overflow op => "integer overflow in " ++ op.name
  | notNumeric op a b => "cannot apply " ++ op.name ++ " to " ++ a.text ++ " and " ++ b.text
  | substringOperands => "SUBSTRING expects (string, integer[, integer])"
  | negativeLength => "negative substring length"
  | notCastable v ty => "cannot cast " ++ v.text ++ " to " ++ ty.text
  | notInteger i => toString i.toInt ++ " out of range for INTEGER"
  | notArray v => "unwind expects an array, got " ++ v.text
  | sumOverflow => "SUM overflowed BIGINT"
  | sumOperand v => "SUM over non-numeric " ++ v.text
  | averageOperand v => "AVG over non-numeric " ++ v.text
  | noDocumentForm x => Double.plainLayout.text x ++ " has no JSON representation"
  | malformedDate d => "malformed $date value " ++ d.text
  | malformedBinary d => "malformed $binary value " ++ d.text
  | malformedPayload => "invalid base64 payload"
  | nestedDocument d => "cannot decode nested document " ++ d.text
  | notDocument d => "pipeline produced a non-document " ++ d.text
  | reported message => message

end Fault

end FederatedQuery
