import FederatedQuery.Calendar.Text
import FederatedQuery.Double.Decimal
import FederatedQuery.Text.Hex
import FederatedQuery.Text.Quoted
import FederatedQuery.Value.Basic

/-!
The text of values, which is also their literal form in queries. A date or timestamp outside the
calendar is written by its count.
-/
namespace FederatedQuery.Value

mutual

def text : Value → String
  | null => "NULL"
  | bool b => if b then "TRUE" else "FALSE"
  | int i => toString i.toInt
  | float x => Double.valueLayout.text x
  | string s => Text.literal s
  | bytes b => "X'" ++ Text.hexBytes true b ++ "'"
  | date d => match Calendar.dateText? d.toInt with
    | some day => "DATE '" ++ day ++ "'"
    | none => "DATE(" ++ toString d.toInt ++ ")"
  | timestamp t => match Calendar.timestampText? t.toInt with
    | some moment => "TIMESTAMP '" ++ moment ++ "'"
    | none => "TIMESTAMP(" ++ toString t.toInt ++ ")"
  | array items => "[" ++ itemsText items ++ "]"

def itemsText : List Value → String
  | [] => ""
  | [v] => v.text
  | v :: rest => v.text ++ ", " ++ itemsText rest

end

end FederatedQuery.Value
