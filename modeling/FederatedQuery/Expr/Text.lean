import FederatedQuery.Expr.Basic
import FederatedQuery.Value.Text

/-!
The text of expressions: `$0` for a reference, `?0` for a parameter, and calls by name.
-/
namespace FederatedQuery.Expr

mutual

def text : Expr → String
  | ref index _ _ => "$" ++ toString index
  | lit v => v.text
  | param index _ => "?" ++ toString index
  | call .cast operands ty => "CAST(" ++ headText operands ++ "):" ++ ty.text
  | call op operands _ => op.name ++ "(" ++ listText operands ++ ")"

def headText : List Expr → String
  | [] => ""
  | e :: _ => e.text

def listText : List Expr → String
  | [] => ""
  | [e] => e.text
  | e :: rest => e.text ++ ", " ++ listText rest

end

end FederatedQuery.Expr
