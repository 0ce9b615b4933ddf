import FederatedQuery.Document.Basic
import FederatedQuery.Double.Decimal
import FederatedQuery.Text.Hex

/-!
The compact text of documents: no blanks, entries in their order, and only quotes, backslashes and
control characters escaped.
-/
namespace FederatedQuery.Document

def escape (c : Char) : List Char :=
  if c = '"' then ['\\', '"']
  else if c = '\\' then ['\\', '\\']
  else if c = '\n' then ['\\', 'n']
  else if c = '\r' then ['\\', 'r']
  else if c = '\t' then ['\\', 't']
  else if c.toNat = 8 then ['\\', 'b']
  else if c.toNat = 12 then ['\\', 'f']
  else if c.toNat < 32 then '\\' :: 'u' :: Text.hexDigits false 4 c.toNat
  else [c]

def quoted (s : String) : String :=
  "\"" ++ String.ofList (s.toList.flatMap escape) ++ "\""

mutual

def text : Document → String
  | null => "null"
  | bool b => if b then "true" else "false"
  | int i => toString i
  | float x => Double.documentLayout.text x
  | string s => quoted s
  | array items => "[" ++ itemsText items ++ "]"
  | object entries => "\x7b" ++ entriesText entries ++ "\x7d"

def itemsText : List Document → String
  | [] => ""
  | [d] => d.text
  | d :: rest => d.text ++ "," ++ itemsText rest

def entriesText : List (String × Document) → String
  | [] => ""
  | [(key, d)] => quoted key ++ ":" ++ d.text
  | (key, d) :: rest => quoted key ++ ":" ++ d.text ++ "," ++ entriesText rest

end

end FederatedQuery.Document
