import FederatedQuery.Document.Marker

/-!
Expressions and conditions as documents, over fields of given names. In a condition, a comparison of a
field with a constant has the short form that the store can look up in an index.
-/
namespace FederatedQuery.Pipeline

def unsupported (construct reason : String) : Error :=
  .unsupported Convention.document.text construct reason

def fieldName (names : List String) (index : Nat) : Except Error String :=
  match names[index]? with
  | some name => .ok name
  | none => .error (.contract (.documentField index))

def path (name : String) : Document := .string ("$" ++ name)

def applied (operator : String) (operands : List Document) : Document :=
  .single operator (.array operands)

def comparisonOperator : Op → String
  | .eq => "$eq"
  | .ne => "$ne"
  | .lt => "$lt"
  | .le => "$lte"
  | .gt => "$gt"
  | _ => "$gte"

def conversionTarget : SqlType → Except Error String
  | .boolean => .ok "bool"
  | .integer => .ok "int"
  | .bigInt => .ok "long"
  | .double => .ok "double"
  | .decimal .. => .ok "decimal"
  | .varchar _ => .ok "string"
  | .binary => .ok "binData"
  | .date | .timestamp => .ok "date"
  | ty => .error (unsupported "CAST" s!"a document pipeline cannot convert to {ty.text}")

def branches : List Document → List Document × Document
  | [] => ([], .null)
  | [otherwise] => ([], otherwise)
  | condition :: result :: rest =>
    let (more, otherwise) := branches rest
    (.object [("case", condition), ("then", result)] :: more, otherwise)

/-- A position counted from zero: the second operand less one. -/
def position (operand : Expr) (document : Except Error Document) : Except Error Document :=
  match operand with
  | .lit (.int i) => .ok (.int (i - 1).toInt)
  | _ => do return applied "$subtract" [← document, .int 1]

/-- A call on operands, whose documents are given. Only those that the operator uses must be there. -/
def callDocument (op : Op) (operands : List Expr) (documents : List (Except Error Document))
    (ty : SqlType) : Except Error Document :=
  let all : Except Error (List Document) := documents.mapM id
  let first : Except Error Document := match documents with
    | d :: _ => d
    | [] => .error (.contract (.noOperands op.name))
  match op with
  | .eq | .ne | .lt | .le | .gt | .ge =>
    if operands.any Expr.isNull then .ok .null else return applied (comparisonOperator op) (← all)
  | .and => return applied "$and" (← all)
  | .or => return applied "$or" (← all)
  | .not => return applied "$not" [← first]
  | .isNull => return applied "$lte" [← first, .null]
  | .isNotNull => return applied "$gt" [← first, .null]
  | .isTrue => return applied "$eq" [← first, .bool true]
  | .isFalse => return applied "$eq" [← first, .bool false]
  | .plus => return applied "$add" (← all)
  | .minus => return applied "$subtract" (← all)
  | .times => return applied "$multiply" (← all)
  | .divide => return applied "$divide" (← all)
  | .mod => return applied "$mod" (← all)
  | .negate => return applied "$multiply" [← first, .int (-1)]
  | .concat => return applied "$concat" (← all)
  | .upper => return .single "$toUpper" (← first)
  | .lower => return .single "$toLower" (← first)
  | .charLength => return .single "$strLenCP" (← first)
  | .substring => do
    let text ← first
    match operands, documents with
    | _ :: start :: _, _ :: second :: rest =>
      let start ← position start second
      let length ← rest.head?.getD (.ok (.single "$strLenCP" text))
      return applied "$substrCP" [text, start, length]
    | _, _ => .error (.contract .substringStart)
  | .cast => do
    let input ← first
    return .single "$convert" (.object [("input", input), ("to", .string (← conversionTarget ty))])
  | .case => do
    let (cases, otherwise) := branches (← all)
    return .single "$switch" (.object [("branches", .array cases), ("default", otherwise)])
  | .coalesce => return applied "$ifNull" (← all)
  | .item => do
    let items ← first
    match operands, documents with
    | _ :: index :: _, _ :: second :: _ =>
      return applied "$arrayElemAt" [items, ← position index second]
    | _, _ => .error (.contract .itemIndex)
  | .arrayValue => return .array (← all)
  | .unwind =>
    .error (unsupported "UNWIND" "multi-valued expressions are expanded outside the document store")

mutual

def exprDocument (names : List String) : Expr → Except Error Document
  | .ref index _ _ => do return path (← fieldName names index)
  | .lit v => do return .single "$literal" (← Document.ofValue v)
  | .param index _ => .ok (.single "$literal" (.marker index))
  | .call op operands ty => callDocument op operands (exprDocuments names operands) ty

def exprDocuments (names : List String) : List Expr → List (Except Error Document)
  | [] => []
  | e :: rest => exprDocument names e :: exprDocuments names rest

end

/-! Conditions. -/

/-- A value that is the same for all rows: known now, or once parameters are bound. -/
inductive Constant where
  | value (v : Value)
  | param (index : Nat)

def constant? : Expr → Option Constant
  | .lit v => some (.value v)
  | .param index _ => some (.param index)
  | _ => none

def Constant.isNull : Constant → Bool
  | value v => v.isNull
  | param _ => false

def Constant.document : Constant → Except Error Document
  | value v => Document.ofValue v
  | param index => .ok (.marker index)

/-- A constant to compare with. -/
def comparable? (e : Expr) : Option Constant := (constant? e).filter fun c => !c.isNull

def fieldComparison? : Expr → Option (Op × Nat × Constant)
  | .call op [left, right] _ =>
    if op.isComparison then
      match left, right with
      | .ref index _ _, other => (comparable? other).map fun c => (op, index, c)
      | other, .ref index _ _ => (comparable? other).map fun c => (op.reversal?.getD op, index, c)
      | _, _ => none
    else none
  | _ => none

/-- The field that a condition fixes to one value. -/
def fixedField? (e : Expr) : Option Nat :=
  match fieldComparison? e with
  | some (.eq, index, _) => some index
  | _ => none

/-- A test of a field. What differs from a value is not null either. -/
def testDocument (op : Op) (v : Document) : Document :=
  match op with
  | .ne => applied "$nin" [v, .null]
  | op => .single (comparisonOperator op) v

def conjunctDocument (names : List String) (e : Expr) : Except Error Document := do
  match e with
  | .call .isNull [.ref index _ _] _ => return .single (← fieldName names index) .null
  | .call .isNotNull [.ref index _ _] _ =>
    return .single (← fieldName names index) (.single "$ne" .null)
  | e => match fieldComparison? e with
    | some (op, index, c) =>
      let v ← c.document
      return .single (← fieldName names index) (testDocument op v)
    | none => return .single "$expr" (← exprDocument names e)

/-- The document that a condition selects documents by. -/
def filterDocument (names : List String) (condition : Expr) : Except Error Document := do
  match ← condition.conjuncts.mapM (conjunctDocument names) with
  | [clause] => return clause
  | clauses => return applied "$and" clauses

end FederatedQuery.Pipeline
