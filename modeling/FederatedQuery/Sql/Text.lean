import FederatedQuery.Sql.Dialect
import FederatedQuery.Sql.Syntax
import FederatedQuery.Value.Text

/-!
The text of statements. Every clause has a line of its own, and brackets stand only where the
precedence of operators asks for them. A statement is first a list of pieces, in which identifiers,
literals and parameters are told from the words around them.
-/
namespace FederatedQuery.Sql

inductive Piece where
  /-- Keywords, symbols, names of functions and blanks, as they are. -/
  | word (text : String)
  | identifier (name : String)
  /-- The text of a value that is no array. -/
  | literal (value : Value)
  /-- A parameter, cast to a type if one is named. -/
  | param (index : Nat) (cast : Option String)

namespace Piece

def text (d : Dialect) : Piece → String
  | word text => text
  | identifier name => d.quoteIdentifier name
  | literal v => v.text
  | param _ none => "?"
  | param _ (some typeName) => "CAST(? AS " ++ typeName ++ ")"

def param? : Piece → Option Nat
  | param index _ => some index
  | _ => none

end Piece

/-- Pieces with a word between each two lists of them. -/
def separated (word : String) : List (List Piece) → List Piece
  | [] => []
  | [pieces] => pieces
  | pieces :: rest => pieces ++ .word word :: separated word rest

def bracketed (pieces : List Piece) : List Piece := .word "(" :: pieces ++ [.word ")"]

def pathPieces (path : List String) : List Piece :=
  separated "." (path.map fun name => [.identifier name])

def namesPieces (names : List String) : List Piece :=
  separated ", " (names.map fun name => [.identifier name])

def aliasPieces (d : Dialect) (label : String) : List Piece :=
  [.word (if d.aliasWithAs then " AS " else " "), .identifier label]

def isComparison (symbol : String) : Bool := symbol ∈ ["=", "<>", "<", "<=", ">", ">="]

/-- Whether a right operand of the same precedence needs no brackets. -/
def isAssociative (symbol : String) : Bool := symbol ∈ ["AND", "OR", "+", "*", "||"]

def binaryPrecedence (symbol : String) : Nat :=
  if symbol = "OR" then 1
  else if symbol = "AND" then 2
  else if symbol ∈ ["+", "-", "||"] then 6
  else if symbol ∈ ["*", "/", "%"] then 7
  else 4

def Term.precedence : Term → Nat
  | binary symbol _ _ => binaryPrecedence symbol
  | unary symbol _ => if symbol = "NOT" then 3 else 8
  | suffixed .. => 5
  | _ => 9

/-- A term as an operand, in brackets when it binds more loosely than the place asks for. -/
def operandPieces (least : Nat) (t : Term) (pieces : List Piece) : List Piece :=
  if t.precedence < least then bracketed pieces else pieces

def setOpKeyword (d : Dialect) (op : SetOp) (all : Bool) : String :=
  let base := match op with
    | .union => "UNION"
    | .intersect => "INTERSECT"
    | .minus => d.minusKeyword
  if all then base ++ " ALL" else if d.distinctKeyword then base ++ " DISTINCT" else base

/-- The largest count that every system takes, for a limit that keeps all rows. -/
def unlimited : Nat := Int64.maxValue.toInt.toNat

def limitText (d : Dialect) (offset fetch : Option Nat) : String :=
  match d.limit with
  | .limitOffset =>
    (match offset, fetch with
      | _, some n => s!"\nLIMIT {n}"
      | some _, none => s!"\nLIMIT {unlimited}"
      | none, none => "") ++
    match offset with
    | some n => s!"\nOFFSET {n}"
    | none => ""
  | .offsetFetch =>
    (match offset, fetch with
      | some n, _ => s!"\nOFFSET {n} ROWS"
      | none, some _ => if d.limitNeedsOrder then "\nOFFSET 0 ROWS" else ""
      | none, none => "") ++
    match fetch with
    | some n => s!"\nFETCH NEXT {n} ROWS ONLY"
    | none => ""

def joinKeyword : JoinKind → String
  | .left => "LEFT JOIN "
  | .right => "RIGHT JOIN "
  | .full => "FULL JOIN "
  | .inner | .semi | .anti => "INNER JOIN "

def Query.isNested : Query → Bool
  | setOp .. => true
  | select block => !block.orderBy.isEmpty || block.offset.isSome || block.fetch.isSome

/-- A query as an operand of a set operation. -/
def operandQueryPieces (d : Dialect) (q : Query) (pieces : List Piece) : List Piece :=
  if !q.isNested then pieces
  else if d.bracketedOperands then bracketed pieces
  else .word "SELECT *\nFROM (" :: pieces ++ [.word ")"]

def Source.isJoin : Source → Bool
  | join .. => true
  | _ => false

mutual

def literalPieces (d : Dialect) : Value → List Piece
  | .array items => [.word (d.functionName "ARRAY"), .word "["] ++ literalItems d items ++ [.word "]"]
  | v => [.literal v]

def literalItems (d : Dialect) : List Value → List Piece
  | [] => []
  | [v] => literalPieces d v
  | v :: rest => literalPieces d v ++ .word ", " :: literalItems d rest

end

mutual

def Term.pieces (d : Dialect) : Term → List Piece
  | .column none name => [.identifier name]
  | .column (some qualifier) name => [.identifier qualifier, .word ".", .identifier name]
  | .literal v => literalPieces d v
  | .param index ty =>
    [.param index (if d.castParams ∧ ty ≠ .any ∧ ty ≠ .null then some (d.castName ty) else none)]
  | .binary symbol left right =>
    let own := binaryPrecedence symbol
    operandPieces (if isComparison symbol then own + 1 else own) left (left.pieces d) ++
      [.word " ", .word symbol, .word " "] ++
      operandPieces (if isAssociative symbol then own else own + 1) right (right.pieces d)
  | .unary symbol operand =>
    if symbol = "NOT" then .word "NOT " :: operandPieces 3 operand (operand.pieces d)
    else .word symbol :: operandPieces 8 operand (operand.pieces d)
  | .suffixed operand symbol =>
    operandPieces 6 operand (operand.pieces d) ++ [.word " ", .word symbol]
  | .function name distinct args =>
    [.word name, .word "("] ++ (if distinct then [.word "DISTINCT "] else []) ++ termsPieces d args ++
      [.word ")"]
  | .star => [.word "*"]
  | .case branches otherwise =>
    .word "CASE" :: branchesPieces d branches ++ optionPieces d " ELSE " otherwise ++ [.word " END"]
  | .cast operand typeName =>
    .word "CAST(" :: operand.pieces d ++ [.word " AS ", .word typeName, .word ")"]
  | .substring text start length => match d.substring with
    | .fromFor =>
      .word "SUBSTRING(" :: text.pieces d ++ .word " FROM " :: start.pieces d ++
        optionPieces d " FOR " length ++ [.word ")"]
    | .substr =>
      .word "SUBSTR(" :: text.pieces d ++ .word ", " :: start.pieces d ++
        optionPieces d ", " length ++ [.word ")"]
    | .commas =>
      .word "SUBSTRING(" :: text.pieces d ++ .word ", " :: start.pieces d ++
        optionPieces d ", " length ++ [.word ")"]
  | .array items =>
    [.word (d.functionName "ARRAY"), .word "["] ++ termsPieces d items ++ [.word "]"]
  | .item array index =>
    operandPieces 9 array (array.pieces d) ++ .word "[" ::
      (match d.functions.lookup "ITEM" with
        | some wrapper => .word wrapper :: bracketed (index.pieces d)
        | none => index.pieces d) ++ [.word "]"]
  | .exists negated query =>
    .word (if negated then "NOT EXISTS (" else "EXISTS (") :: query.pieces d ++ [.word ")"]
  | .subquery query => bracketed (query.pieces d)

def termsPieces (d : Dialect) : List Term → List Piece
  | [] => []
  | [t] => t.pieces d
  | t :: rest => t.pieces d ++ .word ", " :: termsPieces d rest

/-- A clause of one term, when there is one. -/
def optionPieces (d : Dialect) (keyword : String) : Option Term → List Piece
  | none => []
  | some t => .word keyword :: t.pieces d

def branchesPieces (d : Dialect) : List (Term × Term) → List Piece
  | [] => []
  | (condition, result) :: rest =>
    .word " WHEN " :: condition.pieces d ++ .word " THEN " :: result.pieces d ++ branchesPieces d rest

def tuplesPieces (d : Dialect) : List (List Term) → List Piece
  | [] => []
  | [row] => bracketed (termsPieces d row)
  | row :: rest => bracketed (termsPieces d row) ++ .word ",\n" :: tuplesPieces d rest

def Query.pieces (d : Dialect) : Query → List Piece
  | .select block => block.pieces d
  | .setOp op all inputs => operandsPieces d (setOpKeyword d op all) inputs

def operandsPieces (d : Dialect) (keyword : String) : List Query → List Piece
  | [] => []
  | [q] => operandQueryPieces d q (q.pieces d)
  | q :: rest =>
    operandQueryPieces d q (q.pieces d) ++ .word ("\n" ++ keyword ++ "\n") ::
      operandsPieces d keyword rest

def Select.pieces (d : Dialect) : Select → List Piece
  | ⟨projection, source, filter, groupBy, having, orderBy, offset, fetch⟩ =>
    .word "SELECT " :: (if projection.isEmpty then [.word "*"] else projectionPieces d projection) ++
      fromPieces d source ++ optionPieces d "\nWHERE " filter ++
      (if groupBy.isEmpty then [] else .word "\nGROUP BY " :: termsPieces d groupBy) ++
      optionPieces d "\nHAVING " having ++
      (if orderBy.isEmpty then [] else .word "\nORDER BY " :: orderPieces d orderBy) ++
      [.word (limitText d offset fetch)]

def projectionPieces (d : Dialect) : List (Term × Option String) → List Piece
  | [] => []
  | (t, label) :: rest =>
    t.pieces d ++ (match label with
      | some label => aliasPieces d label
      | none => []) ++
      (if rest.isEmpty then [] else [.word ", "]) ++ projectionPieces d rest

def orderPieces (d : Dialect) : List (Term × Bool × Option Bool) → List Piece
  | [] => []
  | (t, descending, nullsFirst) :: rest =>
    t.pieces d ++ (if descending then [.word " DESC"] else []) ++
      (match nullsFirst with
        | some true => [.word " NULLS FIRST"]
        | some false => [.word " NULLS LAST"]
        | none => []) ++
      (if rest.isEmpty then [] else [.word ", "]) ++ orderPieces d rest

def fromPieces (d : Dialect) : Option Source → List Piece
  | none => []
  | some source => .word "\nFROM " :: source.pieces d

def Source.pieces (d : Dialect) : Source → List Piece
  | .table path label => pathPieces path ++ match label with
    | some label => aliasPieces d label
    | none => []
  | .derived query label => bracketed (query.pieces d) ++ aliasPieces d label
  | .values rows label columns =>
    .word "(VALUES " :: tuplesPieces d rows ++ .word ")" :: aliasPieces d label ++
      .word " (" :: namesPieces columns ++ [.word ")"]
  | .join kind left right on =>
    left.pieces d ++ .word "\n" :: .word (joinKeyword kind) ::
      (if right.isJoin then bracketed (right.pieces d) else right.pieces d) ++
      .word " ON " :: on.pieces d

end

def assignmentPieces (d : Dialect) (assignment : String × Term) : List Piece :=
  [.identifier assignment.1, .word " = "] ++ assignment.2.pieces d

def Statement.pieces (d : Dialect) : Statement → List Piece
  | .query q => q.pieces d
  | .insert table columns source =>
    .word "INSERT INTO " :: pathPieces table ++ .word " (" :: namesPieces columns ++ .word ")\n" ::
      match source with
      | .values rows => .word "VALUES " :: tuplesPieces d rows
      | .query q => q.pieces d
  | .update table assignments filter =>
    .word "UPDATE " :: pathPieces table ++ .word " SET " ::
      separated ", " (assignments.map (assignmentPieces d)) ++ optionPieces d "\nWHERE " filter
  | .delete table filter => .word "DELETE FROM " :: pathPieces table ++ optionPieces d "\nWHERE " filter

def piecesText (d : Dialect) (pieces : List Piece) : String := String.join (pieces.map (Piece.text d))

/-- The text of a statement, and its parameters in the order of the text. -/
def Statement.render (d : Dialect) (s : Statement) : String × List Nat :=
  (piecesText d (s.pieces d), (s.pieces d).filterMap Piece.param?)

end FederatedQuery.Sql
