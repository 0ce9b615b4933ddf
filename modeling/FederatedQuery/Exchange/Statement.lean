import FederatedQuery.Exchange.Plan
import FederatedQuery.Sql.Dialect
import FederatedQuery.Sql.Syntax

/-!
Dialects and statements as documents.
-/
namespace FederatedQuery.Exchange

open Sql

def ofRenames (renames : List (String × String)) : Document :=
  .object (renames.map fun (name, renamed) => (name, .string renamed))

def ofDialect (d : Dialect) : Document :=
  .object [("name", .string d.name), ("version", ofOption .string d.version),
    ("quote", ofOption (fun (opening, close) =>
      ofTexts [String.singleton opening, String.singleton close]) d.quote),
    ("null_collation", toWord NullCollation.words d.nullCollation),
    ("supports_nulls_syntax", .bool d.nullsClause),
    ("supports_nested_aggregations", .bool d.nestedAggregates),
    ("offset_fetch", toWord LimitStyle.words d.limit),
    ("offset_fetch_needs_order_by", .bool d.limitNeedsOrder),
    ("set_op_distinct_keyword", .bool d.distinctKeyword), ("minus_keyword", .string d.minusKeyword),
    ("alias_with_as", .bool d.aliasWithAs), ("cast_params", .bool d.castParams),
    ("values_in_from", .bool d.valuesInFrom), ("boolean_literals", .bool d.booleanLiterals),
    ("array_literals", .bool d.arrays), ("parenthesized_set_operands", .bool d.bracketedOperands),
    ("substring", toWord SubstringStyle.words d.substring), ("functions", ofRenames d.functions),
    ("cast_types", ofRenames d.castTypes),
    ("max_precision", .object (d.maxPrecision.map fun (name, limit) => (name, ofNat limit))),
    ("dual_table", ofOption .string d.dualTable)]

def statementKinds : List (String × StatementKind) :=
  [("query", .query), ("insert", .insert), ("update", .update), ("delete", .delete)]

mutual

def readTerm (d : Document) : Read Term := do
  match d with
  | .array [.string "col", name] => return .column none (← text name)
  | .array [.string "col", qualifier, name] => return .column (some (← text qualifier)) (← text name)
  | .array [.string "lit", v] => return .literal (← readValue v)
  | .array [.string "param", index, ty] => return .param (← natural index) (← readType ty)
  | .array [.string "bin", symbol, l, r] =>
    return .binary (← text symbol) (← readTerm l) (← readTerm r)
  | .array [.string "un", symbol, e] => return .unary (← text symbol) (← readTerm e)
  | .array [.string "post", e, symbol] => return .suffixed (← readTerm e) (← text symbol)
  | .array (.string "fn" :: name :: distinct :: args) =>
    return .function (← text name) (← boolean distinct) (← readTerms (.array args))
  | .array [.string "star"] => return .star
  | .array [.string "case", branches, otherwise] =>
    return .case (← (← parts branches).mapM fun ⟨b, _⟩ => readPair b) (← readTerm? otherwise)
  | .array [.string "cast", e, name] => return .cast (← readTerm e) (← text name)
  | .array [.string "substr", e, start, length] =>
    return .substring (← readTerm e) (← readTerm start) (← readTerm? length)
  | .array (.string "array" :: args) => return .array (← readTerms (.array args))
  | .array [.string "item", whole, index] => return .item (← readTerm whole) (← readTerm index)
  | .array [.string "exists", negated, q] => return .exists (← boolean negated) (← readQuery q)
  | .array [.string "sub", q] => return .subquery (← readQuery q)
  | _ => expected "term"
termination_by (sizeOf d, 0)

def readTerms (d : Document) : Read (List Term) := do (← parts d).mapM fun ⟨t, _⟩ => readTerm t
termination_by (sizeOf d, 1)

def readTerm? (d : Document) : Read (Option Term) := do
  match d with
  | .null => return none
  | d => return some (← readTerm d)
termination_by (sizeOf d, 1)

def readPair (d : Document) : Read (Term × Term) := do
  match d with
  | .array [condition, result] => return (← readTerm condition, ← readTerm result)
  | _ => expected "branch"
termination_by (sizeOf d, 0)

def readSelected (d : Document) : Read (Term × Option String) := do
  match d with
  | .array [e, label] => return (← readTerm e, ← nullable text label)
  | _ => expected "selected term"
termination_by (sizeOf d, 0)

def readOrder (d : Document) : Read (Term × Bool × Option Bool) := do
  match d with
  | .array [e, descending, nulls] =>
    return (← readTerm e, ← boolean descending, ← nullable boolean nulls)
  | _ => expected "order"
termination_by (sizeOf d, 0)

def readQuery (d : Document) : Read Query := do
  if has d "setop" then
    let op ← field d "setop" readSetOp
    let ⟨l, _⟩ ← part d "in"
    return .setOp op (flag d "all" false) (← (← parts l).mapM fun ⟨q, _⟩ => readQuery q)
  else
    let termOf (key : String) : Read (Option Term) := do
      match part? d key with
      | none => return none
      | some ⟨v, _⟩ => return some (← readTerm v)
    let projection ← match part? d "projection" with
      | none => pure []
      | some ⟨l, _⟩ => (← parts l).mapM fun ⟨v, _⟩ => readSelected v
    let source ← match part? d "from" with
      | none => pure none
      | some ⟨v, _⟩ => some <$> readSource v
    let filter ← termOf "where"
    let groupBy ← match part? d "group_by" with
      | none => pure []
      | some ⟨l, _⟩ => readTerms l
    let having ← termOf "having"
    let orderBy ← match part? d "order_by" with
      | none => pure []
      | some ⟨l, _⟩ => (← parts l).mapM fun ⟨v, _⟩ => readOrder v
    return .select ⟨projection, source, filter, groupBy, having, orderBy, ← option d "offset" natural,
      ← option d "fetch" natural⟩
termination_by (sizeOf d, 0)

def readSource (d : Document) : Read Source := do
  if has d "table" then return .table (← field d "table" (listOf text)) (← option d "alias" text)
  else if has d "sub" then
    let ⟨q, _⟩ ← part d "sub"
    return .derived (← readQuery q) (← field d "alias" text)
  else if has d "values" then
    let ⟨rows, _⟩ ← part d "values"
    return .values (← (← parts rows).mapM fun ⟨r, _⟩ => readTerms r) (← field d "alias" text)
      (← field d "columns" (listOf text))
  else
    let ⟨l, _⟩ ← part d "left"
    let ⟨r, _⟩ ← part d "right"
    let ⟨on, _⟩ ← part d "on"
    return .join (← field d "join" readJoinKind) (← readSource l) (← readSource r) (← readTerm on)
termination_by (sizeOf d, 0)

end

def readAssignment (d : Document) : Read (String × Term) := do
  match d with
  | .array [name, e] => return (← text name, ← readTerm e)
  | _ => expected "assignment"

def readStatement (d : Document) : Read Statement := do
  if has d "query" then return .query (← field d "query" readQuery)
  else
    let table ← field d "table" (listOf text)
    match ← field d "dml" text with
    | "insert" =>
      let columns ← field d "columns" (listOf text)
      if has d "values" then return .insert table columns (.values (← field d "values" (listOf readTerms)))
      else return .insert table columns (.query (← field d "source" readQuery))
    | "update" =>
      return .update table (← field d "set" (listOf readAssignment)) (← option d "where" readTerm)
    | _ => return .delete table (← option d "where" readTerm)

end FederatedQuery.Exchange
