import FederatedQuery.Error.Basic
import FederatedQuery.Sql.Dialect
import FederatedQuery.Sql.Syntax

/-!
Expressions as terms of a dialect. A reference becomes the term that computes the field it reads, so
the terms of the fields are an argument throughout.
-/
namespace FederatedQuery.Sql

def fieldTerm (fields : List Term) (index : Nat) : Except Error Term :=
  match fields[index]? with
  | some t => .ok t
  | none => .error (.contract (.queryColumn index))

/-- A dialect without a boolean type writes a comparison for a truth value. -/
def literalTerm (d : Dialect) : Value → Except Error Term
  | .bool b =>
    .ok (if d.booleanLiterals then .literal (.bool b)
      else .binary "=" (.literal (.int 1)) (.literal (.int (if b then 1 else 0))))
  | .float x =>
    if x.isFinite then .ok (.literal (.float x))
    else .error (.unsupported d.name "FLOAT" (Double.plainLayout.text x ++ " has no SQL literal form"))
  | .array items =>
    if d.arrays then .ok (.literal (.array items))
    else .error (.unsupported d.name "ARRAY" s!"dialect {d.name} does not support array literals")
  | v => .ok (.literal v)

def chainTerm (symbol : String) : List Term → Except Error Term
  | [] => .error (.contract (.noOperands symbol))
  | first :: rest => .ok (rest.foldl (.binary symbol) first)

/-- Operands under a function of the dialect, or between its name when that is a symbol. -/
def renamedTerm (d : Dialect) (standard symbol : String) (args : List Term) : Except Error Term :=
  let name := d.functionName standard
  if name = symbol then chainTerm symbol args else .ok (.function name false args)

def firstTerm (op : Op) : List Term → Except Error Term
  | [] => .error (.contract (.noOperand op))
  | t :: _ => .ok t

/-- The operands of a case in pairs, and the default if one is left over. -/
def caseTerm : List Term → List (Term × Term) × Option Term
  | [] => ([], none)
  | [otherwise] => ([], some otherwise)
  | condition :: result :: rest =>
    let (branches, otherwise) := caseTerm rest
    ((condition, result) :: branches, otherwise)

def unwindError (d : Dialect) : Error :=
  .unsupported d.name "UNWIND" s!"dialect {d.name} cannot expand a multi-valued projection"

def arrayError (d : Dialect) (op : Op) : Error :=
  .unsupported d.name op.name s!"dialect {d.name} does not support arrays"

def callTerm (d : Dialect) (op : Op) (args : List Term) (ty : SqlType) : Except Error Term :=
  match op with
  | .eq => chainTerm "=" args
  | .ne => chainTerm "<>" args
  | .lt => chainTerm "<" args
  | .le => chainTerm "<=" args
  | .gt => chainTerm ">" args
  | .ge => chainTerm ">=" args
  | .and => if args.isEmpty then literalTerm d (.bool true) else chainTerm "AND" args
  | .or => if args.isEmpty then literalTerm d (.bool false) else chainTerm "OR" args
  | .not => (firstTerm op args).map (.unary "NOT")
  | .negate => (firstTerm op args).map (.unary "-")
  | .isNull => (firstTerm op args).map (.suffixed · "IS NULL")
  | .isNotNull => (firstTerm op args).map (.suffixed · "IS NOT NULL")
  | .isTrue => (firstTerm op args).map (.suffixed · "IS TRUE")
  | .isFalse => (firstTerm op args).map (.suffixed · "IS FALSE")
  | .plus => chainTerm "+" args
  | .minus => chainTerm "-" args
  | .times => chainTerm "*" args
  | .divide => chainTerm "/" args
  | .mod => renamedTerm d "MOD" "%" args
  | .concat => renamedTerm d "||" "||" args
  | .upper => .ok (.function (d.functionName "UPPER") false args)
  | .lower => .ok (.function (d.functionName "LOWER") false args)
  | .charLength => .ok (.function (d.functionName "CHAR_LENGTH") false args)
  | .substring => match args with
    | text :: start :: rest =>
      if rest.isEmpty ∧ d.substring = .commas then
        .error (.unsupported d.name "SUBSTRING" "MSSQL SUBSTRING requires FROM and FOR arguments")
      else .ok (.substring text start rest.head?)
    | _ => .error (.contract .substringCall)
  | .cast => (firstTerm op args).map (.cast · (d.castName ty))
  | .case =>
    let (branches, otherwise) := caseTerm args
    .ok (.case branches otherwise)
  | .coalesce => .ok (.function "COALESCE" false args)
  | .item =>
    if d.arrays then
      match args with
      | array :: index :: _ => .ok (.item array index)
      | _ => .error (.contract .itemCall)
    else .error (arrayError d op)
  | .arrayValue => if d.arrays then .ok (.array args) else .error (arrayError d op)
  | .unwind => .error (unwindError d)

mutual

def scalarTerm (d : Dialect) (fields : List Term) : Expr → Except Error Term
  | .ref index _ _ => fieldTerm fields index
  | .lit v => literalTerm d v
  | .param index ty => .ok (.param index ty)
  | .call op operands ty => do callTerm d op (← scalarTerms d fields operands) ty

def scalarTerms (d : Dialect) (fields : List Term) : List Expr → Except Error (List Term)
  | [] => .ok []
  | e :: rest => do
    let t ← scalarTerm d fields e
    return t :: (← scalarTerms d fields rest)

end

/-- An aggregate call on fields; without arguments it counts rows. -/
def aggregateTerm (fields : List Term) (call : AggCall) : Except Error Term := do
  let args ← if call.function = .count ∧ call.args.isEmpty then .ok [.star]
    else call.args.mapM (fieldTerm fields)
  return .function call.function.name call.distinct args

end FederatedQuery.Sql
