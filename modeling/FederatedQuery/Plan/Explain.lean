import FederatedQuery.Plan.Basic

/-!
Plans in print: an operator on a line, its properties in brackets, its inputs indented below.
-/
namespace FederatedQuery

structure Explained where
  operator : String
  properties : List (String × String)

namespace Explained

def tupleText (row : Row) : String := "\x7b " ++ ", ".intercalate (row.map Value.text) ++ " \x7d"

def truthText (b : Bool) : String := if b then "true" else "false"

def assignmentText (table : Table) (column : Nat) (source : Expr) : String :=
  ((table.rowType.fields[column]?).map Field.name).getD "?" ++ "=" ++ source.text

/-- The properties that tell an operator from others of its kind. -/
def details : Plan → List (String × String)
  | .scan _ table => [("table", table.dottedPath)]
  | .values _ rows => [("tuples", "[" ++ ", ".intercalate (rows.map tupleText) ++ "]")]
  | .calculate _ program _ => [("program", program.text)]
  | .aggregate h group calls _ =>
    ("group", fieldList group) ::
      (calls.zip (h.rowType.fields.drop group.length)).map fun (call, field) =>
        (field.name, call.text)
  | .join _ kind on _ _ =>
    [("condition", on.text), ("joinType", String.ofList (kind.name.toList.map Char.toLower))]
  | .setOp _ _ all _ _ | .collect _ all _ _ => [("all", truthText all)]
  | .sort _ collation offset fetch _ =>
    ("sort", Collation.text collation) ::
      (offset.map fun n => ("offset", toString n)).toList ++
      (fetch.map fun n => ("fetch", toString n)).toList
  | .modify _ table op _ =>
    [("table", table.dottedPath), ("operation", op.name)] ++
      match op with
      | .update columns sources =>
        [("set", "[" ++ ", ".intercalate
          ((columns.zip sources).map fun (column, source) => assignmentText table column source) ++
          "]")]
      | _ => []
  | .converter _ source _ => [("from", source.text)]

def ofPlan (p : Plan) : Explained :=
  ⟨p.name, details p ++ [("convention", p.convention.text)]⟩

def text (e : Explained) : String :=
  e.operator ++ "(" ++ ", ".intercalate (e.properties.map fun (key, value) => key ++ "=" ++ value) ++ ")"

end Explained

namespace Plan

def line (depth : Nat) (p : Plan) : String :=
  String.ofList (List.replicate (2 * depth) ' ') ++ (Explained.ofPlan p).text ++ "\n"

mutual

def explainAt (depth : Nat) : Plan → String
  | scan h table => line depth (scan h table)
  | values h rows => line depth (values h rows)
  | calculate h program input =>
    line depth (calculate h program input) ++ explainAt (depth + 1) input
  | aggregate h group calls input =>
    line depth (aggregate h group calls input) ++ explainAt (depth + 1) input
  | join h kind on left right =>
    line depth (join h kind on left right) ++ explainAt (depth + 1) left ++ explainAt (depth + 1) right
  | setOp h op all first rest =>
    line depth (setOp h op all first rest) ++ explainAt (depth + 1) first ++ explainAllAt (depth + 1) rest
  | sort h collation offset fetch input =>
    line depth (sort h collation offset fetch input) ++ explainAt (depth + 1) input
  | modify h table op input => line depth (modify h table op input) ++ explainAt (depth + 1) input
  | collect h all first rest =>
    line depth (collect h all first rest) ++ explainAt (depth + 1) first ++ explainAllAt (depth + 1) rest
  | converter h source input => line depth (converter h source input) ++ explainAt (depth + 1) input

def explainAllAt (depth : Nat) : List Plan → String
  | [] => ""
  | p :: rest => explainAt depth p ++ explainAllAt depth rest

end

def explain (p : Plan) : String := p.explainAt 0

end Plan

end FederatedQuery
