import FederatedQuery.Plan.Table
import FederatedQuery.Plan.Traits
import FederatedQuery.Program.Basic

/-!
Relational plans. Every operator carries the type of its rows and its traits.
-/
namespace FederatedQuery

inductive ModifyOp where
  | insert
  /-- Sets columns to expressions over the input row. -/
  | update (columns : List Nat) (sources : List Expr)
  | delete

def ModifyOp.name : ModifyOp → String
  | .insert => "INSERT"
  | .update .. => "UPDATE"
  | .delete => "DELETE"

/-- What every operator has. -/
structure Head where
  rowType : RowType
  traits : Traits

inductive Plan where
  | scan (head : Head) (table : Table)
  | values (head : Head) (rows : List Row)
  /-- Filter and projection. -/
  | calculate (head : Head) (program : Program) (input : Plan)
  /-- Group keys, then aggregate calls. -/
  | aggregate (head : Head) (group : List Nat) (calls : List AggCall) (input : Plan)
  /-- The condition is on the fields of both sides, the left ones first. -/
  | join (head : Head) (kind : JoinKind) (on : Expr) (left right : Plan)
  | setOp (head : Head) (op : SetOp) (all : Bool) (first : Plan) (rest : List Plan)
  | sort (head : Head) (collation : Collation) (offset fetch : Option Nat) (input : Plan)
  /-- A change to a table, which gives the count of changed rows. -/
  | modify (head : Head) (table : Table) (op : ModifyOp) (input : Plan)
  /-- The counts of several changes. -/
  | collect (head : Head) (all : Bool) (first : Plan) (rest : List Plan)
  /-- The boundary between the convention that the input is said to live in and that of the operator. -/
  | converter (head : Head) (source : Convention) (input : Plan)

namespace Plan

def head : Plan → Head
  | scan h .. | values h .. | calculate h .. | aggregate h .. | join h .. | setOp h .. | sort h ..
  | modify h .. | collect h .. | converter h .. => h

def rowType (p : Plan) : RowType := p.head.rowType

def traits (p : Plan) : Traits := p.head.traits

def convention (p : Plan) : Convention := p.traits.convention

def name : Plan → String
  | scan .. => "Scan"
  | values .. => "Values"
  | calculate .. => "Calc"
  | aggregate .. => "Aggregate"
  | join .. => "Join"
  | setOp _ op .. => op.name
  | sort .. => "Sort"
  | modify .. => "Modify"
  | collect .. => "ModifyCollect"
  | converter .. => "Converter"

def inputs : Plan → List Plan
  | scan .. | values .. => []
  | calculate _ _ input | aggregate _ _ _ input | sort _ _ _ _ input | modify _ _ _ input
  | converter _ _ input => [input]
  | join _ _ _ left right => [left, right]
  | setOp _ _ _ first rest | collect _ _ first rest => first :: rest

def withHead (h : Head) : Plan → Plan
  | scan _ table => scan h table
  | values _ rows => values h rows
  | calculate _ program input => calculate h program input
  | aggregate _ group calls input => aggregate h group calls input
  | join _ kind on left right => join h kind on left right
  | setOp _ op all first rest => setOp h op all first rest
  | sort _ collation offset fetch input => sort h collation offset fetch input
  | modify _ table op input => modify h table op input
  | collect _ all first rest => collect h all first rest
  | converter _ source input => converter h source input

def withTraits (p : Plan) (traits : Traits) : Plan := p.withHead { p.head with traits }

def withConvention (p : Plan) (convention : Convention) : Plan :=
  p.withTraits { p.traits with convention }

/-- The operator over other inputs, when there are as many as before. -/
def withInputs? (p : Plan) (inputs : List Plan) : Option Plan :=
  match p, inputs with
  | scan h table, [] => some (scan h table)
  | values h rows, [] => some (values h rows)
  | calculate h program _, [input] => some (calculate h program input)
  | aggregate h group calls _, [input] => some (aggregate h group calls input)
  | join h kind on _ _, [left, right] => some (join h kind on left right)
  | setOp h op all _ rest, first :: others =>
    if others.length = rest.length then some (setOp h op all first others) else none
  | sort h collation offset fetch _, [input] => some (sort h collation offset fetch input)
  | modify h table op _, [input] => some (modify h table op input)
  | collect h all _ rest, first :: others =>
    if others.length = rest.length then some (collect h all first others) else none
  | converter h _ _, [input] => some (converter h input.convention input)
  | _, _ => none

/-- The operator with other traits and inputs. There must be as many inputs, of compatible types. -/
def copy (p : Plan) (traits : Traits) (inputs : List Plan) : Except Error Plan :=
  match (p.withTraits traits).withInputs? inputs with
  | none => .error (.contract (.copiedArity p.name inputs.length p.inputs.length))
  | some copied =>
    match (p.inputs.zip inputs).find? fun (old, new) => !old.rowType.compatible new.rowType with
    | some (old, new) => .error (.contract (.copiedInput p.name old.rowType new.rowType))
    | none => .ok copied

def input (p : Plan) (index : Nat) : Except Error Plan :=
  match p.inputs[index]? with
  | some input => .ok input
  | none => .error (.contract (.noInput p.name index))

mutual

/-- Whether every operator down to the converters lives in one convention. -/
def isHomogeneous (c : Convention) : Plan → Bool
  | scan h _ | values h _ | converter h .. => decide (h.traits.convention = c)
  | calculate h _ input | aggregate h _ _ input | sort h _ _ _ input | modify h _ _ input =>
    decide (h.traits.convention = c) && isHomogeneous c input
  | join h _ _ left right =>
    decide (h.traits.convention = c) && isHomogeneous c left && isHomogeneous c right
  | setOp h _ _ first rest | collect h _ first rest =>
    decide (h.traits.convention = c) && isHomogeneous c first && areHomogeneous c rest

def areHomogeneous (c : Convention) : List Plan → Bool
  | [] => true
  | p :: rest => isHomogeneous c p && areHomogeneous c rest

end

end Plan

end FederatedQuery
