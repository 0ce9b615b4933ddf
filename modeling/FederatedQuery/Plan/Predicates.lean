import FederatedQuery.Plan.Basic

/-!
Predicates that are true on every row of a plan, over the fields of its output.
-/
namespace FederatedQuery.Plan

/-- Not-null tests of the fields that are never null, from a position on. -/
def notNullFrom : Nat → List Field → List Expr
  | _, [] => []
  | index, f :: rest =>
    if f.nullable then notNullFrom (index + 1) rest
    else .apply .isNotNull [.ref index f.type false] :: notNullFrom (index + 1) rest

mutual

def predicates : Plan → Predicates
  | scan h _ => Predicates.ofList (notNullFrom 0 h.rowType.fields)
  | values .. | modify .. | collect .. => .empty
  | calculate _ program input =>
    let below := match program.condition with
      | some condition => input.predicates.union (Predicates.ofList [condition])
      | none => input.predicates
    below.remap fun i => program.forwarded.findIdx? (· == some i)
  | aggregate _ group _ input => input.predicates.remap fun i => group.findIdx? (· == i)
  | sort _ _ _ _ input | converter _ _ input => input.predicates
  | join _ kind on left right =>
    let below := right.predicates.remap fun i => some (i + left.rowType.arity)
    match kind with
    | .inner => (left.predicates.union below).union (Predicates.ofList [on])
    | .left | .semi | .anti => left.predicates
    | .right => below
    | .full => .empty
  | setOp _ op _ first rest => match op with
    | .minus => first.predicates
    | .union | .intersect => intersectPredicates first.predicates rest

def intersectPredicates (p : Predicates) : List Plan → Predicates
  | [] => p
  | q :: rest => intersectPredicates (p.intersect q.predicates) rest

end

end FederatedQuery.Plan
