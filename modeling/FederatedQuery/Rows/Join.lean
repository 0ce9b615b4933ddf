import FederatedQuery.Expr.Eval

/-!
Nested-loop joins. Every left row meets every right row in order; a semi or anti join stops at the first
match. Unmatched rows of a preserved side are padded with nulls.
-/
namespace FederatedQuery.Rows

def nulls (n : Nat) : Row := List.replicate n .null

/-- Which right rows match a left row. -/
def matchMarks (on : Expr) (params : Bindings) (left : Row) (right : List Row) :
    Except Error (List Bool) :=
  right.mapM fun r => on.test (left ++ r) params

/-- Whether a left row has a match; rows after the first match are not looked at. -/
def hasMatch (on : Expr) (params : Bindings) (left : Row) : List Row → Except Error Bool
  | [] => .ok false
  | r :: rest => do
    if ← on.test (left ++ r) params then return true else hasMatch on params left rest

/-- The left rows that have a match, or those that have none. -/
def matching (wanted : Bool) (on : Expr) (params : Bindings) (right : List Row) :
    List Row → Except Error (List Row)
  | [] => .ok []
  | l :: rest => do
    let found ← hasMatch on params l right
    let kept ← matching wanted on params right rest
    return if found == wanted then l :: kept else kept

def marked (rows : List Row) (marks : List Bool) : List Row :=
  ((rows.zip marks).filter Prod.snd).map Prod.fst

def joinedRows (pad : Bool) (rightArity : Nat) (right : List Row) (left : Row) (marks : List Bool) :
    List Row :=
  let found := marked right marks
  if found.isEmpty && pad then [left ++ nulls rightArity] else found.map (left ++ ·)

def unmatched (right : List Row) (table : List (List Bool)) : List Row :=
  marked right ((List.range right.length).map fun j => table.all fun marks => marks[j]? != some true)

def join (kind : JoinKind) (on : Expr) (leftArity rightArity : Nat) (params : Bindings)
    (left right : List Row) : Except Error (List Row) :=
  match kind with
  | .semi => matching true on params right left
  | .anti => matching false on params right left
  | kind => do
    let table ← left.mapM fun l => matchMarks on params l right
    let found := (left.zip table).flatMap fun (l, marks) =>
      joinedRows kind.padsRight rightArity right l marks
    let orphans := if kind.padsLeft then (unmatched right table).map (nulls leftArity ++ ·) else []
    return found ++ orphans

end FederatedQuery.Rows
