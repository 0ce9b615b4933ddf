import FederatedQuery.Sql.Syntax

/-!
Queries under construction. A block knows which clauses it uses already, in the order in which they
take effect. An operator whose clause would come before a used one, or on it, makes the block a source
of a new block first. Such sources are named `t0`, `t1` and so on by a counter that is passed along.
-/
namespace FederatedQuery.Sql

inductive Clause where
  | source | filter | groupBy | having | projection | setOp | orderBy | fetch
deriving DecidableEq

/-- Clauses in the order in which they take effect. -/
def Clause.position : Clause → Nat
  | source => 0
  | filter => 1
  | groupBy => 2
  | having => 3
  | projection => 4
  | setOp => 5
  | orderBy => 6
  | fetch => 7

structure Block where
  source : Source
  filter : Option Term
  groupBy : List Term
  having : Option Term
  orderBy : List (Term × Bool × Option Bool)
  offset : Option Nat
  fetch : Option Nat
  clauses : List Clause
  fields : List Term
  names : List String
  /-- The names by which columns of the sources can be qualified. -/
  qualifiers : List String

inductive Fragment where
  | block (block : Block)
  /-- A query that can only become a source. -/
  | finished (query : Query) (names : List String)

def derivedName (number : Nat) : String := "t" ++ toString number

def plainColumns (names : List String) : List Term := names.map (.column none)

namespace Block

def ofSource (source : Source) (qualifiers : List String) (fields : List Term)
    (names : List String) : Block :=
  ⟨source, none, [], none, [], none, none, [.source], fields, names, qualifiers⟩

/-- Whether a clause from a given one on is in use. -/
def reaches (b : Block) (c : Clause) : Bool := b.clauses.any fun used => c.position ≤ used.position

/-- Whether no clause behind a given one is in use. -/
def endsBy (b : Block) (c : Clause) : Bool := b.clauses.all fun used => used.position ≤ c.position

def isBare (b : Block) : Bool := decide (b.clauses = [.source])

/-- Whether every field is the column of its name, so that all columns can be selected at once. -/
def selectsAll (b : Block) : Bool :=
  decide (.projection ∉ b.clauses) && decide (.groupBy ∉ b.clauses) &&
    (b.fields.zip b.names).all fun (field, name) => field.columnName? = some name

/-- A field with its name, which needs no mention when it is that of the column. -/
def selected (field : Term) (name : String) : Term × Option String :=
  (field, if field.columnName? = some name then none else some name)

def toQuery (b : Block) : Query :=
  .select ⟨if b.selectsAll then [] else List.zipWith selected b.fields b.names, some b.source, b.filter,
    b.groupBy, b.having, b.orderBy, b.offset, b.fetch⟩

end Block

namespace Fragment

def names : Fragment → List String
  | block b => b.names
  | finished _ names => names

def toQuery : Fragment → Query
  | block b => b.toQuery
  | finished query _ => query

/-- The fragment as the only source of a new block. -/
def derived (f : Fragment) (next : Nat) : Block :=
  Block.ofSource (.derived f.toQuery (derivedName next)) [derivedName next] (plainColumns f.names)
    f.names

def readyFor (c : Clause) (f : Fragment) (next : Nat) : Block × Nat :=
  match f with
  | block b => if b.reaches c then (f.derived next, next + 1) else (b, next)
  | finished .. => (f.derived next, next + 1)

def bare (f : Fragment) (next : Nat) : Block × Nat :=
  match f with
  | block b => if b.isBare then (b, next) else (f.derived next, next + 1)
  | finished .. => (f.derived next, next + 1)

end Fragment

/-- One side of a join, with its fields qualified. -/
structure Side where
  source : Source
  fields : List Term
  qualifiers : List String

def qualified (qualifier : String) : Term → Term
  | .column none name => .column (some qualifier) name
  | t => t

/-- A fragment as a side of a join. A table whose name is taken gets a new one. -/
def Fragment.side (taken : List String) (f : Fragment) (next : Nat) : Side × Nat :=
  let (b, next) := f.bare next
  let named (source : Source) (qualifier : String) : Side :=
    ⟨source, b.fields.map (qualified qualifier), [qualifier]⟩
  match b.source with
  | .join .. => (⟨b.source, b.fields, b.qualifiers⟩, next)
  | .table path _ =>
    let qualifier := b.qualifiers.head?.getD ""
    if qualifier ∈ taken then (named (.table path (some (derivedName next))) (derivedName next), next + 1)
    else (named b.source qualifier, next)
  | source => (named source (b.qualifiers.head?.getD ""), next)

/-- The operands of a set operation. One that is the same operation already gives its own operands;
the difference takes apart only its first. -/
def flattened (op : SetOp) (all first : Bool) : Query → List Query
  | .setOp op' all' inputs =>
    if op' = op ∧ all' = all ∧ (op ≠ .minus ∨ first = true) then inputs else [.setOp op' all' inputs]
  | q => [q]

end FederatedQuery.Sql
