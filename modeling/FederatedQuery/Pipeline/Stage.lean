import FederatedQuery.Pipeline.Expr
import FederatedQuery.Plan.Basic

/-!
Plans as stages of an aggregation pipeline. The documents between two stages have the names of the
operator's columns.
-/
namespace FederatedQuery.Pipeline

inductive Stage where
  /-- Starts from literal documents. -/
  | documents (documents : List Document)
  | filter (condition : Document)
  | project (fields : Entries)
  | group (fields : Entries)
  | addFields (fields : Entries)
  | sort (keys : Entries)
  | skip (count : Nat)
  | limit (count : Nat)

def Stage.document : Stage → Document
  | documents ds => .single "$documents" (.array ds)
  | filter condition => .single "$match" condition
  | project fields => .single "$project" (.object fields)
  | group fields => .single "$group" (.object fields)
  | addFields fields => .single "$addFields" (.object fields)
  | sort keys => .single "$sort" (.object keys)
  | skip count => .single "$skip" (.int count)
  | limit count => .single "$limit" (.int count)

/-- Stages over a collection, which has no name when they start from literal documents. -/
structure Chain where
  collection : String
  stages : List Stage

def Chain.extend (c : Chain) (stages : List Stage) : Chain := { c with stages := c.stages ++ stages }

/-- Leaves the key of the store out, unless a field has its name. -/
def hideId (fields : Entries) : Entries :=
  if (fields.get? "_id").isSome then fields else fields.put "_id" (.int 0)

/-- Where a column is found in the documents of a table. -/
def storedName (table : Table) (index : Nat) (name : String) : String :=
  (table.physicalName? index).getD name

def storedNames (table : Table) : List String :=
  table.rowType.names.mapIdx (storedName table)

/-- Gives the columns of a table their names, when they have others in the store. -/
def scanStages (table : Table) : List Stage :=
  if table.hasMapping then
    [.project (hideId (Entries.ofPairs
      (table.rowType.names.zip ((storedNames table).map path))))]
  else []

def rowDocument (names : List String) (row : Row) : Except Error Document := do
  let pairs ← (names.zip row).mapM fun (name, v) => do return (name, ← Document.ofValue v)
  return .object (Entries.ofPairs pairs)

def programStages (program : Program) (input : List String) : Except Error (List Stage) := do
  if program.unwindPosition.isSome then
    .error (unsupported "UNWIND" "multi-valued projections are expanded outside the document store")
  else
    let matching ← match program.condition with
      | none => .ok []
      | some condition => (filterDocument input condition).map fun d => [Stage.filter d]
    let output := program.output.names
    if program.isIdentity && (output.zip input).all fun (new, old) => new = old then return matching
    else
      let fields ← (program.projects.zip output).mapM fun (e, name) => do
        return (name, ← exprDocument input e)
      return matching ++ [.project (hideId (Entries.ofPairs fields))]

/-- The accumulator that collects a call over a group. A call on distinct values collects the values
themselves. -/
def accumulator (call : AggCall) (args : List Document) : Except Error Document :=
  if call.distinct then
    match args with
    | [arg] => .ok (.single "$addToSet" arg)
    | _ => .error (unsupported call.text
        "DISTINCT aggregates take exactly one argument in a document pipeline")
  else match call.function, args with
    | .count, [] => .ok (.single "$sum" (.int 1))
    | .count, args =>
      let present := applied "$and" (args.map fun arg => applied "$gt" [arg, .null])
      .ok (.single "$sum" (applied "$cond" [present, .int 1, .int 0]))
    | .sum, arg :: _ => .ok (.single "$sum" arg)
    | .min, arg :: _ => .ok (.single "$min" arg)
    | .max, arg :: _ => .ok (.single "$max" arg)
    | .avg, arg :: _ => .ok (.single "$avg" arg)
    | f, [] => .error (.contract (.aggregateArity f 0))

def finalizer (call : AggCall) (name : String) : Document :=
  if call.distinct then
    match call.function with
    | .count => .single "$size" (.single "$filter" (.object [("input", path name), ("as", .string "v"),
        ("cond", applied "$gt" [.string "$$v", .null])]))
    | .sum => .single "$sum" (path name)
    | .min => .single "$min" (path name)
    | .max => .single "$max" (path name)
    | .avg => .single "$avg" (path name)
  else path name

/-- Groups under the store's key, and then spreads the key over the columns. -/
def aggregateStages (group : List Nat) (calls : List AggCall) (input output : List String) :
    Except Error (List Stage) := do
  let keys ← (group.zip output).mapM fun (key, name) => do return (name, path (← fieldName input key))
  let named := calls.zip (output.drop group.length)
  let accumulators ← named.mapM fun (call, name) => do
    let args ← call.args.mapM fun arg => do return path (← fieldName input arg)
    return (name, ← accumulator call args)
  let id := if group.isEmpty then Document.null else .object (Entries.ofPairs keys)
  let spread := keys.map fun (name, _) => (name, Document.string ("$_id." ++ name))
  let results := named.map fun (call, name) => (name, finalizer call name)
  return [.group (Entries.ofPairs (("_id", id) :: accumulators)),
    .project (Entries.ofPairs (spread ++ results ++ [("_id", .int 0)]))]

/-- The temporary field that tells whether another is null. -/
def nullFlag (name : String) : String := "__nulls_" ++ name

def directionDocument (descending : Bool) : Document := .int (if descending then -1 else 1)

/-- Whether nulls must be sorted by a flag: the store has them below all values, so it puts them first
exactly in ascending order. -/
def needsNullFlag (key : SortKey) : Bool :=
  match key.nulls with
  | .first => key.isDescending
  | .last => !key.isDescending
  | .unspecified => false

def sortKeyEntries (key : SortKey) (name : String) : List (String × Document) :=
  (if needsNullFlag key then [(nullFlag name, directionDocument key.isDescending)] else []) ++
    [(name, directionDocument key.isDescending)]

def sortStages (collation : Collation) (offset fetch : Option Nat) (names : List String) :
    Except Error (List Stage) := do
  let named ← collation.mapM fun key => do return (key, ← fieldName names key.field)
  let keys := Entries.ofPairs (named.flatMap fun (key, name) => sortKeyEntries key name)
  let flags := Entries.ofPairs ((named.filter fun (key, _) => needsNullFlag key).map fun (_, name) =>
    (nullFlag name, applied "$lte" [path name, .null]))
  return (if flags.isEmpty then [] else [.addFields flags]) ++
    (if keys.isEmpty then [] else [.sort keys]) ++
    (if flags.isEmpty then [] else [.project (flags.map fun (flag, _) => (flag, .int 0))]) ++
    (offset.map Stage.skip).toList ++ (fetch.map Stage.limit).toList

def chain : Plan → Except Error Chain
  | .scan _ table => .ok ⟨table.physicalTable, scanStages table⟩
  | .values h rows => do return ⟨"", [.documents (← rows.mapM (rowDocument h.rowType.names))]⟩
  | .calculate _ program input => do
    let c ← chain input
    return c.extend (← programStages program input.rowType.names)
  | .aggregate h group calls input => do
    let c ← chain input
    return c.extend (← aggregateStages group calls input.rowType.names h.rowType.names)
  | .sort h collation offset fetch input => do
    let c ← chain input
    return c.extend (← sortStages collation offset fetch h.rowType.names)
  | p => .error (unsupported p.name s!"a document pipeline cannot express {p.name} inside a query")

end FederatedQuery.Pipeline
