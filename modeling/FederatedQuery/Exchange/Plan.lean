import FederatedQuery.Exchange.Expr
import FederatedQuery.Plan.Placement

/-!
Tables, traits and plans as documents.
-/
namespace FederatedQuery.Exchange

def readConvention (d : Document) : Read Convention := do checked (Convention.read (← text d))

def conventionKinds : List (String × ConventionKind) :=
  [("none", .logical), ("pull-iterator", .pull), ("sql", .sql), ("document-pipeline", .document)]

def readSortKey (d : Document) : Read SortKey := do
  match d with
  | .array [index, direction, nulls] =>
    return ⟨← natural index, ← wordFor [("asc", .ascending), ("desc", .descending)] direction,
      ← wordFor [("first", .first), ("last", .last), ("unspecified", .unspecified)] nulls⟩
  | _ => expected "sort key"

def readCollation : Document → Read Collation := listOf readSortKey

def readDistribution (d : Document) : Read Distribution := do
  match d with
  | .object [("hash", keys)] => return .hash (← listOf natural keys)
  | .object [("range", keys)] => return .range (← listOf natural keys)
  | d => wordFor [("any", .any), ("single", .singleton), ("rr", .roundRobin),
      ("broadcast", .broadcast), ("random", .random)] d

def readTraits (d : Document) : Read Traits := do
  return ⟨(← option d "convention" readConvention).getD .logical,
    (← option d "collation" readCollation).getD [],
    (← option d "distribution" readDistribution).getD .any⟩

/-- A table and the rows that are held of it. -/
def readTable (d : Document) : Read (Table × List Row) := do
  let t := Table.named (← field d "name" text) (← field d "fields" readRowType)
  let rows ← option d "rows" (listOf readRow)
  let t := { t with
    path := (← option d "path" (listOf text)).getD t.path
    convention := (← option d "convention" readConvention).getD t.convention
    primaryKey := (← option d "pk" (listOf natural)).getD []
    physicalNames := ← option d "physical" (listOf text)
    stored := rows.isSome }
  return (t, rows.getD [])

/-- A catalog and the rows of its tables. A later table takes the place of an earlier one, rows
included. -/
def readTables (d : Document) : Read (Catalog × Store) := do
  let all ← list d "tables" readTable
  return (all.map Prod.fst, all.foldl (fun (s : Store) (t, rows) => s.put t.name rows) [])

def readAggCall (d : Document) : Read AggCall := do
  match d with
  | .array [function, args, distinct, name] =>
    return ⟨← wordFor [("count", .count), ("sum", .sum), ("min", .min), ("max", .max), ("avg", .avg)]
      function, ← listOf natural args, ← boolean distinct, ← text name⟩
  | _ => expected "aggregate call"

def readJoinKind : Document → Read JoinKind :=
  wordFor [("inner", .inner), ("left", .left), ("right", .right), ("full", .full), ("semi", .semi),
    ("anti", .anti)]

def readSetOp : Document → Read SetOp :=
  wordFor [("union", .union), ("intersect", .intersect), ("minus", .minus)]

def readModifyOp (d : Document) : Read ModifyOp := do
  match ← field d "modify" text with
  | "insert" => return .insert
  | "delete" => return .delete
  | _ => return .update (← list d "columns" natural) (← list d "sources" readExpr)

def readPlan (c : Catalog) (d : Document) : Read Plan := do
  let input : Read Plan := do
    let ⟨v, _⟩ ← part d "in"
    readPlan c v
  let inputs : Read (List Plan) := do
    let ⟨v, _⟩ ← part d "in"
    (← parts v).mapM fun ⟨p, _⟩ => readPlan c p
  if has d "scan" then return .ofTable (← checked (c.lookup (← field d "scan" text)))
  else if has d "values" then
    let v ← part d "values"
    checked (Plan.ofRows (← field v "fields" readRowType) (← list v "rows" readRow))
  else if has d "filter" then
    let e ← field d "filter" readExpr
    checked ((← input).filter e)
  else if has d "project" then
    let p ← field d "project" (listOf readProjection)
    checked ((← input).project p)
  else if has d "calc" then
    let p ← part d "calc"
    let input ← input
    let fields := (← option p "input" readRowType).getD input.rowType
    let program ← checked (Program.new fields (← list p "projects" readProjection)
      (← option p "where" readExpr))
    checked (input.run program)
  else if has d "aggregate" then
    let calls ← list d "aggregate" readAggCall
    let keys ← list d "group" natural
    checked ((← input).group keys calls)
  else if has d "join" then
    let kind ← field d "join" readJoinKind
    let on ← field d "on" readExpr
    let ⟨l, _⟩ ← part d "left"
    let ⟨r, _⟩ ← part d "right"
    let left ← readPlan c l
    checked (Plan.joinOn left (← readPlan c r) kind on)
  else if has d "setop" then
    let op ← field d "setop" readSetOp
    checked (Plan.setOperation op (flag d "all" false) (← inputs))
  else if has d "sort" then
    let keys ← field d "sort" readCollation
    let offset ← option d "offset" natural
    let fetch ← option d "fetch" natural
    checked ((← input).sortBy keys offset fetch)
  else if has d "modify" then
    let t ← checked (c.lookup (← field d "table" text))
    let op ← readModifyOp d
    checked (Plan.modifyTable t op (← input))
  else if has d "modify_collect" then
    let all ← field d "modify_collect" boolean
    checked (Plan.collectCounts all (← inputs))
  else if has d "converter" then
    let input ← input
    return input.convert (← field d "converter" readConvention)
  else if has d "with_convention" then
    let input ← input
    return input.withConvention (← field d "with_convention" readConvention)
  else expected "plan"
termination_by sizeOf d

end FederatedQuery.Exchange
