import FederatedQuery.Error.Basic

/-!
Tables as the planner sees them, and the rows of those that are held in process.
-/
namespace FederatedQuery

structure Table where
  name : String
  /-- Schema and table in the store that holds it. -/
  path : List String
  rowType : RowType
  convention : Convention
  /-- Fields of the primary key; empty when there is none. -/
  primaryKey : List Nat
  /-- Column names in the store, when they differ from those of the row type. -/
  physicalNames : Option (List String)
  stored : Bool
deriving DecidableEq

namespace Table

/-- A table of the in-process convention, without rows, whose path is its name. -/
def named (name : String) (rowType : RowType) : Table :=
  ⟨name, [name], rowType, .pull, [], none, false⟩

/-- The name used in generated queries: the last of the path. -/
def physicalTable (t : Table) : String := t.path.getLast?.getD t.name

def dottedPath (t : Table) : String := ".".intercalate t.path

def physicalName? (t : Table) (index : Nat) : Option String :=
  match t.physicalNames with
  | some names => names[index]?
  | none => (t.rowType.fields[index]?).map Field.name

def hasMapping (t : Table) : Bool :=
  match t.physicalNames with
  | some names => (names.zip t.rowType.names).any fun (physical, logical) => physical ≠ logical
  | none => false

end Table

/-- Tables by name; of two with one name the later counts. -/
abbrev Catalog := List Table

def Catalog.lookup (c : Catalog) (name : String) : Except Error Table :=
  match c.reverse.find? (·.name = name) with
  | some table => .ok table
  | none => .error (.tableNotFound name)

def Table.checkStored (t : Table) : Except Error Unit :=
  if t.stored then .ok ()
  else .error (.unsupported t.convention.text ("table " ++ t.name)
    ("table '" ++ t.name ++ "' has no in-process storage"))

/-- The rows held in process, by the name of their table. -/
abbrev Store := List (String × List Row)

namespace Store

def rows (s : Store) (name : String) : List Row := (s.lookup name).getD []

def put (s : Store) (name : String) (rows : List Row) : Store :=
  (name, rows) :: s.filter fun (other, _) => other ≠ name

end Store

end FederatedQuery
