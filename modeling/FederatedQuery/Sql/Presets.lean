import FederatedQuery.Double.Reading
import FederatedQuery.Sql.Dialect
import FederatedQuery.Text.Blank

/-!
The dialects that are known by name.
-/
namespace FederatedQuery.Dialect

def ansi : Dialect where
  name := "ansi"
  version := none
  quote := some ('"', '"')
  nullCollation := .high
  nullsClause := true
  nestedAggregates := true
  limit := .offsetFetch
  limitNeedsOrder := false
  distinctKeyword := false
  minusKeyword := "EXCEPT"
  aliasWithAs := true
  castParams := true
  valuesInFrom := true
  booleanLiterals := true
  arrays := false
  bracketedOperands := true
  substring := .fromFor
  functions := []
  castTypes := []
  maxPrecision := []
  dualTable := none

def postgresql : Dialect := { ansi with
  name := "postgresql"
  limit := .limitOffset
  nestedAggregates := false
  arrays := true
  castTypes := [("DOUBLE", "DOUBLE PRECISION"), ("VARBINARY", "BYTEA")]
  maxPrecision := [("DECIMAL", 1000), ("VARCHAR", 10485760)] }

def mysql : Dialect := { ansi with
  name := "mysql"
  quote := some ('\x60', '\x60')
  nullCollation := .low
  nullsClause := false
  nestedAggregates := false
  limit := .limitOffset
  castParams := false
  valuesInFrom := false
  functions := [("||", "CONCAT")]
  castTypes := [("BIGINT", "SIGNED"), ("INTEGER", "SIGNED"), ("TIMESTAMP", "DATETIME"),
    ("VARBINARY", "BINARY"), ("VARCHAR", "CHAR")]
  maxPrecision := [("DECIMAL", 65), ("VARCHAR", 65535)] }

/-- A number of a version; it has thirty-two bits. -/
def readVersionPart? (text : List Char) : Option Nat :=
  match readInt? (Text.trim text) with
  | some n => if 0 ≤ n ∧ n < UInt32.size ∧ (Text.trim text).head? ≠ some '-' then some n.toNat else none
  | none => none

/-- The first two numbers of a version; the second is zero when there is none. -/
def readVersion? (version : String) : Option (Nat × Nat) := do
  let major := version.toList.takeWhile (· ≠ '.')
  match version.toList.dropWhile (· ≠ '.') with
  | [] => return (← readVersionPart? major, 0)
  | _ :: rest => return (← readVersionPart? major, ← readVersionPart? (rest.takeWhile (· ≠ '.')))

/-- The place of nulls can be asked for from version 2.1 on. -/
def hive (version : Option String) : Dialect := { ansi with
  name := "hive"
  version
  quote := some ('\x60', '\x60')
  nullCollation := .low
  nullsClause := match version.bind readVersion? with
    | some (major, minor) => decide (2 < major ∨ (major = 2 ∧ 1 ≤ minor))
    | none => false
  nestedAggregates := false
  limit := .limitOffset
  castParams := false
  valuesInFrom := false
  arrays := true
  substring := .substr
  functions := [("CHAR_LENGTH", "LENGTH")]
  castTypes := [("VARBINARY", "BINARY"), ("VARCHAR", "STRING")]
  maxPrecision := [("DECIMAL", 38)] }

def mssql : Dialect := { ansi with
  name := "mssql"
  quote := some ('[', ']')
  nullCollation := .low
  nullsClause := false
  nestedAggregates := false
  limitNeedsOrder := true
  castParams := false
  booleanLiterals := false
  substring := .commas
  functions := [("CHAR_LENGTH", "LEN"), ("MOD", "%"), ("||", "CONCAT")]
  castTypes := [("BOOLEAN", "BIT"), ("DOUBLE", "FLOAT"), ("TIMESTAMP", "DATETIME2")]
  maxPrecision := [("DECIMAL", 38), ("VARCHAR", 8000)] }

def oracle : Dialect := { ansi with
  name := "oracle"
  aliasWithAs := false
  valuesInFrom := false
  booleanLiterals := false
  minusKeyword := "MINUS"
  substring := .substr
  functions := [("CHAR_LENGTH", "LENGTH")]
  castTypes := [("BIGINT", "NUMBER(19)"), ("BOOLEAN", "NUMBER(1)"), ("DOUBLE", "BINARY_DOUBLE"),
    ("INTEGER", "NUMBER(10)"), ("VARBINARY", "RAW"), ("VARCHAR", "VARCHAR2")]
  maxPrecision := [("DECIMAL", 38), ("VARCHAR", 4000)]
  dualTable := some "DUAL" }

def bigquery : Dialect := { ansi with
  name := "bigquery"
  quote := some ('\x60', '\x60')
  nullCollation := .low
  nestedAggregates := false
  limit := .limitOffset
  distinctKeyword := true
  castParams := false
  valuesInFrom := false
  arrays := true
  substring := .substr
  functions := [("ARRAY", ""), ("CHAR_LENGTH", "LENGTH"), ("ITEM", "ORDINAL")]
  castTypes := [("BIGINT", "INT64"), ("BOOLEAN", "BOOL"), ("DECIMAL", "NUMERIC"),
    ("DOUBLE", "FLOAT64"), ("INTEGER", "INT64"), ("VARBINARY", "BYTES"), ("VARCHAR", "STRING")] }

def sqlite : Dialect := { ansi with
  name := "sqlite"
  nullCollation := .low
  nestedAggregates := false
  limit := .limitOffset
  castParams := false
  valuesInFrom := false
  bracketedOperands := false
  substring := .substr
  functions := [("CHAR_LENGTH", "LENGTH"), ("MOD", "%")]
  castTypes := [("BOOLEAN", "INTEGER"), ("DOUBLE", "REAL"), ("VARBINARY", "BLOB"),
    ("VARCHAR", "TEXT")] }

def asciiLower (s : String) : String := String.ofList (s.toList.map Char.toLower)

def preset? (name : String) (version : Option String) : Option Dialect :=
  let found := match asciiLower name with
    | "ansi" => some ansi
    | "postgresql" | "postgres" => some postgresql
    | "mysql" => some mysql
    | "hive" => some (hive version)
    | "mssql" | "sqlserver" => some mssql
    | "oracle" => some oracle
    | "bigquery" => some bigquery
    | "sqlite" => some sqlite
    | _ => none
  found.map fun d => { d with version := version.or d.version }

def presets : List Dialect := [ansi, postgresql, mysql, hive none, mssql, oracle, bigquery, sqlite]

end FederatedQuery.Dialect
