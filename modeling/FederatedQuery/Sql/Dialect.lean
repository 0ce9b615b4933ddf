import FederatedQuery.Plan.Traits
import FederatedQuery.Text.Quoted
import FederatedQuery.Types.SqlType

/-!
Dialects of the query language, as data: everything in which the text for one system differs from the
text for another.
-/
namespace FederatedQuery

/-- Where a system sorts nulls when it is not told. -/
inductive NullCollation where
  /-- Not known. -/
  | unknown
  | first
  | last
  /-- Nulls are the smallest values. -/
  | low
  /-- Nulls are the largest values. -/
  | high
deriving DecidableEq

inductive LimitStyle where
  /-- `LIMIT n OFFSET m` -/
  | limitOffset
  /-- `OFFSET m ROWS FETCH NEXT n ROWS ONLY` -/
  | offsetFetch
deriving DecidableEq

inductive SubstringStyle where
  /-- `SUBSTRING(s FROM a FOR b)` -/
  | fromFor
  /-- `SUBSTR(s, a, b)` -/
  | substr
  /-- `SUBSTRING(s, a, b)` with all three arguments -/
  | commas
deriving DecidableEq

/-- How the wanted place of nulls is brought about. -/
inductive NullsRendering where
  /-- Nulls are there by default. -/
  | native
  | clause (first : Bool)
  /-- By a key in front that tells nulls from other values. -/
  | emulated (first : Bool)
deriving DecidableEq

structure Dialect where
  name : String
  version : Option String
  /-- The quotes around identifiers, if there are any. -/
  quote : Option (Char × Char)
  nullCollation : NullCollation
  /-- Whether the place of nulls can be asked for. -/
  nullsClause : Bool
  /-- Whether an aggregate can be an argument of another. -/
  nestedAggregates : Bool
  limit : LimitStyle
  /-- Whether a limit can only follow an order. -/
  limitNeedsOrder : Bool
  /-- Whether a set operation without repetitions says so. -/
  distinctKeyword : Bool
  minusKeyword : String
  aliasWithAs : Bool
  /-- Whether parameters are cast to their type. -/
  castParams : Bool
  /-- Whether literal rows can be a source. -/
  valuesInFrom : Bool
  booleanLiterals : Bool
  arrays : Bool
  /-- Whether an operand of a set operation can stand in brackets. -/
  bracketedOperands : Bool
  substring : SubstringStyle
  /-- Names of functions and operators, by their standard names. -/
  functions : List (String × String)
  /-- Names of types in casts, by their standard names. -/
  castTypes : List (String × String)
  /-- Largest precision or length of a type, by its standard name. -/
  maxPrecision : List (String × Nat)
  /-- The table to select literals from, where a source is needed. -/
  dualTable : Option String
deriving DecidableEq

/-! The words for the choices that a dialect can be set up with. -/

def NullCollation.words : List (String × NullCollation) :=
  [("none", .unknown), ("first", .first), ("last", .last), ("low", .low), ("high", .high)]

def LimitStyle.words : List (String × LimitStyle) :=
  [("limit-offset", .limitOffset), ("offset-fetch", .offsetFetch)]

def SubstringStyle.words : List (String × SubstringStyle) :=
  [("from-for", .fromFor), ("substr", .substr), ("mssql", .commas)]

/-- Whether nulls come first by default in a direction, if that is known. -/
def NullCollation.nullsFirst? (c : NullCollation) (descending : Bool) : Option Bool :=
  match c with
  | .unknown => none
  | .first => some true
  | .last => some false
  | .low => some (!descending)
  | .high => some descending

namespace Dialect

def nullsRendering (d : Dialect) (nulls : NullOrder) (descending : Bool) : NullsRendering :=
  let wanted (first : Bool) : NullsRendering :=
    if d.nullCollation.nullsFirst? descending = some first then .native
    else if d.nullsClause then .clause first
    else .emulated first
  match nulls with
  | .first => wanted true
  | .last => wanted false
  | .unspecified => .native

def quoteIdentifier (d : Dialect) (name : String) : String :=
  match d.quote with
  | some (opening, close) => Text.quote opening close name
  | none => name

def functionName (d : Dialect) (standard : String) : String :=
  (d.functions.lookup standard).getD standard

/-- A precision held to the largest that the dialect has for a type. -/
def clamp (d : Dialect) (ty : SqlType) (n : Nat) : Nat :=
  match d.maxPrecision.lookup ty.name with
  | some limit => min n limit
  | none => n

def castName (d : Dialect) (ty : SqlType) : String :=
  match d.castTypes.lookup ty.name with
  | some renamed => renamed
  | none => match ty with
    | .varchar (some n) => s!"VARCHAR({d.clamp ty n})"
    | .decimal p s => s!"DECIMAL({d.clamp ty p}, {min s (d.clamp ty p)})"
    | .array item => d.castName item ++ " ARRAY"
    | ty => ty.name

end Dialect

end FederatedQuery
