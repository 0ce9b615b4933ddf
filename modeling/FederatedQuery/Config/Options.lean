import FederatedQuery.Config.Reader
import FederatedQuery.Simplify.Basic
import FederatedQuery.Sql.Presets

/-!
Options of the compiler, and the dialects that a configuration adds to the known ones.
-/
namespace FederatedQuery.Config

structure Options where
  /-- The convention that the root of every plan is placed in. -/
  target : Convention
  simplify : Bool
  passes : Nat
  /-- Rows asked for at once of a foreign store. -/
  batch : Nat
  /-- The dialects that are added, in the order of their names. -/
  dialects : List Dialect
deriving DecidableEq

def Options.default : Options := ⟨.pull, true, Simplifier.defaultPasses, 1024, []⟩

/-! Settings of the right form. -/

/-- The settings of a section, all of known names. A list gives those with the first names in their
order, and cannot be shorter than these. -/
def section? (listed others : List String) : Setting → Option Settings
  | .table _ entries =>
    if entries.all fun (key, _) => key ∈ listed ++ others then some entries else none
  | .list items => if listed.length ≤ items.length then some ((listed ++ others).zip items) else none
  | _ => none

/-- A setting that can be missing, but not be of another form. -/
def optional? {α : Type} (read : Setting → Option α) (key : String) (settings : Settings) :
    Option (Option α) :=
  match settings.lookup key with
  | none => some none
  | some v => (read v).map some

def text? : Setting → Option String
  | .text s => some s
  | _ => none

def flag? : Setting → Option Bool
  | .flag b => some b
  | _ => none

def natural? : Setting → Option Nat
  | .integer i => if 0 ≤ i then some i.toNat else none
  | _ => none

def limit? (v : Setting) : Option Nat := (natural? v).filter fun n => decide (n < UInt32.size)

/-- The one key of a moment that stands where a table is expected. -/
def momentKey : String := "$__toml_private_datetime"

/-- A table of settings of one form. A moment counts as a table that holds its text. -/
def tableOf? {α : Type} (read : Setting → Option α) : Setting → Option (List (String × α))
  | .table _ entries => entries.mapM fun (key, v) => (read v).map fun a => (key, a)
  | .moment m => (read (.text m.text)).map fun a => [(momentKey, a)]
  | _ => none

/-- What a configuration says of a dialect. -/
structure Draft where
  name : String
  base : Option String
  version : Option String
  quote : Option String
  nullCollation : Option String
  limit : Option String
  substring : Option String
  nullsClause : Option Bool
  nestedAggregates : Option Bool
  limitNeedsOrder : Option Bool
  distinctKeyword : Option Bool
  aliasWithAs : Option Bool
  castParams : Option Bool
  valuesInFrom : Option Bool
  booleanLiterals : Option Bool
  arrays : Option Bool
  bracketedOperands : Option Bool
  minusKeyword : Option String
  dualTable : Option String
  functions : List (String × String)
  castTypes : List (String × String)
  maxPrecision : List (String × Nat)

def dialectKeys : List String :=
  ["base", "version", "quote", "null_collation", "offset_fetch", "substring", "supports_nulls_syntax",
    "supports_nested_aggregations", "offset_fetch_needs_order_by", "set_op_distinct_keyword",
    "alias_with_as", "cast_params", "values_in_from", "boolean_literals", "array_literals",
    "parenthesized_set_operands", "minus_keyword", "dual_table"]

def dialectTables : List String := ["functions", "cast_types", "max_precision"]

def draft? (name : String) (v : Setting) : Option Draft := do
  let settings ← section? dialectKeys dialectTables v
  let text (key : String) := optional? text? key settings
  let flag (key : String) := optional? flag? key settings
  let renames (key : String) := (optional? (tableOf? text?) key settings).map (·.getD [])
  return {
    name
    base := ← text "base"
    version := ← text "version"
    quote := ← text "quote"
    nullCollation := ← text "null_collation"
    limit := ← text "offset_fetch"
    substring := ← text "substring"
    nullsClause := ← flag "supports_nulls_syntax"
    nestedAggregates := ← flag "supports_nested_aggregations"
    limitNeedsOrder := ← flag "offset_fetch_needs_order_by"
    distinctKeyword := ← flag "set_op_distinct_keyword"
    aliasWithAs := ← flag "alias_with_as"
    castParams := ← flag "cast_params"
    valuesInFrom := ← flag "values_in_from"
    booleanLiterals := ← flag "boolean_literals"
    arrays := ← flag "array_literals"
    bracketedOperands := ← flag "parenthesized_set_operands"
    minusKeyword := ← text "minus_keyword"
    dualTable := ← text "dual_table"
    functions := ← renames "functions"
    castTypes := ← renames "cast_types"
    maxPrecision := (← optional? (tableOf? limit?) "max_precision" settings).getD [] }

/-- Pairs in which the second list has the last word on a key. -/
def overridden {α : Type} (old new : List (String × α)) : List (String × α) :=
  new ++ old.filter fun (key, _) => (new.lookup key).isNone

/-- A choice that a word makes, or the one there was. -/
def chosen {α : Type} (name key : String) (choose : String → Option α) (old : α) :
    Option String → Except ConfigError α
  | none => .ok old
  | some word => match choose word with
    | some a => .ok a
    | none => .error (.invalidValue s!"dialects.{name}.{key}" word)

/-- The quotes of a text: none, one for both sides, or two. -/
def quotes (name : String) (old : Option (Char × Char)) :
    Option String → Except ConfigError (Option (Char × Char))
  | none => .ok old
  | some text => match text.toList with
    | [] => .ok none
    | [quote] => .ok (some (quote, quote))
    | [opening, close] => .ok (some (opening, close))
    | _ => .error (.invalidValue s!"dialects.{name}.quote" text)

def Draft.dialect (d : Draft) : Except ConfigError Dialect := do
  let base := d.base.getD "ansi"
  match Dialect.preset? base d.version with
  | none => .error (.unknownDialect d.name base)
  | some old =>
    let quote ← quotes d.name old.quote d.quote
    let nullCollation ← chosen d.name "null_collation"
      (fun word => NullCollation.words.lookup (Dialect.asciiLower word)) old.nullCollation d.nullCollation
    let limit ← chosen d.name "offset_fetch" (fun word => LimitStyle.words.lookup word) old.limit d.limit
    let substring ← chosen d.name "substring" (fun word => SubstringStyle.words.lookup word)
      old.substring d.substring
    return { old with
      name := d.name, quote, nullCollation, limit, substring
      nullsClause := d.nullsClause.getD old.nullsClause
      nestedAggregates := d.nestedAggregates.getD old.nestedAggregates
      limitNeedsOrder := d.limitNeedsOrder.getD old.limitNeedsOrder
      distinctKeyword := d.distinctKeyword.getD old.distinctKeyword
      aliasWithAs := d.aliasWithAs.getD old.aliasWithAs
      castParams := d.castParams.getD old.castParams
      valuesInFrom := d.valuesInFrom.getD old.valuesInFrom
      booleanLiterals := d.booleanLiterals.getD old.booleanLiterals
      arrays := d.arrays.getD old.arrays
      bracketedOperands := d.bracketedOperands.getD old.bracketedOperands
      minusKeyword := d.minusKeyword.getD old.minusKeyword
      dualTable := d.dualTable.or old.dualTable
      functions := overridden old.functions d.functions
      castTypes := overridden old.castTypes d.castTypes
      maxPrecision := overridden old.maxPrecision d.maxPrecision }

/-- What a configuration says, before it is checked against what there is. -/
structure Layout where
  target : Option String
  simplify : Option Bool
  passes : Option Nat
  batch : Option Nat
  dialects : List Draft

/-- A section, which is empty when it is missing. -/
def sectionOf? (key : String) (listed : List String) (settings : Settings) : Option Settings :=
  (optional? (section? listed []) key settings).map (·.getD [])

def layout? (settings : Settings) : Option Layout := do
  let settings ← section? ["planner", "execution", "dialects"] [] (.table .stated settings)
  let planner ← sectionOf? "planner" ["target", "simplify", "max_simplify_passes"] settings
  let execution ← sectionOf? "execution" ["fetch_batch_size"] settings
  let dialects ← optional? (tableOf? some) "dialects" settings
  return {
    target := ← optional? text? "target" planner
    simplify := ← optional? flag? "simplify" planner
    passes := ← optional? natural? "max_simplify_passes" planner
    batch := ← optional? natural? "fetch_batch_size" execution
    dialects := ← (dialects.getD []).mapM fun (name, v) => draft? name v }

/-- The target of plans, which must be a place where they can run. -/
def readTarget : Option String → Except ConfigError Convention
  | none => .ok .pull
  | some text => match Convention.read? text with
    | none => .error (.invalidValue "planner.target" text)
    | some .logical => .error (.invalidValue "planner.target" Convention.logical.text)
    | some c => .ok c

namespace Options

def read (text : String) : Except ConfigError Options := do
  match (readSettings? text).bind layout? with
  | none => .error .malformed
  | some l =>
    let target ← readTarget l.target
    let drafts := l.dialects.mergeSort fun a b => decide (a.name ≤ b.name)
    return {
      target
      simplify := l.simplify.getD default.simplify
      passes := l.passes.getD default.passes
      batch := l.batch.getD default.batch
      dialects := ← drafts.mapM Draft.dialect }

def load : Option String → Except ConfigError Options
  | none => .error .unreadable
  | some contents => read contents

/-- Every dialect there is; an added one goes before a known one of its name. -/
def allDialects (o : Options) : List Dialect := o.dialects ++ Dialect.presets

end Options

end FederatedQuery.Config
