import FederatedQuery.Config.Moment

/-!
Settings of a configuration: named texts, numbers, truth values, moments, lists, and tables of these. A
table can be filled in several places of a configuration, but nothing in it can be set twice, and what
says of itself that it is whole cannot be added to.
-/
namespace FederatedQuery.Config

/-- What brought a table about. -/
inductive Origin where
  /-- A header of its own. -/
  | stated
  /-- The header of a table inside it. -/
  | implied
  /-- A key with dots. -/
  | dotted
  /-- It is written as one value. -/
  | whole
deriving DecidableEq

inductive Setting where
  | text (s : String)
  | integer (i : Int)
  | float (x : Double)
  | flag (b : Bool)
  | moment (m : Moment)
  | list (items : List Setting)
  | table (origin : Origin) (entries : List (String × Setting))

abbrev Settings := List (String × Setting)

namespace Settings

/-- Sets a key: in its place if it is there, and else at the end. -/
def put (key : String) (v : Setting) : Settings → Settings
  | [] => [(key, v)]
  | (k, old) :: rest => if k = key then (k, v) :: rest else (k, old) :: put key v rest

/-- Adds a new key below the tables that are named before it. These are added where they are missing.
Only tables that were not stated are gone through, and the last must come from dots itself. -/
def add (key : String) (v : Setting) : List String → Settings → Option Settings
  | [], entries => if (entries.lookup key).isSome then none else some (entries.put key v)
  | name :: path, entries => match entries.lookup name with
    | none => do return entries.put name (.table .dotted (← add key v path []))
    | some (.table origin inner) =>
      if origin = .dotted ∨ (origin = .implied ∧ path ≠ []) then do
        return entries.put name (.table origin (← add key v path inner))
      else none
    | some _ => none

/-- States the table of a header. It must be new, or implied so far. -/
def state : List String → Settings → Option Settings
  | [], _ => none
  | [name], entries => match entries.lookup name with
    | none => some (entries.put name (.table .stated []))
    | some (.table .implied inner) => some (entries.put name (.table .stated inner))
    | some _ => none
  | name :: path, entries => match entries.lookup name with
    | none => do return entries.put name (.table .implied (← state path []))
    | some (.table origin inner) =>
      if origin = .whole then none
      else do return entries.put name (.table origin (← state path inner))
    | some _ => none

def addUnder (key : String) (v : Setting) (path : List String) : List String → Settings → Option Settings
  | [], entries => add key v path entries
  | name :: header, entries => match entries.lookup name with
    | some (.table origin inner) => do
      return entries.put name (.table origin (← addUnder key v path header inner))
    | _ => none

end Settings

end FederatedQuery.Config
