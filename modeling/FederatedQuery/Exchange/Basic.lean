import FederatedQuery.Error.Basic

/-!
Reading what is written down as documents. Every reader here is the first step of one for values,
expressions or plans; each part of a document is smaller than the whole, so they end.
-/
namespace FederatedQuery.Exchange

/-- Why a document cannot be read: it has the wrong form, or what it says is refused. -/
inductive Failure where
  | malformed (expected : String)
  | refused (error : Error)

instance : Inhabited Failure := ⟨.malformed ""⟩

abbrev Read := Except Failure

def expected {α : Type} (what : String) : Read α := .error (.malformed (what ++ " expected"))

def checked {α : Type} : Except Error α → Read α
  | .ok a => .ok a
  | .error e => .error (.refused e)

theorem sizeOf_lookup {entries : Entries} {key : String} {v : Document}
    (found : entries.get? key = some v) : sizeOf v < sizeOf entries := by
  induction entries with
  | nil => simp [Entries.get?] at found
  | cons entry rest ih =>
    obtain ⟨k, w⟩ := entry
    simp only [Entries.get?, List.lookup_cons] at found
    split at found
    · cases found
      simp +arith
    · have := ih found
      simp only [List.cons.sizeOf_spec]
      omega

theorem sizeOf_get? {d v : Document} {key : String} (found : d.get? key = some v) :
    sizeOf v < sizeOf d := by
  cases d with
  | object entries =>
    have := @sizeOf_lookup entries key v (by simpa [Document.get?, Document.entries?] using found)
    simp only [Document.object.sizeOf_spec]
    omega
  | _ => simp [Document.get?, Document.entries?] at found

abbrev Part (d : Document) := { v : Document // sizeOf v < sizeOf d }

/-- The value of a key; a null counts as missing. -/
def part? (d : Document) (key : String) : Option (Part d) :=
  match found : d.get? key with
  | some .null | none => none
  | some v => some ⟨v, sizeOf_get? found⟩

def part (d : Document) (key : String) : Read (Part d) :=
  match found : d.get? key with
  | some v => .ok ⟨v, sizeOf_get? found⟩
  | none => expected ("field " ++ key)

theorem sizeOf_item {v : Document} {items : List Document} (h : v ∈ items) :
    sizeOf v < sizeOf (Document.array items) := by
  have := List.sizeOf_lt_of_mem h
  simp only [Document.array.sizeOf_spec]
  omega

def parts (d : Document) : Read (List (Part d)) :=
  match d with
  | .array items => .ok (items.attach.map fun ⟨v, h⟩ => ⟨v, sizeOf_item h⟩)
  | _ => expected "array"

def get? (d : Document) (key : String) : Option Document := (part? d key).map Subtype.val

def has (d : Document) (key : String) : Bool := (part? d key).isSome

def field {α : Type} (d : Document) (key : String) (read : Document → Read α) : Read α := do
  read (← part d key).val

def option {α : Type} (d : Document) (key : String) (read : Document → Read α) : Read (Option α) := do
  match get? d key with
  | some v => return some (← read v)
  | none => return none

def listOf {α : Type} (read : Document → Read α) (d : Document) : Read (List α) := do
  (← parts d).mapM fun v => read v.val

/-- Reads a list, which is empty when it is missing. -/
def list {α : Type} (d : Document) (key : String) (read : Document → Read α) : Read (List α) := do
  return (← option d key (listOf read)).getD []

/-- Reads a value for which a null stands for none. -/
def nullable {α : Type} (read : Document → Read α) : Document → Read (Option α)
  | .null => .ok none
  | d => do return some (← read d)

def text : Document → Read String
  | .string s => .ok s
  | _ => expected "text"

def boolean : Document → Read Bool
  | .bool b => .ok b
  | _ => expected "truth value"

/-- A flag, which is ignored when it is no truth value. -/
def flag (d : Document) (key : String) (default : Bool) : Bool :=
  match d.get? key with
  | some (.bool b) => b
  | _ => default

/-- An integer as a number, or as text for those that not every system keeps exactly. -/
def integer : Document → Read Int
  | .int i => .ok i
  | .object [("i", .string s)] =>
    match readInt? s.toList with
    | some i => .ok i
    | none => expected "integer"
  | _ => expected "integer"

def natural (d : Document) : Read Nat := do return (← integer d).toNat

/-- A word that stands for one of some things. -/
def wordFor {α : Type} (words : List (String × α)) (d : Document) : Read α := do
  match words.lookup (← text d) with
  | some a => .ok a
  | none => expected ("one of " ++ ", ".intercalate (words.map Prod.fst))

def toWord {α : Type} [DecidableEq α] (words : List (String × α)) (a : α) : Document :=
  .string (((words.find? fun (_, b) => b = a).map Prod.fst).getD "")

/-- An integer beyond those that every system keeps exactly is written as text. -/
def ofInt (i : Int) : Document :=
  if i.natAbs ≤ exactLimit then .int i else .object [("i", .string (toString i))]

def ofNat (n : Nat) : Document := .int n

def ofTexts (texts : List String) : Document := .array (texts.map .string)

def ofNats (ns : List Nat) : Document := .array (ns.map ofNat)

def ofOption {α : Type} (write : α → Document) : Option α → Document
  | some a => write a
  | none => .null

end FederatedQuery.Exchange
