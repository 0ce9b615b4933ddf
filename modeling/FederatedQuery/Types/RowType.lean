import FederatedQuery.Types.SqlType

/-!
Row types: the named, typed columns of a relation. Where two relations meet, a name that is taken gets
the first number that makes it free.
-/
namespace FederatedQuery

structure Field where
  name : String
  type : SqlType
  nullable : Bool
deriving DecidableEq

structure RowType where
  fields : List Field
deriving DecidableEq

/-- The name itself when it is free, and else with the first free number behind it. Of one more number
than there are names taken, one is free. -/
def freshName (name : String) (taken : List String) : String :=
  if name ∈ taken then
    (((List.range (taken.length + 1)).map fun i => name ++ toString i).find? (· ∉ taken)).getD name
  else name

namespace RowType

def arity (r : RowType) : Nat := r.fields.length

def names (r : RowType) : List String := r.fields.map Field.name

def rowCount : RowType := ⟨[⟨"ROWCOUNT", .bigInt, false⟩]⟩

def indexOf? (r : RowType) (name : String) : Option Nat := r.names.findIdx? (· == name)

/-- Same number of columns with the same types, where an unknown type goes with every other. -/
def compatible (r s : RowType) : Bool :=
  decide (r.arity = s.arity) &&
    (r.fields.zip s.fields).all fun (a, b) =>
      decide (a.type = b.type ∨ a.type = .any ∨ b.type = .any)

/-- Fields renamed one after the other, each away from the names before it. -/
def freshFields (taken : List String) : List Field → List Field
  | [] => []
  | f :: rest =>
    let name := freshName f.name taken
    { f with name } :: freshFields (taken ++ [name]) rest

/-- Columns side by side. A side that can be padded becomes nullable. -/
def join (left right : RowType) (leftNullable rightNullable : Bool) : RowType :=
  ⟨left.fields.map (fun f => { f with nullable := f.nullable || leftNullable }) ++
    freshFields left.names
      (right.fields.map fun f => { f with nullable := f.nullable || rightNullable })⟩

def rename (r : RowType) (names : List String) : RowType :=
  ⟨(r.fields.zip names).map fun (f, name) => { f with name }⟩

def fieldText (f : Field) : String :=
  f.name ++ " " ++ f.type.text ++ if f.nullable then "" else " NOT NULL"

def text (r : RowType) : String := "(" ++ ", ".intercalate (r.fields.map fieldText) ++ ")"

end RowType

end FederatedQuery
