import FederatedQuery.Document.Marker
import FederatedQuery.Proofs.Error.Outcome
import FederatedQuery.Proofs.Value.Order

/-!
Binding the markers of a document. It succeeds just when each marker has a value, and every float in that value is
finite.
-/
namespace FederatedQuery

namespace Document

mutual

/-- The parameters whose values take a place in a document. -/
def markers : Document → List Nat
  | array items => itemMarkers items
  | object entries => match markerIndex? (object entries) with
    | some index => [index]
    | none => entryMarkers entries
  | _ => []

def itemMarkers : List Document → List Nat
  | [] => []
  | d :: rest => markers d ++ itemMarkers rest

def entryMarkers : List (String × Document) → List Nat
  | [] => []
  | (_, d) :: rest => markers d ++ entryMarkers rest

end

/-- Whether a parameter has a value that documents can hold. -/
def supplies (params : Bindings) (index : Nat) : Bool :=
  match params index with
  | some v => v.floats.all Double.isFinite
  | none => false

mutual

theorem isOk_ofValue (v : Value) : (ofValue v).isOk = v.floats.all Double.isFinite := by
  cases v with
  | float x =>
    rw [ofValue, Value.floats]
    cases finite : x.isFinite with
    | true | false => simp [finite, Except.isOk, Except.toBool]
  | array => rw [ofValue, Value.floats, isOk_bind_pure, isOk_ofValues]
  | _ => rfl

theorem isOk_ofValues (items : List Value) : (ofValues items).isOk = (Value.itemFloats items).all Double.isFinite := by
  cases items with
  | nil => rfl
  | cons =>
    rw [ofValues, isOk_bind fun _ => isOk_bind_pure, isOk_ofValue, isOk_ofValues, Value.itemFloats, List.all_append]

end

theorem isOk_boundDocument (params : Bindings) (index : Nat) :
    (boundDocument params index).isOk = supplies params index := by
  unfold boundDocument supplies
  cases params index with
  | none => rfl
  | some v => exact isOk_ofValue v

mutual

theorem isOk_bind (params : Bindings) (d : Document) : (d.bind params).isOk = d.markers.all (supplies params) := by
  cases d with
  | array => rw [bind, isOk_bind_pure, isOk_bindAll, markers]
  | object entries =>
    rw [bind, markers]
    cases markerIndex? (object entries) with
    | some =>
      dsimp only
      rw [isOk_boundDocument, List.all_cons, List.all_nil, Bool.and_true]
    | none =>
      dsimp only
      rw [isOk_bind_pure, isOk_bindEntries]
  | _ => rfl

theorem isOk_bindAll (params : Bindings) (items : List Document) :
    (bindAll params items).isOk = (itemMarkers items).all (supplies params) := by
  cases items with
  | nil => rfl
  | cons =>
    rw [bindAll, FederatedQuery.isOk_bind fun _ => isOk_bind_pure, isOk_bind, isOk_bindAll, itemMarkers,
      List.all_append]

theorem isOk_bindEntries (params : Bindings) (entries : List (String × Document)) :
    (bindEntries params entries).isOk = (entryMarkers entries).all (supplies params) := by
  cases entries with
  | nil => rfl
  | cons =>
    rw [bindEntries, FederatedQuery.isOk_bind fun _ => isOk_bind_pure, isOk_bind, isOk_bindEntries, entryMarkers,
      List.all_append]

end

end Document

end FederatedQuery
