import FederatedQuery.Document.Codec

/-!
Markers of parameters in documents. A marker is an object with one reserved key, and binding puts the
document of a value in its place.
-/
namespace FederatedQuery.Document

def marker (index : Nat) : Document := single "$dynamic" (int index)

def markerIndex? : Document → Option Nat
  | object [(key, v)] => if key = "$dynamic" then v.nat64? else none
  | _ => none

mutual

def hasMarkers : Document → Bool
  | array items => anyMarkers items
  | object entries => (markerIndex? (object entries)).isSome || entriesMarkers entries
  | _ => false

def anyMarkers : List Document → Bool
  | [] => false
  | d :: rest => hasMarkers d || anyMarkers rest

def entriesMarkers : List (String × Document) → Bool
  | [] => false
  | (_, d) :: rest => hasMarkers d || entriesMarkers rest

end

def boundDocument (params : Bindings) (index : Nat) : Except Error Document :=
  match params index with
  | some v => ofValue v
  | none => .error (.unboundParameter index)

mutual

def bind (params : Bindings) : Document → Except Error Document
  | array items => do return array (← bindAll params items)
  | object entries => match markerIndex? (object entries) with
    | some index => boundDocument params index
    | none => do return object (← bindEntries params entries)
  | d => .ok d

def bindAll (params : Bindings) : List Document → Except Error (List Document)
  | [] => .ok []
  | d :: rest => do
    let bound ← bind params d
    return bound :: (← bindAll params rest)

def bindEntries (params : Bindings) : List (String × Document) → Except Error (List (String × Document))
  | [] => .ok []
  | (key, d) :: rest => do
    let bound ← bind params d
    return (key, bound) :: (← bindEntries params rest)

end

end FederatedQuery.Document
