import FederatedQuery.Text.CaseData

/-!
Upper case and lower case of whole texts. A code point may have several in its other case, and a
capital sigma that ends a word becomes the final small sigma.
-/
namespace FederatedQuery.Text

def Span.map? (s : Span) (code : Nat) : Option Nat :=
  if s.first ≤ code ∧ code ≤ s.last ∧ (code - s.first) % s.step = 0 then
    some (code + s.offset).toNat
  else none

def inRanges (ranges : List (Nat × Nat)) (c : Char) : Bool :=
  ranges.any fun r => r.1 ≤ c.toNat ∧ c.toNat ≤ r.2

def mapCase (expansions : List (Nat × List Nat)) (spans : List Span) (c : Char) : List Char :=
  match expansions.lookup c.toNat with
  | some codes => codes.map Char.ofNat
  | none => match spans.findSome? (·.map? c.toNat) with
    | some code => [Char.ofNat code]
    | none => [c]

def upper (text : String) : String :=
  String.ofList (text.toList.flatMap (mapCase upperExpansions upperSpans))

/-- Whether a cased character comes next, leaving out those that case detection passes over. -/
def meetsCased (chars : List Char) : Bool :=
  match chars.dropWhile (inRanges caseIgnorableRanges) with
  | c :: _ => inRanges casedRanges c
  | [] => false

/-- Lower case of the rest of a text, given the characters before it, the nearest first. -/
def lowerAfter : List Char → List Char → List Char
  | _, [] => []
  | before, c :: rest =>
    let here :=
      if c = 'Σ' then if meetsCased before ∧ ¬ meetsCased rest then ['ς'] else ['σ']
      else mapCase lowerExpansions lowerSpans c
    here ++ lowerAfter (c :: before) rest

def lower (text : String) : String := String.ofList (lowerAfter [] text.toList)

end FederatedQuery.Text
