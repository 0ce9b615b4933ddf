/-!
Removing every occurrence of a part from a text.
-/
namespace FederatedQuery.Text

/-- Drops so many characters, and then every occurrence of a part. -/
def removePart (part : List Char) : Nat → List Char → List Char
  | _, [] => []
  | skip + 1, _ :: rest => removePart part skip rest
  | 0, c :: rest =>
    if part.isPrefixOf (c :: rest) then removePart part (part.length - 1) rest
    else c :: removePart part 0 rest

def remove (part text : String) : String := String.ofList (removePart part.toList 0 text.toList)

end FederatedQuery.Text
