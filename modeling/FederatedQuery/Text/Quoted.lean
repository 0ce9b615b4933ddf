/-!
Quoted text: a closing quote inside is written twice, so a reader stops at the first one that stands
alone.
-/
namespace FederatedQuery.Text

/-- The characters of a text with every closing quote doubled. -/
def double (close : Char) (chars : List Char) : List Char :=
  chars.flatMap fun c => if c = close then [close, c] else [c]

def quote (opening close : Char) (text : String) : String :=
  String.ofList (opening :: double close text.toList ++ [close])

def literal (text : String) : String := quote '\'' '\'' text

end FederatedQuery.Text
