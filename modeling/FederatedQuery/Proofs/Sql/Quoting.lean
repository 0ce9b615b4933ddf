import FederatedQuery.Proofs.Text.Lexemes
import FederatedQuery.Sql.Presets
import FederatedQuery.Sql.Text

/-!
Names and strings that cannot leave their quotes. A reader that knows only the quotes of a dialect finds the end of a
quoted name or string where it was written, whatever characters it holds, and so no two of them are written alike.
-/
namespace FederatedQuery

namespace Text

/-- A quoted text at the front, without its quotes and with its closing quotes single, and what comes after it. -/
def quoted? (opening close : Char) : List Char → Option (String × List Char)
  | [] => none
  | c :: rest => if c = opening then (unquote close rest).map fun read => (String.ofList read.1, read.2) else none

theorem quoted?_quote (opening close : Char) (text : String) {rest : List Char} (apart : rest.head? ≠ some close) :
    quoted? opening close ((quote opening close text).toList ++ rest) = some (text, rest) := by
  have chars : (quote opening close text).toList ++ rest =
      opening :: (double close text.toList ++ close :: rest) := by
    rw [quote, String.toList_ofList, List.cons_append, List.cons_append, List.append_assoc, List.singleton_append]
  rw [chars, quoted?, if_pos rfl, unquote_double close text.toList rest apart, Option.map_some, String.ofList_toList]

/-- Reading a text back tells it from every other. -/
theorem quote_injective (opening close : Char) : Function.Injective (quote opening close) := by
  intro left right same
  have read (text : String) : quoted? opening close ((quote opening close text).toList ++ []) = some (text, []) :=
    quoted?_quote opening close text (by simp)
  have first := read left
  rw [same, read] at first
  exact (congrArg Prod.fst (Option.some.inj first)).symm

end Text

namespace Sql

/-- The text of a string as it stands in a statement. -/
def stringText (d : Dialect) (s : String) : String := piecesText d ((Term.literal (.string s)).pieces d)

theorem stringText_eq_literal (d : Dialect) (s : String) : stringText d s = Text.literal s := by
  simp [stringText, piecesText, Term.pieces, literalPieces, Piece.text, Value.text, String.join]

/-- A quoted name, followed by anything but its closing quote, is read back and left where it ends, and so is a string
in a statement. Different names and different strings are written differently. -/
theorem quoted_texts_end_where_written (d : Dialect) :
    (∀ opening close, d.quote = some (opening, close) →
      (∀ (name : String) (rest : List Char), rest.head? ≠ some close →
        Text.quoted? opening close ((d.quoteIdentifier name).toList ++ rest) = some (name, rest)) ∧
      Function.Injective d.quoteIdentifier) ∧
    (∀ (s : String) (rest : List Char), rest.head? ≠ some '\'' →
      Text.quoted? '\'' '\'' ((stringText d s).toList ++ rest) = some (s, rest)) ∧
    Function.Injective (stringText d) := by
  refine ⟨fun opening close quotes => ?_, fun s rest apart => ?_, fun left right same => ?_⟩
  · have text (name : String) : d.quoteIdentifier name = Text.quote opening close name := by
      rw [Dialect.quoteIdentifier, quotes]
    refine ⟨fun name rest apart => ?_, fun left right same => ?_⟩
    · rw [text]
      exact Text.quoted?_quote opening close name apart
    · rw [text, text] at same
      exact Text.quote_injective opening close same
  · rw [stringText_eq_literal]
    exact Text.quoted?_quote _ _ s apart
  · rw [stringText_eq_literal, stringText_eq_literal] at same
    exact Text.quote_injective _ _ same

/-- A name that closes its brackets and a string made of quotes, each in front of more text. -/
theorem quoted_texts_end_where_written_brackets :
    Dialect.mssql.quote = some ('[', ']') ∧
    Text.quoted? '[' ']' ((Dialect.mssql.quoteIdentifier "]; --]").toList ++ [' ', ']']) =
      some ("]; --]", [' ', ']']) ∧
    Text.quoted? '\'' '\'' ((stringText .mssql "'' OR '").toList ++ [')']) = some ("'' OR '", [')']) := by
  obtain ⟨names, strings, -⟩ := quoted_texts_end_where_written .mssql
  exact ⟨rfl, (names '[' ']' rfl).1 _ _ (by decide), strings _ _ (by decide)⟩

end Sql

end FederatedQuery
