import FederatedQuery.Proofs.Sql.Marks
import FederatedQuery.Proofs.Sql.Steps

/-!
The words of terms. They are those of the language and those that a dialect gives, so no piece of a term has two dashes
in a row unless a word of the dialect does.
-/
namespace FederatedQuery.Sql

instance {α : Type} [DecidableEq α] (a : α) (l : List α) : Decidable (Twice a l) :=
  inferInstanceAs (Decidable ([a, a] <:+: l))

def dialectWords (d : Dialect) : List String := d.minusKeyword :: (d.functions.map Prod.snd ++ d.castTypes.map Prod.snd)

/-- Identifiers are quoted, and no word of the dialect has two dashes in a row. -/
structure WordsPlain (d : Dialect) : Prop where
  quotes : d.quote.isSome
  words : ∀ w ∈ dialectWords d, ¬Twice '-' w.toList

/-- None of the pieces has two dashes in a row. -/
def Neat (d : Dialect) (pieces : List Piece) : Prop := ∀ p ∈ pieces, ¬Twice dash (p.marks d)

section Words

variable {d : Dialect} {word : String}

theorem mem_of_lookup {standard : String} {entries : List (String × String)}
    (found : entries.lookup standard = some word) : word ∈ entries.map Prod.snd := by
  obtain ⟨before, after, rfl, -⟩ := List.lookup_eq_some_iff.1 found
  simp

theorem not_twice_functionName (plain : WordsPlain d) {standard : String} (fixed : ¬Twice '-' standard.toList) :
    ¬Twice '-' (d.functionName standard).toList := by
  rw [Dialect.functionName]
  cases found : d.functions.lookup standard with
  | none => exact fixed
  | some word => exact plain.words word (.tail _ (List.mem_append_left _ (mem_of_lookup found)))

theorem not_twice_before {after : String} (inside : ¬Twice '-' word.toList) (last : '-' ∉ after.toList) :
    ¬Twice '-' (word ++ after).toList := by
  rw [String.toList_append, twice_append]
  rintro (twice | twice | ⟨_, starts⟩)
  · exact inside twice
  · exact not_twice_of_not_mem last twice
  · exact last (List.mem_of_mem_head? starts)

theorem not_twice_after {before : String} (first : '-' ∉ before.toList) (inside : ¬Twice '-' word.toList) :
    ¬Twice '-' (before ++ word).toList := by
  rw [String.toList_append, twice_append]
  rintro (twice | twice | ⟨ends, _⟩)
  · exact not_twice_of_not_mem first twice
  · exact inside twice
  · exact first (List.mem_of_getLast? ends)

theorem not_twice_castName (plain : WordsPlain d) (ty : SqlType) : ¬Twice '-' (d.castName ty).toList := by
  have same (text : String) : toString text = text := rfl
  have given {ty : SqlType} {word : String} (found : d.castTypes.lookup ty.name = some word) : ¬Twice '-' word.toList :=
    plain.words word (.tail _ (List.mem_append_right _ (mem_of_lookup found)))
  have fixed (ty : SqlType) : ¬Twice '-' ty.name.toList := by
    rw [SqlType.name.eq_def]
    split <;> decide
  induction ty with
  | array item ih =>
    rw [Dialect.castName]
    split
    next found => exact given found
    next => exact not_twice_before ih (by decide)
  | varchar limit =>
    rw [Dialect.castName.eq_def]
    split
    next found => exact given found
    next =>
      cases limit with
      | none => exact fixed _
      | some => exact not_twice_of_not_mem (by simp [same, dash_not_mem_toDigits])
  | decimal =>
    rw [Dialect.castName]
    split
    next found => exact given found
    next => exact not_twice_of_not_mem (by simp [same, dash_not_mem_toDigits])
  | boolean | integer | bigInt | double | binary | date | timestamp | any | null =>
    rw [Dialect.castName.eq_def]
    split
    next found => exact given found
    next => exact fixed _

theorem not_twice_setOpKeyword (plain : WordsPlain d) (op : SetOp) (all : Bool) :
    ¬Twice '-' ("\n" ++ setOpKeyword d op all ++ "\n").toList := by
  refine not_twice_before (not_twice_after (by decide) ?_) (by decide)
  have base {word : String} (clean : ¬Twice '-' word.toList) : ¬Twice '-' (if all then word ++ " ALL"
      else if d.distinctKeyword then word ++ " DISTINCT" else word).toList := by
    split
    · exact not_twice_before clean (by decide)
    · split
      · exact not_twice_before clean (by decide)
      · exact clean
  cases op with
  | union => exact base (by decide : ¬Twice '-' "UNION".toList)
  | intersect => exact base (by decide : ¬Twice '-' "INTERSECT".toList)
  | minus => exact base (plain.words _ (.head _))

theorem not_twice_limitText (offset fetch : Option Nat) : ¬Twice '-' (limitText d offset fetch).toList := by
  have same (text : String) : toString text = text := rfl
  refine not_twice_of_not_mem ?_
  rw [limitText.eq_def]
  cases d.limit with
  | limitOffset => cases offset <;> cases fetch <;> simp [same, dash_not_mem_toDigits]
  | offsetFetch => cases offset <;> cases fetch <;> cases d.limitNeedsOrder <;> simp [same, dash_not_mem_toDigits]

end Words

section Neat

variable {d : Dialect} {left right : List Piece} {t : Term} {word : String}

theorem neat_nil : Neat d [] := nofun

theorem Neat.append (first : Neat d left) (second : Neat d right) : Neat d (left ++ right) := by
  intro p mem
  rcases List.mem_append.1 mem with mem | mem
  · exact first p mem
  · exact second p mem

theorem neat_word (plain : ¬Twice '-' word.toList) (rest : Neat d right) : Neat d (.word word :: right) := by
  intro p mem
  rcases List.mem_cons.1 mem with rfl | mem
  · exact fun twice => plain (twice_bare.1 twice)
  · exact rest p mem

theorem neat_identifier (plain : WordsPlain d) (name : String) (rest : Neat d right) :
    Neat d (.identifier name :: right) := by
  intro p mem
  rcases List.mem_cons.1 mem with rfl | mem
  · rw [Piece.marks, if_pos plain.quotes]
    exact not_twice_of_not_mem (dash_not_mem_quoted _)
  · exact rest p mem

theorem Neat.bracketed (inside : Neat d left) : Neat d (bracketed left) :=
  neat_word (by decide) (inside.append (neat_word (by decide) neat_nil))

theorem Neat.operand (inside : Neat d left) (least : Nat) (t : Term) : Neat d (operandPieces least t left) := by
  rw [operandPieces]
  split
  · exact inside.bracketed
  · exact inside

theorem neat_separated (plain : ¬Twice '-' word.toList) {lists : List (List Piece)}
    (each : ∀ pieces ∈ lists, Neat d pieces) : Neat d (separated word lists) := by
  induction lists with
  | nil => exact neat_nil
  | cons first rest ih =>
    have here := each first (.head _)
    cases rest with
    | nil => exact here
    | cons => exact here.append (neat_word plain (ih fun pieces mem => each pieces (.tail _ mem)))

theorem neat_names (plain : WordsPlain d) (clean : ¬Twice '-' word.toList) (names : List String) :
    Neat d (separated word (names.map fun name => [.identifier name])) := by
  refine neat_separated clean fun pieces mem => ?_
  obtain ⟨name, -, rfl⟩ := List.mem_map.1 mem
  exact neat_identifier plain name neat_nil

theorem neat_aliasPieces (plain : WordsPlain d) (label : String) : Neat d (aliasPieces d label) := by
  rw [aliasPieces]
  split <;> exact neat_word (by decide) (neat_identifier plain label neat_nil)

end Neat

section Terms

variable {d : Dialect} {t : Term}

theorem neat_literal {v : Value} (single : ∀ items, v ≠ .array items) : Neat d [.literal v] := by
  intro p mem
  rw [List.mem_singleton.1 mem]
  exact (valueMarks_dash single).1

mutual

theorem neat_literalPieces (plain : WordsPlain d) : ∀ v : Value, Neat d (literalPieces d v)
  | .array items => by
    exact neat_word (not_twice_functionName plain (by decide)) (neat_word (by decide)
      ((neat_literalItems plain items).append (neat_word (by decide) neat_nil)))
  | .null | .bool _ | .int _ | .float _ | .string _ | .bytes _ | .date _ | .timestamp _ => neat_literal (by simp)

theorem neat_literalItems (plain : WordsPlain d) : ∀ items : List Value, Neat d (literalItems d items)
  | [] => neat_nil
  | [v] => neat_literalPieces plain v
  | v :: w :: rest => (neat_literalPieces plain v).append (neat_word (by decide) (neat_literalItems plain (w :: rest)))

end

theorem neat_terms {ts : List Term} (each : ∀ t ∈ ts, Neat d (t.pieces d)) : Neat d (termsPieces d ts) := by
  induction ts with
  | nil => exact neat_nil
  | cons t rest ih =>
    have here := each t (.head _)
    cases rest with
    | nil => exact here
    | cons => exact here.append (neat_word (by decide) (ih fun t mem => each t (.tail _ mem)))

theorem neat_option {keyword : String} (fixed : ¬Twice '-' keyword.toList) {t : Option Term}
    (each : ∀ u ∈ t, Neat d (u.pieces d)) : Neat d (optionPieces d keyword t) := by
  cases t with
  | none => exact neat_nil
  | some t => exact neat_word fixed (each t rfl)

theorem neat_branches {branches : List (Term × Term)}
    (each : ∀ b ∈ branches, Neat d (b.1.pieces d) ∧ Neat d (b.2.pieces d)) : Neat d (branchesPieces d branches) := by
  induction branches with
  | nil => exact neat_nil
  | cons b rest ih =>
    obtain ⟨condition, result⟩ := b
    have here := each _ (.head _)
    rw [branchesPieces, List.append_assoc]
    exact neat_word (by decide) (here.1.append (neat_word (by decide)
      (here.2.append (ih fun b mem => each b (.tail _ mem)))))

theorem neat_function {name : String} (fixed : ¬Twice '-' name.toList) (distinct : Bool) {args : List Term}
    (each : ∀ t ∈ args, Neat d (t.pieces d)) : Neat d ((Term.function name distinct args).pieces d) := by
  have last : Neat d (termsPieces d args ++ [.word ")"]) := (neat_terms each).append (neat_word (by decide) neat_nil)
  cases distinct with
  | false => exact neat_word fixed (neat_word (by decide) last)
  | true => exact neat_word fixed (neat_word (by decide) (neat_word (by decide) last))

theorem neat_substring {text start : Term} {length : Option Term} (first : Neat d (text.pieces d))
    (second : Neat d (start.pieces d)) (third : ∀ t ∈ length, Neat d (t.pieces d)) :
    Neat d ((Term.substring text start length).pieces d) := by
  have parts {opening between last : String} (one : ¬Twice '-' opening.toList) (two : ¬Twice '-' between.toList)
      (three : ¬Twice '-' last.toList) : Neat d (.word opening :: text.pieces d ++ .word between :: start.pieces d ++
        optionPieces d last length ++ [.word ")"]) := by
    rw [List.append_assoc, List.append_assoc]
    exact neat_word one (first.append (neat_word two (second.append ((neat_option three third).append
      (neat_word (by decide) neat_nil)))))
  rw [Term.pieces]
  split <;> exact parts (by decide) (by decide) (by decide)

theorem neat_item (plain : WordsPlain d) {whole index : Term} (first : Neat d (whole.pieces d))
    (second : Neat d (index.pieces d)) : Neat d ((Term.item whole index).pieces d) := by
  rw [Term.pieces, List.append_assoc]
  refine (first.operand _ _).append (neat_word (by decide) (.append ?_ (neat_word (by decide) neat_nil)))
  split
  next wrapper found =>
    have given := plain.words wrapper (.tail _ (List.mem_append_left _ (mem_of_lookup found)))
    exact neat_word given second.bracketed
  next => exact second

theorem neat_param (plain : WordsPlain d) (index : Nat) (ty : SqlType) : Neat d ((Term.param index ty).pieces d) := by
  intro p mem
  rw [Term.pieces, List.mem_singleton] at mem
  rw [mem, Piece.marks, twice_bare]
  split
  · exact not_twice_before (not_twice_after (by decide) (not_twice_castName plain ty)) (by decide)
  · exact (by decide : ¬Twice '-' "?".toList)

theorem neat_column (plain : WordsPlain d) (qualifier : Option String) (name : String) :
    Neat d ((Term.column qualifier name).pieces d) := by
  cases qualifier with
  | none => exact neat_identifier plain name neat_nil
  | some qualifier =>
    exact neat_identifier plain qualifier (neat_word (by decide) (neat_identifier plain name neat_nil))

theorem inherited_neat (plain : WordsPlain d) : Inherited d fun t => Neat d (t.pieces d) := by
  have words : ∀ word ∈ callWords, ¬Twice '-' word.toList := by decide
  exact {
    literal v := neat_literalPieces plain v
    param index ty := neat_param plain index ty
    star := neat_word (by decide) neat_nil
    binary fixed _ _ first second := by
      rw [Term.pieces, List.append_assoc]
      exact (first.operand _ _).append (neat_word (by decide) (neat_word (words _ fixed) (neat_word (by decide)
        (second.operand _ _))))
    unary fixed _ inside := by
      rw [Term.pieces]
      split
      · exact neat_word (by decide) (inside.operand _ _)
      · exact neat_word (words _ fixed) (inside.operand _ _)
    suffixed fixed _ inside := (inside.operand _ _).append (neat_word (by decide) (neat_word (words _ fixed) neat_nil))
    function fixed distinct _ each := by
      rcases fixed with fixed | renamed
      · exact neat_function (words _ fixed) distinct each
      · obtain ⟨standard, fixed, rfl⟩ := List.mem_map.1 renamed
        exact neat_function (not_twice_functionName plain (words _ fixed)) distinct each
    cast ty _ inside := neat_word (by decide) (inside.append (neat_word (by decide)
      (neat_word (not_twice_castName plain ty) (neat_word (by decide) neat_nil))))
    case each last := by
      rw [Term.pieces, List.append_assoc]
      exact neat_word (by decide) ((neat_branches each).append ((neat_option (by decide) last).append
        (neat_word (by decide) neat_nil)))
    substring := neat_substring
    array each := by
      exact neat_word (not_twice_functionName plain (by decide)) (neat_word (by decide)
        ((neat_terms each).append (neat_word (by decide) neat_nil)))
    item := neat_item plain }

end Terms

end FederatedQuery.Sql
