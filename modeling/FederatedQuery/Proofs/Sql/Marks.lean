import FederatedQuery.Proofs.Text.Lexemes
import FederatedQuery.Sql.Text
import Mathlib.Data.List.Infix

/-!
The characters of a statement, each marked by whether it stands in a string or in a quoted name. Two dashes in a row
outside of both start a comment. No literal has them, whatever its value.
-/
namespace FederatedQuery.Sql

section Twice

variable {α β : Type} {a b : α} {left right : List α}

def Twice (a : α) (l : List α) : Prop := [a, a] <:+: l

theorem not_twice_nil (a : α) : ¬Twice a [] := by simp [Twice]

theorem twice_cons : Twice a (b :: left) ↔ b = a ∧ left.head? = some a ∨ Twice a left := by
  rw [Twice, List.infix_cons_iff, Twice, eq_comm]
  cases left with
  | nil => simp
  | cons c rest => simp [eq_comm (a := c)]

theorem twice_append : Twice a (left ++ right) ↔
    Twice a left ∨ Twice a right ∨ left.getLast? = some a ∧ right.head? = some a := by
  induction left with
  | nil => simp [not_twice_nil]
  | cons b rest ih =>
    rw [List.cons_append, twice_cons, twice_cons]
    cases rest with
    | nil => simp [not_twice_nil]; tauto
    | cons => simp; tauto

theorem mem_of_twice_cons (twice : Twice a (b :: left)) : a ∈ left := by
  obtain ⟨_, head⟩ | inside := twice_cons.1 twice
  · exact List.mem_of_mem_head? head
  · exact inside.subset (.head _)

theorem not_twice_of_not_mem (absent : a ∉ left) : ¬Twice a left := fun twice => absent (twice.subset (.head _))

theorem twice_map {f : α → β} (injective : Function.Injective f) : Twice (f a) (left.map f) ↔ Twice a left := by
  induction left with
  | nil => simp [not_twice_nil]
  | cons b rest ih =>
    rw [List.map_cons, twice_cons, twice_cons, ih]
    cases rest <;> simp [injective.eq_iff]

end Twice

/-- A character with whether it is quoted. -/
abbrev Mark := Char × Bool

def bare (text : String) : List Mark := text.toList.map fun c => (c, false)

def quoted (text : String) : List Mark := text.toList.map fun c => (c, true)

def dash : Mark := ('-', false)

/-- The literal form of a value, in which strings are quoted and so is what follows the word of a date or of bytes. -/
def valueMarks : Value → List Mark
  | .string s => quoted (Text.literal s)
  | .bytes b => bare "X" ++ quoted ("'" ++ Text.hexBytes true b ++ "'")
  | .date d => match Calendar.dateText? d.toInt with
    | some day => bare "DATE " ++ quoted ("'" ++ day ++ "'")
    | none => bare (Value.date d).text
  | .timestamp t => match Calendar.timestampText? t.toInt with
    | some moment => bare "TIMESTAMP " ++ quoted ("'" ++ moment ++ "'")
    | none => bare (Value.timestamp t).text
  | v => bare v.text

namespace Piece

def marks (d : Dialect) : Piece → List Mark
  | identifier name => if d.quote.isSome then quoted (d.quoteIdentifier name) else bare (d.quoteIdentifier name)
  | literal v => valueMarks v
  | word text => bare text
  | param index cast => bare ((param index cast).text d)

end Piece

def marks (d : Dialect) (pieces : List Piece) : List Mark := pieces.flatMap (Piece.marks d)

section Text

theorem fst_bare (text : String) : (bare text).map Prod.fst = text.toList := by
  simp [bare, Function.comp_def]

theorem fst_quoted (text : String) : (quoted text).map Prod.fst = text.toList := by
  simp [quoted, Function.comp_def]

theorem fst_valueMarks (v : Value) : (valueMarks v).map Prod.fst = v.text.toList := by
  cases v with
  | null | bool | int | float | array => exact fst_bare _
  | string => exact fst_quoted _
  | bytes => simp [valueMarks, fst_bare, fst_quoted, Value.text]
  | date day =>
    rw [valueMarks, Value.text]
    cases Calendar.dateText? day.toInt with
    | none => exact fst_bare _
    | some => simp [fst_bare, fst_quoted]
  | timestamp t =>
    rw [valueMarks, Value.text]
    cases Calendar.timestampText? t.toInt with
    | none => exact fst_bare _
    | some => simp [fst_bare, fst_quoted]

theorem fst_marks (d : Dialect) (pieces : List Piece) :
    (marks d pieces).map Prod.fst = (piecesText d pieces).toList := by
  have single (p : Piece) : (p.marks d).map Prod.fst = (p.text d).toList := by
    cases p with
    | word | param => exact fst_bare _
    | identifier =>
      rw [Piece.marks]
      split
      · exact fst_quoted _
      · exact fst_bare _
    | literal v => exact fst_valueMarks v
  rw [marks, List.map_flatMap, piecesText, String.toList_join, List.flatMap_map]
  simp only [single]

end Text

section Literals

variable {text : String} {digits : List Char}

theorem twice_bare : Twice dash (bare text) ↔ Twice '-' text.toList := by
  have injective : Function.Injective fun c : Char => (c, false) := fun _ _ same => congrArg Prod.fst same
  exact twice_map injective

theorem dash_not_mem_quoted (text : String) : dash ∉ quoted text := by
  intro mem
  obtain ⟨c, _, same⟩ := List.mem_map.1 mem
  exact Bool.noConfusion (congrArg Prod.snd same)

theorem dash_mem_bare : dash ∈ bare text ↔ '-' ∈ text.toList := by
  simp [bare, dash]

theorem not_digit_dash {c : Char} (digit : c.isDigit) : c ≠ '-' := by
  rintro rfl
  exact absurd digit (by decide)

theorem not_twice_toString (i : Int) : ¬Twice '-' (toString i).toList := by
  obtain ⟨c, tail, text, _, digits⟩ := Text.exists_cons_toString i
  rw [text]
  exact fun twice => not_digit_dash (digits '-' (mem_of_twice_cons twice)) rfl

theorem dash_not_mem_toDigits (n : Nat) : '-' ∉ Nat.toDigits 10 n :=
  fun mem => not_digit_dash (Nat.isDigit_of_mem_toDigits (by decide) (by decide) mem) rfl

theorem dash_not_mem_dropEndingZeros (n : Nat) : '-' ∉ Double.dropEndingZeros (Nat.toDigits 10 n) := by
  intro mem
  rw [Double.dropEndingZeros, List.mem_reverse] at mem
  exact dash_not_mem_toDigits n (List.mem_reverse.1 ((List.dropWhile_sublist _).subset mem))

theorem dash_not_mem_positionalText (l : Double.Layout) (plain : '-' ∉ digits) (leading : Int) :
    '-' ∉ (l.positionalText digits leading).toList := by
  have zeros (n : Nat) : '-' ∉ (Double.zeros n).toList := by simp [Double.zeros]
  have taken (n : Nat) : '-' ∉ digits.take n := fun mem => plain (List.mem_of_mem_take mem)
  have dropped (n : Nat) : '-' ∉ digits.drop n := fun mem => plain (List.mem_of_mem_drop mem)
  rw [Double.Layout.positionalText]
  split
  · simp [zeros, plain]
  · split
    · cases l.point <;> simp [zeros, plain]
    · simp [taken, dropped]

/-- Digits with a point among them, the mark of the exponent, and the exponent with its sign. -/
theorem exists_exponentText (l : Double.Layout) (plain : '-' ∉ digits) (leading : Int) :
    ∃ front plus, (l.exponentText digits leading).toList = front ++ 'e' :: (plus ++ (toString leading).toList) ∧
      '-' ∉ front ∧ '-' ∉ plus := by
  have taken (n : Nat) : '-' ∉ digits.take n := fun mem => plain (List.mem_of_mem_take mem)
  have tail : '-' ∉ digits.tail := fun mem => plain (List.mem_of_mem_tail mem)
  rw [Double.Layout.exponentText]
  refine ⟨_, _, by simp only [String.toList_append, List.append_assoc]; rfl, ?_, ?_⟩
  · split <;> simp [taken, tail]
  · split <;> simp

theorem not_twice_exponentText (l : Double.Layout) (plain : '-' ∉ digits) (leading : Int) :
    (l.exponentText digits leading).toList.head? ≠ some '-' ∧ ¬Twice '-' (l.exponentText digits leading).toList := by
  obtain ⟨front, plus, text, inFront, inPlus⟩ := exists_exponentText l plain leading
  have exponent : ¬Twice '-' (plus ++ (toString leading).toList) := by
    rw [twice_append]
    rintro (inside | inside | ⟨ends, _⟩)
    · exact not_twice_of_not_mem inPlus inside
    · exact not_twice_toString leading inside
    · exact inPlus (List.mem_of_getLast? ends)
  rw [text]
  constructor
  · cases front with
    | nil => exact fun same => absurd (Option.some.inj same) (by decide)
    | cons => exact fun same => inFront (Option.some.inj same ▸ (.head _))
  · rw [twice_append, twice_cons]
    rintro (inside | (⟨e, _⟩ | inside) | ⟨ends, _⟩)
    · exact not_twice_of_not_mem inFront inside
    · exact absurd e (by decide)
    · exact exponent inside
    · exact inFront (List.mem_of_getLast? ends)

theorem exists_numberText (l : Double.Layout) (x : Double) : ∃ body,
    (l.text x).toList = (if x.isNegative && !x.isNaN then ['-'] else []) ++ body ∧
      body.head? ≠ some '-' ∧ ¬Twice '-' body := by
  have plain {body : List Char} (absent : '-' ∉ body) : body.head? ≠ some '-' ∧ ¬Twice '-' body :=
    ⟨fun head => absent (List.mem_of_mem_head? head), not_twice_of_not_mem absent⟩
  cases nan : x.isNaN with
  | true => exact ⟨"NaN".toList, by simp [Double.Layout.text, nan], plain (by decide)⟩
  | false =>
    have sign (body : String) : ((if x.isNegative then "-" else "") ++ body).toList =
        (if x.isNegative && !false then ['-'] else []) ++ body.toList := by
      cases x.isNegative <;> simp
    simp only [Double.Layout.text, nan, Bool.false_eq_true, if_false]
    split
    · exact ⟨_, sign _, plain (by decide)⟩
    · split
      · refine ⟨_, sign _, plain ?_⟩
        split <;> decide
      · refine ⟨_, sign _, ?_⟩
        split
        · exact plain (dash_not_mem_positionalText l (dash_not_mem_dropEndingZeros _) _)
        · exact not_twice_exponentText l (dash_not_mem_dropEndingZeros _) _

/-- Whether the literal form of a value has a sign. -/
def isSignedValue : Value → Bool
  | .int i => decide (i.toInt < 0)
  | .float x => x.isNegative && !x.isNaN
  | _ => false

theorem head?_bare (text : String) : (bare text).head? = some dash ↔ text.toList.head? = some '-' := by
  rw [bare, List.head?_map]
  cases text.toList.head? <;> simp [dash]

theorem head?_toString (i : Int) : (toString i).toList.head? = some '-' ↔ i < 0 := by
  cases i with
  | ofNat n =>
    rw [Int.ofNat_eq_natCast, Text.toList_toString_natCast]
    refine iff_of_false (fun head => dash_not_mem_toDigits n (List.mem_of_mem_head? head)) ?_
    omega
  | negSucc n =>
    rw [Text.toList_toString_negSucc]
    exact iff_of_true rfl (Int.negSucc_lt_zero n)

theorem dash_not_mem_append_quoted {word : String} (plain : '-' ∉ word.toList) : dash ∉ bare word ++ quoted text := by
  rw [List.mem_append, dash_mem_bare]
  rintro (mem | mem)
  · exact plain mem
  · exact dash_not_mem_quoted text mem

theorem not_twice_count {word : String} (plain : '-' ∉ word.toList) (i : Int) :
    ¬Twice '-' (word ++ toString i ++ ")").toList := by
  rw [String.toList_append, String.toList_append, twice_append, twice_append]
  rintro ((inside | inside | ⟨ends, _⟩) | inside | ⟨_, starts⟩)
  · exact not_twice_of_not_mem plain inside
  · exact not_twice_toString i inside
  · exact plain (List.mem_of_getLast? ends)
  · exact not_twice_of_not_mem (by decide) inside
  · exact absurd starts (by decide)

/-- No literal has two dashes in a row, and one that starts with a dash is a number with its sign. -/
theorem valueMarks_dash {v : Value} (single : ∀ items, v ≠ .array items) :
    ¬Twice dash (valueMarks v) ∧ ((valueMarks v).head? = some dash ↔ isSignedValue v) := by
  have plain {ms : List Mark} (absent : dash ∉ ms) : ¬Twice dash ms ∧ (ms.head? = some dash ↔ false = true) :=
    ⟨not_twice_of_not_mem absent, iff_of_false (fun head => absent (List.mem_of_mem_head? head)) nofun⟩
  cases v with
  | null => exact plain (by decide)
  | bool b => exact plain (by cases b <;> decide)
  | int i =>
    change ¬Twice dash (bare (toString i.toInt)) ∧ ((bare (toString i.toInt)).head? = some dash ↔ _)
    rw [twice_bare, head?_bare, head?_toString, isSignedValue, decide_eq_true_iff]
    exact ⟨not_twice_toString _, Iff.rfl⟩
  | float x =>
    obtain ⟨body, text, first, clean⟩ := exists_numberText Double.valueLayout x
    change ¬Twice dash (bare (Double.valueLayout.text x)) ∧ ((bare (Double.valueLayout.text x)).head? = some dash ↔ _)
    rw [twice_bare, head?_bare, text, isSignedValue]
    cases x.isNegative && !x.isNaN with
    | false => exact ⟨clean, iff_of_false first nofun⟩
    | true =>
      refine ⟨fun twice => ?_, iff_of_true rfl rfl⟩
      obtain ⟨_, head⟩ | inside := twice_cons.1 twice
      · exact first head
      · exact clean inside
  | string => exact plain (dash_not_mem_quoted _)
  | bytes => exact plain (dash_not_mem_append_quoted (by decide))
  | date | timestamp =>
    rw [valueMarks]
    split
    next text found => exact plain (dash_not_mem_append_quoted (by decide))
    next found =>
      rw [Value.text, found, twice_bare, head?_bare]
      exact ⟨not_twice_count (by decide) _, iff_of_false (by simp) nofun⟩
  | array items => exact absurd rfl (single items)

end Literals

end FederatedQuery.Sql
