import FederatedQuery.Double.Reading
import FederatedQuery.Text.Quoted

/-!
Quoted names and numerals at the front of a text. Whatever was written is read again, if what follows does not go on
with it.
-/
namespace FederatedQuery.Text

/-- What stands before the first closing quote that is not doubled, and what comes after it. -/
def unquote (close : Char) : List Char → Option (List Char × List Char)
  | [] => none
  | [c] => if c = close then some ([], []) else none
  | c :: next :: rest =>
    if c ≠ close then (unquote close (next :: rest)).map fun read => (c :: read.1, read.2)
    else if next = close then (unquote close rest).map fun read => (close :: read.1, read.2)
    else some ([], next :: rest)

theorem unquote_cons_of_ne {c close : Char} (other : c ≠ close) (rest : List Char) :
    unquote close (c :: rest) = (unquote close rest).map fun read => (c :: read.1, read.2) := by
  cases rest with
  | nil => rw [unquote, unquote, if_neg other, Option.map_none]
  | cons => rw [unquote, if_pos other]

theorem unquote_close {close : Char} {rest : List Char} (apart : rest.head? ≠ some close) :
    unquote close (close :: rest) = some ([], rest) := by
  cases rest with
  | nil => rw [unquote, if_pos rfl]
  | cons next rest =>
    have other : next ≠ close := fun same => apart (congrArg some same)
    rw [unquote, if_neg (not_not_intro rfl), if_neg other]

theorem unquote_double (close : Char) (chars rest : List Char) (apart : rest.head? ≠ some close) :
    unquote close (double close chars ++ close :: rest) = some (chars, rest) := by
  induction chars with
  | nil => exact unquote_close apart
  | cons _ _ ih =>
    rw [double, List.flatMap_cons, List.append_assoc, ← double]
    split
    next same =>
      rw [same, List.cons_append, List.cons_append, List.nil_append, unquote, if_neg (not_not_intro rfl), if_pos rfl,
        ih]
      rfl
    next other =>
      rw [List.cons_append, List.nil_append, unquote_cons_of_ne other, ih]
      rfl

/-- The digits at the front, if there are any, and what comes after them. -/
def natural? (chars : List Char) : Option (Nat × List Char) :=
  let digits := chars.takeWhile Char.isDigit
  if digits.isEmpty then none else some (digitsValue digits, chars.dropWhile Char.isDigit)

/-- A number with its sign at the front, and what comes after it. -/
def numeral? : List Char → Option (Int × List Char)
  | [] => none
  | c :: rest =>
    if c = '-' then (natural? rest).map fun read => (-(read.1 : Int), read.2)
    else (natural? (c :: rest)).map fun read => ((read.1 : Int), read.2)

theorem natural?_eq_none {chars : List Char} (other : ∀ c ∈ chars.head?, c.isDigit = false) :
    natural? chars = none := by
  cases chars with
  | nil => rfl
  | cons c rest => simp [natural?, other c rfl]

theorem natural?_toDigits (n : Nat) (rest : List Char) (apart : ∀ c ∈ rest.head?, c.isDigit = false) :
    natural? (Nat.toDigits 10 n ++ rest) = some (n, rest) := by
  have digits : ∀ c ∈ Nat.toDigits 10 n, c.isDigit := fun c => Nat.isDigit_of_mem_toDigits (by decide) (by decide)
  have ended : rest.takeWhile Char.isDigit = [] ∧ rest.dropWhile Char.isDigit = rest := by
    cases rest with
    | nil => exact ⟨rfl, rfl⟩
    | cons c rest => simp [apart c rfl]
  rw [natural?, List.takeWhile_append_of_pos digits, List.dropWhile_append_of_pos digits, ended.1, ended.2,
    List.append_nil, if_neg (fun empty => Nat.toDigits_ne_nil (List.isEmpty_iff.1 empty))]
  exact congrArg (fun value => some (value, rest)) Nat.ofDigitChars_ten_toDigits

theorem toList_toString_natCast (n : Nat) : (toString (n : Int)).toList = Nat.toDigits 10 n := by
  rw [Int.toString_eq_repr]
  exact (congrArg String.toList (Nat.repr_eq_ofList_toDigits ..)).trans String.toList_ofList

theorem toList_toString_negSucc (n : Nat) : (toString (Int.negSucc n)).toList = '-' :: Nat.toDigits 10 (n + 1) := by
  rw [Int.toString_eq_repr, Int.repr, Nat.repr_eq_ofList_toDigits, String.toList_append]
  exact congrArg ('-' :: ·) String.toList_ofList

theorem exists_cons_toString (i : Int) :
    ∃ c tail, (toString i).toList = c :: tail ∧ (c = '-' ∨ c.isDigit) ∧ ∀ digit ∈ tail, digit.isDigit := by
  have digits {n : Nat} {c : Char} (mem : c ∈ Nat.toDigits 10 n) : c.isDigit :=
    Nat.isDigit_of_mem_toDigits (by decide) (by decide) mem
  cases i with
  | ofNat n =>
    obtain ⟨c, tail, text⟩ := List.exists_cons_of_ne_nil (Nat.toDigits_ne_nil (n := n) (b := 10))
    rw [Int.ofNat_eq_natCast, toList_toString_natCast, text]
    exact ⟨c, tail, rfl, .inr (digits (text ▸ (.head _) : c ∈ Nat.toDigits 10 n)),
      fun digit mem => digits (text ▸ List.mem_cons_of_mem c mem : digit ∈ Nat.toDigits 10 n)⟩
  | negSucc n => exact ⟨'-', Nat.toDigits 10 (n + 1), toList_toString_negSucc n, .inl rfl, fun digit => digits⟩

theorem numeral?_toString (i : Int) (rest : List Char) (apart : ∀ c ∈ rest.head?, c.isDigit = false) :
    numeral? ((toString i).toList ++ rest) = some (i, rest) := by
  cases i with
  | ofNat n =>
    have read := natural?_toDigits n rest apart
    rw [Int.ofNat_eq_natCast, toList_toString_natCast]
    cases digits : Nat.toDigits 10 n with
    | nil => exact absurd digits Nat.toDigits_ne_nil
    | cons c tail =>
      have digit : c.isDigit :=
        Nat.isDigit_of_mem_toDigits (by decide) (by decide) (digits ▸ (.head _) : c ∈ Nat.toDigits 10 n)
      have unsigned : c ≠ '-' := by
        rintro rfl
        exact absurd digit (by decide)
      rw [digits] at read
      rw [List.cons_append, numeral?, if_neg unsigned, ← List.cons_append, read]
      rfl
  | negSucc =>
    rw [toList_toString_negSucc, List.cons_append, numeral?, if_pos rfl, natural?_toDigits _ rest apart]
    rfl

end FederatedQuery.Text
