import FederatedQuery.Proofs.Value.Order
import FederatedQuery.Rows.SetOperation

/-!
Set operations on any number of inputs. A union, built two inputs at a time, keeps the first occurrences
among the rows of all inputs; equal rows are found by their keys, which for rows without floats means by
identity.
-/
namespace FederatedQuery.Rows

section Distinct

variable {seen rows before : List Row}

theorem distinctFrom_append (seen xs ys : List Row) :
    distinctFrom seen (xs ++ ys) = distinctFrom seen xs ++ distinctFrom (seen ++ distinctFrom seen xs) ys := by
  induction xs generalizing seen with
  | nil => rw [List.nil_append, distinctFrom, List.nil_append, List.append_nil]
  | cons _ _ ih =>
    rw [List.cons_append, distinctFrom, distinctFrom]
    split
    · exact ih seen
    · rw [ih, List.cons_append, List.append_assoc, List.singleton_append]

theorem distinctFrom_eq_nil (repeated : ∀ r ∈ before, hasKey seen r = true) : distinctFrom seen before = [] := by
  induction before with
  | nil => rfl
  | cons _ _ ih =>
    rw [List.forall_mem_cons] at repeated
    rw [distinctFrom, if_pos repeated.1, ih repeated.2]

theorem distinctFrom_distinctFrom (seen rows : List Row) :
    distinctFrom seen (distinctFrom seen rows) = distinctFrom seen rows := by
  induction rows generalizing seen with
  | nil => rfl
  | cons _ _ ih =>
    rw [distinctFrom]
    split
    · exact ih seen
    · next fresh => rw [distinctFrom, if_neg fresh, ih]

theorem distinct_append_left (xs ys : List Row) : distinct (distinct xs ++ ys) = distinct (xs ++ ys) := by
  unfold distinct
  rw [distinctFrom_append, distinctFrom_distinctFrom, distinctFrom_append]

theorem sameKey_eq_equal {r s : Row} (left : Value.itemFloats r = []) (right : Value.itemFloats s = []) :
    r.sameKey s = r.equal s := by
  unfold Row.sameKey
  by_cases equal : r.equal s = true
  · obtain rfl := Value.eq_of_compareRows (of_decide_eq_true equal) left right
    rw [equal, decide_eq_true rfl, Bool.and_self]
  · rw [Bool.eq_false_of_not_eq_true equal, Bool.and_false]

/-- There are no floats in the rows. -/
abbrev Floatless (rows : List Row) : Prop := ∀ r ∈ rows, Value.itemFloats r = []

theorem distinct_eq_eraseDupsBy (free : Floatless rows) :
    distinct rows = rows.eraseDupsBy Row.equal := by
  -- What has been kept so far stands in reverse in the one and in order in the other.
  have step (seen : List Row) (kept : Floatless seen) :
      List.eraseDupsBy.loop Row.equal rows seen = seen.reverse ++ distinctFrom seen.reverse rows := by
    induction rows generalizing seen with
    | nil => rw [List.eraseDupsBy.loop, distinctFrom, List.append_nil]
    | cons r rows ih =>
      have free := List.forall_mem_cons.1 free
      have known : hasKey seen.reverse r = seen.any (Row.equal r) := by
        rw [hasKey, List.any_reverse, Bool.eq_iff_iff, List.any_eq_true, List.any_eq_true]
        exact exists_congr fun s => and_congr_right fun mem => by rw [sameKey_eq_equal free.1 (kept s mem)]
      rw [List.eraseDupsBy.loop, distinctFrom, known]
      cases seen.any (Row.equal r) with
      | true => exact ih free.2 seen kept
      | false =>
        rw [if_neg Bool.false_ne_true, ← List.reverse_cons]
        refine (ih free.2 (r :: seen) (List.forall_mem_cons.2 ⟨free.1, kept⟩)).trans ?_
        rw [List.reverse_cons, List.append_assoc, List.singleton_append]
  exact (step [] nofun).symm

end Distinct

/-- A set operation on the rows of all inputs: those of a union one after the other, without `all` in their
first occurrences, and otherwise each input combined with what the inputs before it come to. There is nothing to
combine a single input with, and it keeps its duplicates. -/
def combineAll : SetOp → Bool → List Row → List (List Row) → List Row
  | .union, true, first, rest => first ++ rest.flatten
  | .union, false, first, [] => first
  | .union, false, first, rest => (first ++ rest.flatten).eraseDupsBy Row.equal
  | op, all, first, rest => rest.foldl (setOperation op all) first

section Combine

variable {first : List Row} {rest : List (List Row)}

theorem foldl_unionAll : rest.foldl (setOperation .union true) first = first ++ rest.flatten := by
  induction rest generalizing first with
  | nil => rw [List.foldl_nil, List.flatten_nil, List.append_nil]
  | cons _ _ ih => rw [List.foldl_cons, ih, setOperation, List.flatten_cons, List.append_assoc]

theorem foldl_union_distinct :
    rest.foldl (setOperation .union false) (distinct first) = distinct (first ++ rest.flatten) := by
  induction rest generalizing first with
  | nil => rw [List.foldl_nil, List.flatten_nil, List.append_nil]
  | cons _ _ ih =>
    rw [List.foldl_cons, setOperation, distinct_append_left, ih, List.flatten_cons, List.append_assoc]

theorem foldl_setOperation {op : SetOp} {all : Bool}
    (free : op = .union → all = false → ∀ rows ∈ first :: rest, Floatless rows) :
    rest.foldl (setOperation op all) first = combineAll op all first rest := by
  unfold combineAll
  split
  · exact foldl_unionAll
  · rfl
  · next several =>
    cases rest with
    | nil => exact (several rfl).elim
    | cons rows rest =>
      rw [List.foldl_cons, setOperation, foldl_union_distinct, List.append_assoc, ← List.flatten_cons]
      refine distinct_eq_eraseDupsBy fun r mem => ?_
      rw [← List.flatten_cons] at mem
      obtain ⟨rows, inside, mem⟩ := List.mem_flatten.1 mem
      exact free rfl rfl rows inside r mem
  · rfl

end Combine

end FederatedQuery.Rows
