import FederatedQuery.Proofs.Double.Exact
import FederatedQuery.Value.Order

/-!
Equality and order of values. The order is reflexive and reversed by exchanging its arguments. Equality
of constants sees no difference between the two zeros, and is identity where zeros have one sign.
-/
namespace FederatedQuery

theorem compareNats_self (a : List Nat) : compareNats a a = .eq := by
  induction a with
  | nil => rfl
  | cons _ _ ih => simp [compareNats, ih]

theorem eq_of_compareNats {a b : List Nat} (equal : compareNats a b = .eq) : a = b := by
  induction a generalizing b with
  | nil => cases b with
    | nil => rfl
    | cons => cases equal
  | cons x a ih => cases b with
    | nil => cases equal
    | cons =>
      rw [compareNats, Ordering.then_eq_eq] at equal
      rw [Nat.compare_eq_eq.1 equal.1, ih equal.2]

theorem compareNats_swap (a b : List Nat) : (compareNats a b).swap = compareNats b a := by
  induction a generalizing b with
  | nil => cases b <;> rfl
  | cons _ _ ih =>
    cases b with
    | nil => rfl
    | cons => rw [compareNats, compareNats, Ordering.swap_then, Nat.compare_swap, ih]

namespace Double

/-- A number is not the zero of the other sign. -/
def ZeroSigned (negative : Bool) (x : Double) : Prop := x.units = 0 → x.isNegative = negative

theorem isNegative_eq_decide {x : Double} (nonzero : x.units ≠ 0) :
    x.isNegative = decide (x.units < 0) := by
  cases sign : x.isNegative with
  | true =>
    simp only [units, sign, if_true] at nonzero ⊢
    exact (decide_eq_true (by omega)).symm
  | false =>
    simp only [units, sign, Bool.false_eq_true, if_false] at nonzero ⊢
    exact (decide_eq_false (by omega)).symm

theorem eq_of_numEq_of_zeroSigned {negative : Bool} {x y : Double} (equal : x.numEq y = true)
    (left : x.ZeroSigned negative) (right : y.ZeroSigned negative) : x = y := by
  have units : x.units = y.units := by
    simp only [numEq, Bool.and_eq_true, decide_eq_true_eq] at equal
    exact equal.2
  refine eq_of_numEq equal ?_
  by_cases zero : x.units = 0
  · rw [left zero, right (units ▸ zero)]
  · rw [isNegative_eq_decide zero, isNegative_eq_decide (units ▸ zero), units]

end Double

namespace Value

mutual

def floats : Value → List Double
  | float x => [x]
  | array items => itemFloats items
  | _ => []

def itemFloats : List Value → List Double
  | [] => []
  | v :: rest => v.floats ++ itemFloats rest

end

theorem mem_itemFloats {x : Double} {items : List Value} :
    x ∈ itemFloats items ↔ ∃ v ∈ items, x ∈ v.floats := by
  induction items with
  | nil => simp [itemFloats]
  | cons _ _ ih => simp [itemFloats, ih]

mutual

/-- Equal constants are identical where their zeros have one sign. -/
theorem eq_of_same {negative : Bool} : ∀ {a b : Value}, a.same b = true →
    (∀ x ∈ a.floats, x.ZeroSigned negative) → (∀ x ∈ b.floats, x.ZeroSigned negative) → a = b
  | .array as, .array bs, equal, left, right => by
    rw [same] at equal
    exact congrArg array (items_eq_of_same equal left right)
  | .float x, .float y, equal, left, right => by
    rw [same] at equal
    exact congrArg float (Double.eq_of_numEq_of_zeroSigned equal (left x (by simp [floats]))
      (right y (by simp [floats])))
  | .null, b, equal, _, _ | .bool _, b, equal, _, _ | .int _, b, equal, _, _ | .string _, b, equal, _, _
  | .bytes _, b, equal, _, _ | .date _, b, equal, _, _ | .timestamp _, b, equal, _, _ => by
    cases b <;> simp_all [same]

theorem items_eq_of_same {negative : Bool} : ∀ {as bs : List Value}, sameItems as bs = true →
    (∀ x ∈ itemFloats as, x.ZeroSigned negative) → (∀ x ∈ itemFloats bs, x.ZeroSigned negative) → as = bs
  | [], [], _, _, _ => rfl
  | a :: as, b :: bs, equal, left, right => by
    simp only [sameItems, Bool.and_eq_true] at equal
    simp only [itemFloats, List.mem_append] at left right
    rw [eq_of_same equal.1 (fun x mem => left x (.inl mem)) (fun x mem => right x (.inl mem)),
      items_eq_of_same equal.2 (fun x mem => left x (.inr mem)) (fun x mem => right x (.inr mem))]

end

mutual

theorem compare_self : ∀ a : Value, a.compare a = .eq
  | .null => rfl
  | .bool _ | .int _ | .float _ | .date _ | .timestamp _ => by simp [compare, Double.totalCompare]
  | .string _ | .bytes _ => by simp [compare, compareNats_self]
  | .array items => by rw [compare, compareRows_self items]

theorem compareRows_self : ∀ a : List Value, compareRows a a = .eq
  | [] => rfl
  | v :: rest => by rw [compareRows, compare_self v, compareRows_self rest, Ordering.eq_then]

end

mutual

theorem compare_swap : ∀ a b : Value, (a.compare b).swap = b.compare a
  | .null, b => by cases b <;> rfl
  | .bool x, b => by
    cases b with
    | bool y => exact Nat.compare_swap x.toNat y.toNat
    | _ => rfl
  | .int i, b => by
    cases b with
    | int j => exact Int.compare_swap i.toInt j.toInt
    | _ => rfl
  | .float x, b => by
    cases b with
    | int => simp only [compare, Ordering.swap_swap]
    | float y => exact Int.compare_swap x.totalKey y.totalKey
    | _ => rfl
  | .string _, b | .bytes _, b => by
    cases b with
    | string | bytes => simp only [compare, compareNats_swap]; try rfl
    | _ => rfl
  | .date d, b | .timestamp d, b => by
    cases b with
    | date e | timestamp e => first | exact Int.compare_swap d.toInt e.toInt | rfl
    | _ => rfl
  | .array items, b => by
    cases b with
    | array others => rw [compare, compare, compareRows_swap items others]
    | _ => rfl

theorem compareRows_swap : ∀ a b : List Value, (compareRows a b).swap = compareRows b a
  | [], [] | [], _ :: _ | _ :: _, [] => rfl
  | a :: as, b :: bs => by
    rw [compareRows, compareRows, Ordering.swap_then, compare_swap a b, compareRows_swap as bs]

end

mutual

theorem eq_of_compare : ∀ {a b : Value}, a.compare b = .eq → a.floats = [] → b.floats = [] → a = b
  | .array as, .array bs, equal, left, right => by
    rw [compare] at equal
    exact congrArg array (eq_of_compareRows equal left right)
  | .float x, _, _, left, _ => by cases left
  | .null, b, equal, _, _ => by cases b <;> simp_all [compare, rank]
  | .bool x, b, equal, _, _ => by
    cases b with
    | bool y => cases x <;> cases y <;> simp_all [compare]
    | _ => cases equal
  | .int i, b, equal, _, right => by
    cases b with
    | int => exact congrArg int (Int64.toInt_inj.1 (Std.LawfulEqOrd.eq_of_compare equal))
    | float => cases right
    | _ => cases equal
  | .string _, b, equal, _, _ => by
    cases b with
    | string =>
      have chars := (List.map_inj_right fun _ _ => Char.toNat_inj.1).1 (eq_of_compareNats equal)
      exact congrArg string (String.toList_inj.1 chars)
    | _ => cases equal
  | .bytes _, b, equal, _, _ => by
    cases b with
    | bytes => exact congrArg bytes ((List.map_inj_right fun _ _ => UInt8.toNat_inj.1).1 (eq_of_compareNats equal))
    | _ => cases equal
  | .date d, b, equal, _, _ => by
    cases b with
    | date => exact congrArg date (Int32.toInt_inj.1 (Std.LawfulEqOrd.eq_of_compare equal))
    | _ => cases equal
  | .timestamp t, b, equal, _, _ => by
    cases b with
    | timestamp => exact congrArg timestamp (Int64.toInt_inj.1 (Std.LawfulEqOrd.eq_of_compare equal))
    | _ => cases equal

theorem eq_of_compareRows : ∀ {as bs : List Value}, compareRows as bs = .eq → itemFloats as = [] →
    itemFloats bs = [] → as = bs
  | [], [], _, _, _ => rfl
  | a :: as, b :: bs, equal, left, right => by
    rw [compareRows, Ordering.then_eq_eq] at equal
    rw [itemFloats, List.append_eq_nil_iff] at left right
    rw [eq_of_compare equal.1 left.1 right.1, eq_of_compareRows equal.2 left.2 right.2]

end

end Value

end FederatedQuery
