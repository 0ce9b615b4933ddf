import FederatedQuery.Proofs.Double.Exact
import FederatedQuery.Simplify.Interval
import FederatedQuery.Expr.Eval

/-!
Intervals stand for the numbers between their bounds. What an interval decides about a comparison is
what the comparison comes to on every number of the interval.
-/
namespace FederatedQuery

namespace Double

theorem numLt_eq {x y : Double} (left : x.isNaN = false) (right : y.isNaN = false) :
    x.numLt y = decide (x.units < y.units) := by
  simp [numLt, left, right]

theorem numEq_eq {x y : Double} (left : x.isNaN = false) (right : y.isNaN = false) :
    x.numEq y = decide (x.units = y.units) := by
  simp [numEq, left, right]

theorem isNaN_infinity (negative : Bool) : (infinity negative).isNaN = false := by
  rw [isNaN, infinity, magnitude_ofMagnitude _ _ (by decide)]
  exact decide_eq_false (Nat.lt_irrefl _)

theorem units_infinity (negative : Bool) :
    (infinity negative).units = if negative then -((infinity false).count : Int) else (infinity false).count := by
  have counts : (infinity negative).count = (infinity false).count := by
    have magnitudes : (infinity negative).magnitude = (infinity false).magnitude := by
      rw [infinity, infinity, magnitude_ofMagnitude _ _ (by decide), magnitude_ofMagnitude _ _ (by decide)]
    rw [count, count, spacing, spacing, exponent, exponent, fraction, fraction, magnitudes]
  rw [units, counts, infinity, isNegative_ofMagnitude _ _ (by decide)]

theorem lt_count_infinity {a : Nat} (small : a ≤ 2 ^ 63) : a * oneCount < (infinity false).count := by
  have exponent : (infinity false).exponent = 2047 := by
    rw [Double.exponent, infinity, magnitude_ofMagnitude _ _ (by decide)]
    rfl
  have powers (n : Nat) : 2 ^ 63 * 2 ^ n < 2 ^ 52 * 2 ^ (n + 972) := by
    calc 2 ^ 63 * 2 ^ n < 2 ^ (52 + 972) * 2 ^ n :=
          Nat.mul_lt_mul_of_pos_right (Nat.pow_lt_pow_right (by decide) (by decide)) (Nat.two_pow_pos n)
      _ = 2 ^ 52 * 2 ^ (n + 972) := by
        rw [Nat.pow_add 2 52 972, Nat.pow_add 2 n 972, Nat.mul_assoc, Nat.mul_comm (2 ^ 972)]
  calc a * oneCount ≤ 2 ^ 63 * oneCount := Nat.mul_le_mul_right _ small
    _ < 2 ^ 52 * 2 ^ (1074 + 972) := by
      rw [← oneCount_split 0 1074 rfl, Nat.pow_zero, Nat.one_mul]
      exact powers 1074
    _ ≤ (infinity false).count := by
      have normal : (infinity false).exponent ≠ 0 := by rw [exponent]; decide
      have lower := binade_le_count normal
      rwa [exponent, show 2047 - 1 = 1074 + 972 from rfl] at lower

end Double

namespace Interval

/-- A place among the numbers lies in an interval. Places are counted in halves of the smallest positive number, so
that there is one between a number and the next. -/
structure Spans (a : Interval) (u : Int) : Prop where
  lowNumber : a.lo.value.isNaN = false
  highNumber : a.hi.value.isNaN = false
  above : 2 * a.lo.value.units < u ∨ 2 * a.lo.value.units = u ∧ a.lo.inclusive = true
  below : u < 2 * a.hi.value.units ∨ u = 2 * a.hi.value.units ∧ a.hi.inclusive = true

variable {a b : Interval} {u : Int} {c : Double} {op : Op}

theorem Spans.intersect (left : a.Spans u) (right : b.Spans u) : (a.intersect b).Spans u := by
  have low : (maxLo a.lo b.lo).value.isNaN = false ∧ (2 * (maxLo a.lo b.lo).value.units < u ∨
      2 * (maxLo a.lo b.lo).value.units = u ∧ (maxLo a.lo b.lo).inclusive = true) := by
    unfold maxLo
    rw [Double.numLt_eq right.lowNumber left.lowNumber, Double.numLt_eq left.lowNumber right.lowNumber]
    have above := left.above
    have above' := right.above
    split
    · exact ⟨left.lowNumber, above⟩
    · split
      · exact ⟨right.lowNumber, above'⟩
      · refine ⟨left.lowNumber, ?_⟩
        grind
  have high : (minHi a.hi b.hi).value.isNaN = false ∧ (u < 2 * (minHi a.hi b.hi).value.units ∨
      u = 2 * (minHi a.hi b.hi).value.units ∧ (minHi a.hi b.hi).inclusive = true) := by
    unfold minHi
    rw [Double.numLt_eq left.highNumber right.highNumber, Double.numLt_eq right.highNumber left.highNumber]
    have below := left.below
    have below' := right.below
    split
    · exact ⟨left.highNumber, below⟩
    · split
      · exact ⟨right.highNumber, below'⟩
      · refine ⟨left.highNumber, ?_⟩
        grind
  exact ⟨low.1, high.1, low.2, high.2⟩

theorem Spans.isEmpty_eq_false (inside : a.Spans u) : a.isEmpty = false := by
  have above := inside.above
  have below := inside.below
  rw [isEmpty, Double.numLt_eq inside.highNumber inside.lowNumber, Double.numEq_eq inside.lowNumber inside.highNumber]
  grind

theorem contains_iff (low : a.lo.value.isNaN = false) (high : a.hi.value.isNaN = false)
    (number : c.isNaN = false) : a.contains c = true ↔ a.Spans (2 * c.units) := by
  rw [contains, Double.numLt_eq low number, Double.numEq_eq low number, Double.numLt_eq number high,
    Double.numEq_eq number high]
  simp only [Bool.and_eq_true, Bool.or_eq_true, decide_eq_true_eq]
  constructor
  · rintro ⟨above, below⟩
    exact ⟨low, high, by grind, by grind⟩
  · rintro ⟨-, -, above, below⟩
    grind

theorem Spans.eq_of_isPoint (inside : a.Spans u) (number : c.isNaN = false) (point : a.isPoint c = true) :
    u = 2 * c.units := by
  have above := inside.above
  have below := inside.below
  rw [isPoint, Double.numEq_eq inside.lowNumber number, Double.numEq_eq inside.highNumber number] at point
  grind

theorem Spans.of_isSubset (inside : a.Spans u) (low : b.lo.value.isNaN = false)
    (high : b.hi.value.isNaN = false) (subset : a.isSubset b = true) : b.Spans u := by
  have above := inside.above
  have below := inside.below
  rw [isSubset, Double.numLt_eq low inside.lowNumber, Double.numEq_eq inside.lowNumber low,
    Double.numLt_eq inside.highNumber high, Double.numEq_eq inside.highNumber high] at subset
  refine ⟨low, high, ?_, ?_⟩ <;> grind

theorem ofComparison_numbers (op : Op) (number : c.isNaN = false) :
    (ofComparison op c).lo.value.isNaN = false ∧ (ofComparison op c).hi.value.isNaN = false := by
  have low := Double.isNaN_infinity true
  have high := Double.isNaN_infinity false
  cases op <;> simp [ofComparison, unbounded, number, low, high]

theorem spans_ofComparison_iff (comparison : op.isComparison = true) (equality : op ≠ .ne) (number : c.isNaN = false)
    (low : 2 * (Double.infinity true).units < u) (high : u < 2 * (Double.infinity false).units) :
    (ofComparison op c).Spans u ↔ op.holds (compare u (2 * c.units)) = true := by
  obtain ⟨left, right⟩ := ofComparison_numbers op number
  have iff : (ofComparison op c).Spans u ↔
      (2 * (ofComparison op c).lo.value.units < u ∨
        2 * (ofComparison op c).lo.value.units = u ∧ (ofComparison op c).lo.inclusive = true) ∧
      (u < 2 * (ofComparison op c).hi.value.units ∨
        u = 2 * (ofComparison op c).hi.value.units ∧ (ofComparison op c).hi.inclusive = true) :=
    ⟨fun inside => ⟨inside.above, inside.below⟩, fun inside => ⟨left, right, inside.1, inside.2⟩⟩
  rw [iff]
  cases op with
  | eq | lt | le | gt | ge =>
    simp only [ofComparison, unbounded, Op.holds]
    rcases Int.lt_trichotomy u (2 * c.units) with less | same | more
    · rw [Int.compare_eq_lt.2 less]
      simp
      omega
    · rw [Int.compare_eq_eq.2 same]
      simp
      omega
    · rw [Int.compare_eq_gt.2 more]
      simp
      omega
  | ne => exact absurd rfl equality
  | _ => cases comparison

theorem Spans.holds_of_decides {outcome : Bool} (inside : a.Spans u) (comparison : op.isComparison = true)
    (number : c.isNaN = false) (low : 2 * (Double.infinity true).units < u)
    (high : u < 2 * (Double.infinity false).units) (decided : a.decides op c = some outcome) :
    op.holds (compare u (2 * c.units)) = outcome := by
  rw [decides, if_neg (by simp [inside.isEmpty_eq_false])] at decided
  by_cases inequality : op = .ne
  · subst inequality
    rw [if_pos rfl] at decided
    split at decided
    · rename_i outside
      cases decided
      have different : u ≠ 2 * c.units := by
        rintro rfl
        simp [(contains_iff inside.lowNumber inside.highNumber number).2 inside] at outside
      simpa [Op.holds] using different
    · split at decided
      · rename_i point
        cases decided
        rw [inside.eq_of_isPoint number point, Int.compare_eq_eq.2 rfl]
        rfl
      · cases decided
  · rw [if_neg inequality] at decided
    have iff := spans_ofComparison_iff comparison inequality number low high
    obtain ⟨left, right⟩ := ofComparison_numbers op number
    dsimp only at decided
    split at decided
    · rename_i subset
      cases decided
      exact iff.1 (inside.of_isSubset left right subset)
    · split at decided
      · rename_i empty
        cases decided
        by_contra holds
        have both := inside.intersect (iff.2 (by simpa using holds))
        simp [both.isEmpty_eq_false] at empty
      · cases decided

theorem compare_twice (u v : Int) : compare (2 * u) (2 * v) = compare u v := by
  rw [Int.mul_comm 2 u, Int.mul_comm 2 v]
  exact Double.compare_scaled u v (by decide : 0 < 2)

end Interval

end FederatedQuery
