import FederatedQuery.Proofs.Double.Exact
import FederatedQuery.Value.Order

/-!
Integers among binary64 numbers. The total order of floats is the order of their counts, apart from the two
zeros. An integer against a float is the order of their counts, unless the float is two to the power of
sixty-three: the greatest integers are rounded to it before they are compared.
-/
namespace FederatedQuery

theorem compare_eq_of_lt_iff {a b c d : Int} (less : a < b ↔ c < d) (more : b < a ↔ d < c) :
    compare a b = compare c d := by
  rcases Int.lt_trichotomy a b with below | same | above
  · rw [Int.compare_eq_lt.2 below, Int.compare_eq_lt.2 (less.1 below)]
  · have level : c = d := by omega
    rw [Int.compare_eq_eq.2 same, Int.compare_eq_eq.2 level]
  · rw [Int.compare_eq_gt.2 above, Int.compare_eq_gt.2 (more.1 above)]

theorem toInt_of_int64? {i : Int} {j : Int64} (found : int64? i = some j) : j.toInt = i := by
  unfold int64? at found
  split at found
  next inside =>
    cases found
    exact Int64.toInt_ofInt_of_le inside.1 (Int.lt_add_one_of_le inside.2)
  next outside => cases found

theorem outside_of_int64? {i : Int} (missing : int64? i = none) : i < -2 ^ 63 ∨ 2 ^ 63 ≤ i := by
  unfold int64? at missing
  split at missing
  next inside => cases missing
  next outside =>
    have least : Int64.minValue.toInt = -2 ^ 63 := rfl
    have greatest : Int64.maxValue.toInt = 2 ^ 63 - 1 := rfl
    omega

namespace Double

variable {x y : Double} {s n : Nat} {i : Int}

theorem count_lt_count_iff : x.count < y.count ↔ x.magnitude < y.magnitude := by
  refine ⟨fun less => ?_, count_lt_count⟩
  by_contra more
  rcases (Nat.not_lt.1 more).lt_or_eq with above | same
  · exact absurd less (count_lt_count above).le.not_gt
  · have counts : x.count = y.count := by
      unfold count spacing exponent fraction
      rw [same]
    omega

theorem count_le_count (smaller : x.magnitude ≤ y.magnitude) : x.count ≤ y.count :=
  Nat.not_lt.1 fun above => absurd (count_lt_count_iff.1 above) smaller.not_gt

theorem totalCompare_eq (apart : x.units ≠ 0 ∨ y.units ≠ 0) : x.totalCompare y = compare x.units y.units := by
  have less := count_lt_count_iff (x := x) (y := y)
  have more := count_lt_count_iff (x := y) (y := x)
  apply compare_eq_of_lt_iff
  · unfold totalKey units at *
    split <;> split <;> simp_all <;> omega
  · unfold totalKey units at *
    split <;> split <;> simp_all <;> omega

theorem count_binade (negative : Bool) (small : s ≤ 2045) :
    (ofMagnitude negative ((s + 1) * 2 ^ 52)).count = 2 ^ 52 * 2 ^ s := by
  have below : (s + 1) * 2 ^ 52 < 2 ^ 63 := by omega
  have exponent : (s + 1) * 2 ^ 52 / Nat.pow 2 52 = s + 1 := by
    simp only [Nat.pow_eq]
    omega
  have fraction : (s + 1) * 2 ^ 52 % Nat.pow 2 52 = 0 := by
    simp only [Nat.pow_eq]
    omega
  rw [count, spacing, Double.fraction, Double.exponent, magnitude_ofMagnitude _ _ below, exponent, fraction,
    if_neg (Nat.succ_ne_zero s), Nat.add_sub_cancel, Nat.add_zero, Nat.pow_eq, Nat.pow_eq]

theorem divNearest_bounds (low : 2 ^ 52 * 2 ^ s ≤ n) (high : n < 2 ^ 53 * 2 ^ s) :
    2 ^ 52 ≤ divNearest n (2 ^ s) ∧ divNearest n (2 ^ s) ≤ 2 ^ 53 := by
  have lower : 2 ^ 52 ≤ n / 2 ^ s := (Nat.le_div_iff_mul_le (Nat.two_pow_pos s)).2 low
  have upper : n / 2 ^ s < 2 ^ 53 := (Nat.div_lt_iff_lt_mul (Nat.two_pow_pos s)).2 high
  unfold divNearest
  dsimp only
  split
  · omega
  · split <;> omega

theorem nearest_eq (negative : Bool) (low : 2 ^ 52 * 2 ^ s ≤ n) (high : n < 2 ^ 53 * 2 ^ s) (small : s ≤ 2044) :
    nearest negative n 1 = ofMagnitude negative (s * 2 ^ 52 + divNearest n (2 ^ s)) := by
  have positive : n ≠ 0 := by omega
  have log : Nat.log2 (n / 1) = s + 52 := by
    rw [Nat.div_one, Nat.log2_eq_iff positive, show s + 52 + 1 = 53 + s by omega, Nat.add_comm s 52,
      Nat.pow_add, Nat.pow_add]
    exact ⟨low, high⟩
  have upper := (divNearest_bounds low high).2
  have bounded : s * 2 ^ 52 + divNearest n (2 ^ s) ≤ infinite := by
    clear low high log
    have limit : infinite = 2047 * 2 ^ 52 := rfl
    omega
  rw [nearest, log, show s + 52 + 1 - 53 = s by omega, Nat.one_mul]
  exact congrArg (ofMagnitude negative) (Nat.min_eq_left bounded)

theorem nearest_bounds (negative : Bool) (low : 2 ^ 52 * 2 ^ s ≤ n) (high : n < 2 ^ 53 * 2 ^ s) (small : s ≤ 2044) :
    2 ^ 52 * 2 ^ s ≤ (nearest negative n 1).count ∧ (nearest negative n 1).count ≤ 2 ^ 53 * 2 ^ s ∧
      (nearest negative n 1).isNegative = negative := by
  have first := count_binade negative (show s ≤ 2045 by omega)
  have second := count_binade negative (show s + 1 ≤ 2045 by omega)
  have doubled : 2 ^ 52 * 2 ^ (s + 1) = 2 ^ 53 * 2 ^ s := by rw [Nat.pow_succ 2 s]; ring
  rw [nearest_eq negative low high small, ← first, ← doubled, ← second]
  obtain ⟨lower, upper⟩ := divNearest_bounds low high
  clear first second doubled low high
  have below : s * 2 ^ 52 + divNearest n (2 ^ s) < 2 ^ 63 := by omega
  refine ⟨count_le_count ?_, count_le_count ?_, isNegative_ofMagnitude _ _ below⟩
  · rw [magnitude_ofMagnitude _ _ (by omega), magnitude_ofMagnitude _ _ below]
    omega
  · rw [magnitude_ofMagnitude _ _ below, magnitude_ofMagnitude _ _ (by omega)]
    omega

theorem binade_eq {m : Nat} (k : Nat) (total : m + n = 1074) : 2 ^ m * 2 ^ (n + k) = 2 ^ k * oneCount := by
  rw [← oneCount_split m n total, Nat.pow_add, ← Nat.mul_assoc, Nat.mul_comm]

theorem binade_top_eq (k : Nat) : 2 ^ 53 * 2 ^ (1022 + k) = 2 ^ (k + 1) * oneCount := by
  rw [Nat.pow_succ 2 52, Nat.mul_right_comm, binade_eq _ rfl, Nat.pow_succ, Nat.mul_right_comm]

theorem count_between {k : Nat} (low : 2 ^ k ≤ n) (high : n < 2 ^ (k + 1)) :
    2 ^ 52 * 2 ^ (1022 + k) ≤ n * oneCount ∧ n * oneCount < 2 ^ 53 * 2 ^ (1022 + k) := by
  rw [binade_eq _ rfl, binade_top_eq]
  exact ⟨Nat.mul_le_mul_right _ low, Nat.mul_lt_mul_of_pos_right high oneCount_pos⟩

/-- An integer keeps its sign, and is rounded to a number between the powers of two around it. -/
theorem ofInt_between {k : Nat} (low : 2 ^ k ≤ i.natAbs) (high : i.natAbs < 2 ^ (k + 1)) (small : k ≤ 1022) :
    2 ^ k * oneCount ≤ (ofInt i).count ∧ (ofInt i).count ≤ 2 ^ (k + 1) * oneCount ∧
      (ofInt i).isNegative = decide (i * (oneCount : Int) < 0) := by
  obtain ⟨above, below⟩ := count_between low high
  have bounds := nearest_bounds (decide (i * (oneCount : Int) < 0)) above below (by omega)
  rw [binade_eq _ rfl, binade_top_eq] at bounds
  rwa [ofInt, ofUnits, Int.natAbs_mul, Int.natAbs_natCast]

/-- An integer of sixty-four bits that is too large to be held exactly keeps its sign, and is rounded to a number
between the largest exact integer and two to the power of sixty-three. -/
theorem ofInt_bounds (large : 2 ^ 53 ≤ i.natAbs) (small : i.natAbs ≤ 2 ^ 63) :
    2 ^ 53 * oneCount ≤ (ofInt i).count ∧ (ofInt i).count ≤ 2 ^ 63 * oneCount ∧
      (ofInt i).isNegative = decide (i * (oneCount : Int) < 0) := by
  have positive : i.natAbs ≠ 0 := by omega
  rcases small.lt_or_eq with below | full
  · have least : 53 ≤ i.natAbs.log2 := (Nat.le_log2 positive).2 large
    have greatest : i.natAbs.log2 < 63 := (Nat.log2_lt positive).2 below
    obtain ⟨lower, upper, sign⟩ := ofInt_between (Nat.log2_self_le positive) Nat.lt_log2_self (by omega)
    refine ⟨le_trans ?_ lower, upper.trans ?_, sign⟩
    · exact Nat.mul_le_mul_right _ (Nat.pow_le_pow_right (by decide) least)
    · exact Nat.mul_le_mul_right _ (Nat.pow_le_pow_right (by decide) greatest)
  · obtain ⟨exact, sign, -⟩ := nearest_scaled (decide (i * (oneCount : Int) < 0)) (le_refl (2 ^ 52)) (by decide)
      (show 1022 + 63 ≤ 2045 by decide)
    rw [ofInt, ofUnits, Int.natAbs_mul, Int.natAbs_natCast, full, ← binade_eq (m := 52) (n := 1022) 63 rfl]
    refine ⟨?_, exact.le, sign⟩
    rw [exact, binade_eq _ rfl]
    exact Nat.mul_le_mul_right _ (Nat.pow_le_pow_right (by decide) (by decide))

theorem units_ofInt_limit : (ofInt (2 ^ 63)).units = 2 ^ 63 * (oneCount : Int) := by
  decide +kernel

/-- A number with a fraction is smaller than the numbers at which the distance to the next is one. -/
theorem count_lt_of_fractional (fractional : x.units % (oneCount : Int) ≠ 0) : x.count < 2 ^ 52 * oneCount := by
  have small : x.exponent ≤ 1074 := by
    by_contra large
    have divides : oneCount ∣ x.spacing := Nat.pow_dvd_pow 2 (by omega)
    have whole : oneCount ∣ x.count := by
      rw [count, if_neg (by omega)]
      exact divides.mul_left _
    apply fractional
    rw [units]
    split
    · exact Int.emod_eq_zero_of_dvd (Int.dvd_neg.2 (Int.natCast_dvd_natCast.2 whole))
    · exact Int.emod_eq_zero_of_dvd (Int.natCast_dvd_natCast.2 whole)
  calc x.count < 2 ^ 52 * 2 ^ x.exponent := count_lt_binade x
    _ ≤ 2 ^ 52 * oneCount := Nat.mul_le_mul_left _ (Nat.pow_le_pow_right (by decide) small)

/-- The same for an integer among the units: it moves away from the exact range by no more than the sixty-four bit
range allows. -/
theorem units_ofInt_bounds (large : 2 ^ 53 ≤ i.natAbs) (small : i.natAbs ≤ 2 ^ 63) :
    0 < i ∧ 2 ^ 53 * (oneCount : Int) ≤ (ofInt i).units ∧ (ofInt i).units ≤ 2 ^ 63 * oneCount ∨
      i < 0 ∧ -(2 ^ 63 * oneCount) ≤ (ofInt i).units ∧ (ofInt i).units ≤ -(2 ^ 53 * (oneCount : Int)) := by
  obtain ⟨lower, upper, sign⟩ := ofInt_bounds large small
  have one : (0 : Int) < oneCount := by exact_mod_cast oneCount_pos
  rcases Int.lt_or_gt_of_ne (show i ≠ 0 by omega) with below | above
  · rw [decide_eq_true (Int.mul_neg_of_neg_of_pos below one)] at sign
    rw [units, sign, if_pos rfl]
    omega
  · rw [decide_eq_false (Int.mul_pos above one).le.not_gt] at sign
    rw [units, sign, if_neg Bool.false_ne_true]
    omega

theorem units_of_integer?_none (missing : x.integer? = none) :
    -(2 ^ 52 * (oneCount : Int)) < x.units ∧ x.units < 2 ^ 52 * oneCount ∧ x.units ≠ 0 ∨
      x.units < -(2 ^ 63 * (oneCount : Int)) ∨ 2 ^ 63 * oneCount ≤ x.units := by
  have one : (0 : Int) < oneCount := by exact_mod_cast oneCount_pos
  unfold integer? at missing
  split at missing
  next whole =>
    right
    obtain ⟨q, scaled⟩ := Int.dvd_of_emod_eq_zero whole
    rw [scaled, Int.mul_ediv_cancel_left _ one.ne'] at missing
    rw [scaled, Int.mul_comm]
    rcases outside_of_int64? missing with below | above
    · left
      rw [← Int.neg_mul]
      exact Int.mul_lt_mul_of_pos_right below one
    · right
      exact Int.mul_le_mul_of_nonneg_right above one.le
  next fractional =>
    left
    have small := count_lt_of_fractional fractional
    have nonzero : x.units ≠ 0 := fun zero => fractional (by rw [zero, Int.zero_emod])
    refine ⟨?_, ?_, nonzero⟩ <;> unfold units <;> split <;> omega

end Double

open Double in
/-- An integer is compared with a float as the numbers they are, unless the float is two to the power of
sixty-three. -/
theorem compareIntDouble_eq {i : Int64} {x : Double} (apart : x.units ≠ 2 ^ 63 * (oneCount : Int)) :
    compareIntDouble i x = compare (i.toInt * (oneCount : Int)) x.units := by
  unfold compareIntDouble
  cases found : x.integer? with
  | some j =>
    unfold integer? at found
    split at found
    next whole =>
      have scaled : x.units = j.toInt * (oneCount : Int) := by
        rw [toInt_of_int64? found, Int.ediv_mul_cancel (Int.dvd_of_emod_eq_zero whole)]
      dsimp only
      rw [scaled, compare_scaled _ _ oneCount_pos]
    next => cases found
  | none =>
    dsimp only
    have one : (0 : Int) < oneCount := by exact_mod_cast oneCount_pos
    have least := i.le_toInt
    have greatest := i.toInt_lt
    have place := units_of_integer?_none found
    rw [totalCompare_eq (.inr (by omega))]
    by_cases exact : i.toInt.natAbs ≤ exactLimit
    · rw [(ofInt_exact exact).1]
    have large : 2 ^ 53 ≤ i.toInt.natAbs := (Nat.lt_of_not_le exact).le
    -- The float lies on one side of the integer and of what the integer is rounded to.
    rcases units_ofInt_bounds large (by omega) with ⟨positive, lower, upper⟩ | ⟨negative, lower, upper⟩
    · have above : 2 ^ 53 * (oneCount : Int) ≤ i.toInt * oneCount :=
        Int.mul_le_mul_of_nonneg_right (by omega) one.le
      have below : i.toInt * oneCount ≤ 2 ^ 63 * (oneCount : Int) := Int.mul_le_mul_of_nonneg_right (by omega) one.le
      apply compare_eq_of_lt_iff <;> omega
    · have above : -2 ^ 63 * (oneCount : Int) ≤ i.toInt * oneCount :=
        Int.mul_le_mul_of_nonneg_right (by omega) one.le
      have below : i.toInt * oneCount ≤ -2 ^ 53 * (oneCount : Int) := Int.mul_le_mul_of_nonneg_right (by omega) one.le
      apply compare_eq_of_lt_iff <;> omega

end FederatedQuery
