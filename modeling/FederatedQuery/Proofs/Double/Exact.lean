import FederatedQuery.Double.Rounding
import Mathlib.Tactic.Ring
import Mathlib.Tactic.NormNum

/-!
Exactness of binary64 numbers. The count of a number grows with its magnitude, so two numbers of one
sign that are numerically equal are the same number, and an integer that fits the significand is held
without rounding.
-/
namespace FederatedQuery.Double

theorem word_ofMagnitude (negative : Bool) (m : Nat) (small : m < 2 ^ 63) :
    (ofMagnitude negative m).word = m + if negative then 2 ^ 63 else 0 := by
  have fits : (m + if negative then Nat.pow 2 63 else 0) < 2 ^ 64 := by
    cases negative <;> simp <;> omega
  simp only [word, ofMagnitude]
  rw [Nat.toUInt64_eq, UInt64.toNat_ofNat_of_lt' fits]
  rfl

theorem magnitude_ofMagnitude (negative : Bool) (m : Nat) (small : m < 2 ^ 63) :
    (ofMagnitude negative m).magnitude = m := by
  rw [magnitude, word_ofMagnitude negative m small]
  cases negative <;> simp <;> omega

theorem isNegative_ofMagnitude (negative : Bool) (m : Nat) (small : m < 2 ^ 63) :
    (ofMagnitude negative m).isNegative = negative := by
  rw [isNegative, word_ofMagnitude negative m small]
  cases negative with
  | false => simpa using small
  | true => simp

variable {x y : Double}

theorem eq_of_magnitude_eq (signs : x.isNegative = y.isNegative) (magnitudes : x.magnitude = y.magnitude) : x = y := by
  have words : x.word = y.word := by
    have signs' : (2 ^ 63 ≤ x.word) = (2 ^ 63 ≤ y.word) := by simpa [isNegative] using signs
    have remainders : x.word % 2 ^ 63 = y.word % 2 ^ 63 := magnitudes
    have below : x.word < 2 ^ 64 := x.bits.toNat_lt
    have below' : y.word < 2 ^ 64 := y.bits.toNat_lt
    by_cases high : 2 ^ 63 ≤ x.word
    · have high' : 2 ^ 63 ≤ y.word := by rwa [← signs']
      omega
    · have high' : ¬2 ^ 63 ≤ y.word := by rwa [← signs']
      omega
  cases x
  cases y
  exact congrArg Double.mk (UInt64.toNat.inj words)

theorem count_lt_binade (x : Double) : x.count < 2 ^ 52 * 2 ^ x.exponent := by
  have fraction : x.fraction < 2 ^ 52 := Nat.mod_lt _ (by decide)
  by_cases subnormal : x.exponent = 0
  · simpa [count, subnormal] using fraction
  · obtain ⟨e, exponent⟩ := Nat.exists_eq_succ_of_ne_zero subnormal
    rw [count, if_neg subnormal, spacing, exponent]
    calc (Nat.pow 2 52 + x.fraction) * Nat.pow 2 (e.succ - 1)
        < (2 ^ 52 + 2 ^ 52) * 2 ^ e := Nat.mul_lt_mul_of_pos_right (Nat.add_lt_add_left fraction _) (Nat.two_pow_pos e)
      _ = 2 ^ 52 * 2 ^ e.succ := by rw [Nat.pow_succ 2 e]; ring

theorem binade_le_count (normal : x.exponent ≠ 0) : 2 ^ 52 * 2 ^ (x.exponent - 1) ≤ x.count := by
  rw [count, if_neg normal]
  exact Nat.mul_le_mul_right _ (Nat.le_add_right _ _)

theorem count_lt_count (smaller : x.magnitude < y.magnitude) : x.count < y.count := by
  have exponents : x.exponent ≤ y.exponent := Nat.div_le_div_right smaller.le
  rcases exponents.lt_or_eq with less | same
  · have normal : y.exponent ≠ 0 := by omega
    calc x.count < 2 ^ 52 * 2 ^ x.exponent := count_lt_binade x
      _ ≤ 2 ^ 52 * 2 ^ (y.exponent - 1) := Nat.mul_le_mul_left _ (Nat.pow_le_pow_right (by decide) (by omega))
      _ ≤ y.count := binade_le_count normal
  · have fractions : x.fraction < y.fraction := by
      have left : 2 ^ 52 * x.exponent + x.fraction = x.magnitude := Nat.div_add_mod _ _
      have right : 2 ^ 52 * y.exponent + y.fraction = y.magnitude := Nat.div_add_mod _ _
      rw [same] at left
      omega
    by_cases subnormal : y.exponent = 0
    · simpa [count, same, subnormal] using fractions
    · rw [count, count, if_neg subnormal, if_neg (same ▸ subnormal), spacing, spacing, same]
      exact Nat.mul_lt_mul_of_pos_right (Nat.add_lt_add_left fractions _) (Nat.two_pow_pos _)

theorem magnitude_eq_of_count_eq (counts : x.count = y.count) : x.magnitude = y.magnitude := by
  rcases Nat.lt_trichotomy x.magnitude y.magnitude with less | same | more
  · exact absurd counts (count_lt_count less).ne
  · exact same
  · exact absurd counts (count_lt_count more).ne'

theorem eq_of_numEq (equal : x.numEq y = true) (signs : x.isNegative = y.isNegative) : x = y := by
  simp only [numEq, Bool.and_eq_true, decide_eq_true_eq] at equal
  have units := equal.2
  refine eq_of_magnitude_eq signs (magnitude_eq_of_count_eq ?_)
  simp only [Double.units, signs] at units
  split at units <;> omega

/-- A significand of fifty-three bits at any exponent is held without rounding. -/
theorem nearest_scaled (negative : Bool) {q shift : Nat} (low : 2 ^ 52 ≤ q) (high : q < 2 ^ 53)
    (small : shift ≤ 2045) :
    (nearest negative (q * 2 ^ shift) 1).count = q * 2 ^ shift ∧
      (nearest negative (q * 2 ^ shift) 1).isNegative = negative ∧
      (nearest negative (q * 2 ^ shift) 1).isNaN = false := by
  have log : Nat.log2 (q * 2 ^ shift / 1) = shift + 52 := by
    rw [Nat.div_one, Nat.log2_eq_iff (by positivity)]
    constructor
    · calc 2 ^ (shift + 52) = 2 ^ 52 * 2 ^ shift := by rw [Nat.pow_add]; ring
        _ ≤ q * 2 ^ shift := Nat.mul_le_mul_right _ low
    · calc q * 2 ^ shift < 2 ^ 53 * 2 ^ shift := Nat.mul_lt_mul_of_pos_right high (Nat.two_pow_pos _)
        _ = 2 ^ (shift + 52 + 1) := by rw [Nat.add_assoc, Nat.pow_add]; ring
  have exact : divNearest (q * 2 ^ shift) (1 * Nat.pow 2 shift) = q := by
    have quotient : q * 2 ^ shift / (1 * Nat.pow 2 shift) = q := by
      rw [Nat.one_mul]
      exact Nat.mul_div_cancel q (Nat.two_pow_pos shift)
    have remainder : q * 2 ^ shift % (1 * Nat.pow 2 shift) = 0 := by
      rw [Nat.one_mul]
      exact Nat.mul_mod_left q (2 ^ shift)
    have positive : 0 < 1 * Nat.pow 2 shift := by
      rw [Nat.one_mul]
      exact Nat.two_pow_pos shift
    rw [divNearest, quotient, remainder, if_pos (by omega)]
  have magnitude : shift + 52 + 1 - 53 = shift := by omega
  have bounded : shift * Nat.pow 2 52 + q < infinite := by
    simp only [infinite, Nat.pow_eq]
    omega
  have below : shift * Nat.pow 2 52 + q < 2 ^ 63 := bounded.trans (by decide)
  have result : nearest negative (q * 2 ^ shift) 1 =
      ofMagnitude negative (shift * Nat.pow 2 52 + q) := by
    rw [nearest, log, magnitude, exact, Nat.min_eq_left bounded.le]
  have exponent : (shift * Nat.pow 2 52 + q) / Nat.pow 2 52 = shift + 1 := by
    simp only [Nat.pow_eq]
    omega
  have fraction : (shift * Nat.pow 2 52 + q) % Nat.pow 2 52 = q - 2 ^ 52 := by
    simp only [Nat.pow_eq]
    omega
  have significand : Nat.pow 2 52 + (q - 2 ^ 52) = q := Nat.add_sub_cancel' low
  rw [result]
  refine ⟨?_, isNegative_ofMagnitude _ _ below, ?_⟩
  · rw [count, spacing, Double.fraction, Double.exponent, magnitude_ofMagnitude _ _ below, exponent,
      fraction, if_neg (Nat.succ_ne_zero _), Nat.add_sub_cancel, significand, Nat.pow_eq]
  · rw [isNaN, magnitude_ofMagnitude _ _ below]
    exact decide_eq_false (Nat.not_lt.2 bounded.le)

theorem oneCount_pos : 0 < oneCount := Nat.two_pow_pos 1074

theorem compare_scaled (a b : Int) {k : Nat} (positive : 0 < k) : compare (a * k) (b * k) = compare a b := by
  have scale : (0 : Int) < k := by exact_mod_cast positive
  rcases Int.lt_trichotomy a b with less | same | more
  · rw [Int.compare_eq_lt.2 less, Int.compare_eq_lt.2 (Int.mul_lt_mul_of_pos_right less scale)]
  · rw [same, Int.compare_eq_eq.2 rfl, Int.compare_eq_eq.2 rfl]
  · rw [Int.compare_eq_gt.2 more, Int.compare_eq_gt.2 (Int.mul_lt_mul_of_pos_right more scale)]

theorem oneCount_split (m n : Nat) (total : m + n = 1074) : 2 ^ m * 2 ^ n = oneCount := by
  rw [oneCount, ← total]
  exact (Nat.pow_add 2 m n).symm

/-- A positive integer of the exact range is a significand of fifty-three bits at some exponent. -/
theorem exists_scaled {a : Nat} (positive : 0 < a) (small : a ≤ exactLimit) :
    ∃ q shift, 2 ^ 52 ≤ q ∧ q < 2 ^ 53 ∧ shift ≤ 2045 ∧ a * oneCount = q * 2 ^ shift := by
  rcases Nat.lt_or_eq_of_le small with less | full
  · have log : Nat.log2 a ≤ 52 := by
      have power := (Nat.log2_lt (Nat.ne_of_gt positive)).2 less
      omega
    have lower := Nat.log2_self_le (Nat.ne_of_gt positive)
    have upper := Nat.lt_log2_self (n := a)
    refine ⟨a * 2 ^ (52 - a.log2), 1022 + a.log2, ?_, ?_, by omega, ?_⟩
    · calc 2 ^ 52 = 2 ^ a.log2 * 2 ^ (52 - a.log2) := by rw [← Nat.pow_add]; congr 1; omega
        _ ≤ a * 2 ^ (52 - a.log2) := Nat.mul_le_mul_right _ lower
    · calc a * 2 ^ (52 - a.log2) < 2 ^ (a.log2 + 1) * 2 ^ (52 - a.log2) :=
            Nat.mul_lt_mul_of_pos_right upper (Nat.two_pow_pos _)
        _ = 2 ^ 53 := by rw [← Nat.pow_add]; congr 1; omega
    · rw [Nat.mul_assoc, oneCount_split _ _ (by omega)]
  · have scaled (n : Nat) : 2 ^ 53 * (2 ^ 1 * 2 ^ n) = 2 ^ 52 * 2 ^ (n + 2) := by ring
    refine ⟨2 ^ 52, 1073 + 2, le_rfl, by decide, by decide, ?_⟩
    rw [full, ← oneCount_split 1 1073 rfl, ← scaled, exactLimit, Nat.pow_eq]

theorem ofInt_exact {i : Int} (small : i.natAbs ≤ exactLimit) :
    (ofInt i).units = i * oneCount ∧ (ofInt i).isNaN = false := by
  rcases Nat.eq_zero_or_pos i.natAbs with zero | positive
  · rw [Int.natAbs_eq_zero] at zero
    have held : ofInt 0 = ofMagnitude false 0 := by
      rw [ofInt, Int.zero_mul]
      rfl
    rw [zero, held, Int.zero_mul]
    decide
  · obtain ⟨q, shift, low, high, bound, scaled⟩ := exists_scaled positive small
    have absolute : (i * (oneCount : Int)).natAbs = q * 2 ^ shift := by
      rw [Int.natAbs_mul, Int.natAbs_natCast, scaled]
    obtain ⟨count, sign, number⟩ := nearest_scaled (decide (i * (oneCount : Int) < 0)) low high bound
    rw [ofInt, ofUnits, absolute]
    refine ⟨?_, number⟩
    rw [units, sign, count, ← absolute]
    by_cases negative : i * (oneCount : Int) < 0
    · rw [if_pos (decide_eq_true negative)]
      omega
    · rw [if_neg fun held => negative (of_decide_eq_true held)]
      omega

end FederatedQuery.Double
