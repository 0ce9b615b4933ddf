import FederatedQuery.Proofs.Value.Key

/-!
The place of an integer among binary64 numbers. Integers that are rounded to two to the power of sixty-three lie
above every smaller number, so against floats they stand for that power.
-/
namespace FederatedQuery

namespace Double

variable {y : Double}

/-- Below a power of two, numbers end one spacing before it. -/
theorem count_le_of_lt {s : Nat} (below : y.count < 2 ^ 53 * 2 ^ s) : y.count ≤ (2 ^ 53 - 1) * 2 ^ s := by
  have doubled : 2 ^ 53 * 2 ^ s = 2 ^ 52 * 2 ^ (s + 1) := by rw [Nat.pow_succ 2 s]; ring
  rcases Nat.lt_or_ge s y.exponent with high | low
  · have normal : y.exponent ≠ 0 := by omega
    have power : 2 ^ (y.exponent - 1) < 2 ^ (s + 1) := by
      have lower := binade_le_count normal
      rw [doubled] at below
      exact Nat.lt_of_mul_lt_mul_left (lower.trans_lt below)
    have exponent : y.exponent - 1 = s := by
      have := (Nat.pow_lt_pow_iff_right (by decide)).1 power
      omega
    have fraction : y.fraction < 2 ^ 52 := Nat.mod_lt _ (by decide)
    rw [count, if_neg normal, spacing, exponent, Nat.pow_eq, Nat.pow_eq]
    exact Nat.mul_le_mul_right _ (by omega)
  · calc y.count ≤ 2 ^ 52 * 2 ^ y.exponent := (count_lt_binade y).le
      _ ≤ 2 ^ 52 * 2 ^ s := Nat.mul_le_mul_left _ (Nat.pow_le_pow_right (by decide) low)
      _ ≤ (2 ^ 53 - 1) * 2 ^ s := Nat.mul_le_mul_right _ (by decide)

/-- What is rounded up to a power of two lies less than one spacing below it. -/
theorem lt_of_divNearest {n d : Nat} (below : n < 2 ^ 53 * d) (top : divNearest n d = 2 ^ 53) :
    (2 ^ 53 - 1) * d < n := by
  have positive : 0 < d := Nat.pos_of_ne_zero fun zero => by simp [zero] at below
  have quotient : n / d < 2 ^ 53 := (Nat.div_lt_iff_lt_mul positive).2 below
  have whole := Nat.div_add_mod n d
  have up : n / d = 2 ^ 53 - 1 ∧ 0 < n % d := by
    unfold divNearest at top
    dsimp only at top
    split at top
    · omega
    · split at top <;> omega
  rw [up.1, Nat.mul_comm] at whole
  omega

/-- An integer that is rounded up to a power of two lies above every number that is smaller than the power. -/
theorem count_lt_of_rounds {i : Int} {k n : Nat} (next : n = k + 1) (low : 2 ^ k ≤ i.natAbs) (high : i.natAbs < 2 ^ n)
    (small : k ≤ 1022) (rounds : (ofInt i).count = 2 ^ n * oneCount) (below : y.count < 2 ^ n * oneCount) :
    y.count < i.natAbs * oneCount := by
  subst next
  obtain ⟨above, under⟩ := count_between low high
  have held := nearest_eq (decide (i * (oneCount : Int) < 0)) above under (by omega)
  have rounded : ofInt i = nearest (decide (i * (oneCount : Int) < 0)) (i.natAbs * oneCount) 1 := by
    rw [ofInt, ofUnits, Int.natAbs_mul, Int.natAbs_natCast]
  rw [← rounded] at held
  have top : divNearest (i.natAbs * oneCount) (2 ^ (1022 + k)) = 2 ^ 53 := by
    have upper := (divNearest_bounds above under).2
    have power := count_binade (decide (i * (oneCount : Int) < 0)) (show 1022 + (k + 1) ≤ 2045 by omega)
    rw [binade_eq _ rfl, ← rounds, held] at power
    have magnitudes := magnitude_eq_of_count_eq power
    generalize divNearest (i.natAbs * oneCount) (2 ^ (1022 + k)) = q at upper magnitudes ⊢
    rw [magnitude_ofMagnitude _ _ (by omega), magnitude_ofMagnitude _ _ (by omega)] at magnitudes
    omega
  rw [← binade_top_eq] at below
  exact (count_le_of_lt below).trans_lt (lt_of_divNearest under top)

/-- The count that an integer of sixty-four bits stands for next to a float: its own, unless it is rounded to two to
the power of sixty-three. -/
def standing (i : Int64) : Int :=
  if (ofInt i.toInt).units = 2 ^ 63 * (oneCount : Int) then 2 ^ 63 * oneCount else i.toInt * oneCount

theorem units_lt_of_rounds {i : Int64} (rounds : (ofInt i.toInt).units = 2 ^ 63 * (oneCount : Int))
    (below : y.units < 2 ^ 63 * (oneCount : Int)) : y.units < i.toInt * oneCount := by
  have one := oneCount_pos
  have least := i.le_toInt
  have greatest := i.toInt_lt
  have large : 2 ^ 53 ≤ i.toInt.natAbs := by
    by_contra small
    rw [(ofInt_exact (show i.toInt.natAbs ≤ exactLimit from (Nat.lt_of_not_le small).le)).1] at rounds
    have := Int.eq_of_mul_eq_mul_right (by omega) rounds
    omega
  have positive : 0 < i.toInt := by
    rcases units_ofInt_bounds large (by omega) with ⟨positive, _⟩ | ⟨_, _, upper⟩ <;> omega
  have count : (ofInt i.toInt).count = 2 ^ 63 * oneCount := by
    unfold units at rounds
    split at rounds <;> omega
  have high : 2 ^ 62 ≤ i.toInt.natAbs := by
    by_contra small
    have nonzero : i.toInt.natAbs ≠ 0 := by omega
    have log : i.toInt.natAbs.log2 < 62 := (Nat.log2_lt nonzero).2 (Nat.lt_of_not_le small)
    have upper := (ofInt_between (Nat.log2_self_le nonzero) Nat.lt_log2_self (by omega)).2.1
    have power : 2 ^ (i.toInt.natAbs.log2 + 1) ≤ 2 ^ 62 := Nat.pow_le_pow_right (by decide) log
    have := upper.trans (Nat.mul_le_mul_right oneCount power)
    omega
  have less (smaller : y.count < 2 ^ 63 * oneCount) : y.count < i.toInt.natAbs * oneCount :=
    count_lt_of_rounds (show 63 = 62 + 1 from rfl) high (by omega) (by decide) count smaller
  have scaled : i.toInt * (oneCount : Int) = (i.toInt.natAbs * oneCount : Nat) := by
    rw [Int.natCast_mul, Int.natAbs_of_nonneg positive.le]
  by_cases negative : y.isNegative = true
  · have := Int.mul_pos positive (Int.natCast_pos.2 one)
    rw [units, if_pos negative]
    omega
  · rw [units, if_neg negative] at below ⊢
    rw [scaled]
    have := less (by omega)
    omega

end Double

open Double in
theorem compareIntDouble_eq_standing (i : Int64) (x : Double) :
    compareIntDouble i x = compare (standing i) x.units := by
  have one := oneCount_pos
  have least := i.le_toInt
  have greatest := i.toInt_lt
  have below : i.toInt * (oneCount : Int) < 2 ^ 63 * oneCount :=
    Int.mul_lt_mul_of_pos_right greatest (Int.natCast_pos.2 one)
  by_cases limit : x.units = 2 ^ 63 * (oneCount : Int)
  · have rounded : compareIntDouble i x = compare (ofInt i.toInt).units x.units := by
      rw [compareIntDouble, eq_limit limit, integer?_limit]
      exact totalCompare_eq (.inr (by rw [← eq_limit limit]; omega))
    rw [rounded, standing, limit]
    split
    · next rounds => rw [rounds]
    · next apart =>
      by_cases exact : i.toInt.natAbs ≤ exactLimit
      · rw [(ofInt_exact exact).1]
      · have large : 2 ^ 53 ≤ i.toInt.natAbs := (Nat.lt_of_not_le exact).le
        have bounds := units_ofInt_bounds large (by omega)
        apply compare_eq_of_lt_iff <;> omega
  · rw [compareIntDouble_eq limit, standing]
    split
    · next rounds =>
      have := @units_lt_of_rounds x i rounds
      apply compare_eq_of_lt_iff <;> omega
    · rfl

end FederatedQuery
