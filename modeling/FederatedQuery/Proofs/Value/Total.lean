import FederatedQuery.Proofs.Double.Order
import FederatedQuery.Proofs.Value.Order

/-!
How far the order of values is total. It is reflexive, and exchanging its arguments reverses it. It is also
transitive on values whose floats are not both zeros and not two to the power of sixty-three, and on no larger
set: both zeros equal the integer zero and not each other, and two to the power of sixty-three equals several
integers.
-/
namespace FederatedQuery

/-- What the comparisons of `a` with `b`, `b` with `c` and `a` with `c` say when one order is behind them. -/
def Coherent (ab bc ac : Ordering) : Prop := (ab = .eq → ac = bc) ∧ (bc = .eq → ac = ab) ∧ (ab = bc → ac = ab)

namespace Coherent

theorem andThen {ab bc ac ab' bc' ac' : Ordering} (first : Coherent ab bc ac) (second : Coherent ab' bc' ac') :
    Coherent (ab.then ab') (bc.then bc') (ac.then ac') := by
  cases ab <;> cases bc <;> cases ac <;> cases bc' <;> simp_all [Coherent]

theorem compare {α : Type} [Ord α] [Std.TransOrd α] [Std.LawfulEqOrd α] (a b c : α) :
    Coherent (Ord.compare a b) (Ord.compare b c) (Ord.compare a c) := by
  refine ⟨?_, ?_, ?_⟩
  · intro same
    rw [Std.LawfulEqOrd.eq_of_compare same]
  · intro same
    rw [Std.LawfulEqOrd.eq_of_compare same]
  · intro same
    cases left : Ord.compare a b with
    | lt => exact Std.TransCmp.lt_trans left (same ▸ left)
    | eq => exact Std.TransCmp.eq_trans left (same ▸ left)
    | gt => exact Std.TransCmp.gt_trans left (same ▸ left)

theorem compareNats : ∀ a b c : List Nat, Coherent (compareNats a b) (compareNats b c) (compareNats a c) := by
  intro a
  induction a with
  | nil =>
    intro b c
    cases b <;> cases c <;> simp [Coherent, FederatedQuery.compareNats]
  | cons x rest ih =>
    intro b c
    cases b with
    | nil => cases c <;> simp [Coherent, FederatedQuery.compareNats]
    | cons y rest' =>
      cases c with
      | nil => simp +contextual [Coherent, FederatedQuery.compareNats]
      | cons z rest'' => exact (compare x y z).andThen (ih rest' rest'')

/-- Values that are not greater come before each other along the order. -/
theorem not_gt {ab bc ac : Ordering} (coherent : Coherent ab bc ac) (first : ab ≠ .gt) (second : bc ≠ .gt) :
    ac ≠ .gt ∧ (ac = .eq → ab = .eq ∧ bc = .eq) := by
  cases ab <;> cases bc <;> simp_all [Coherent]

end Coherent

namespace Double

/-- Floats that can be ordered together with integers: not both zeros, and not two to the power of sixty-three. -/
structure Orderly (admitted : Double → Prop) : Prop where
  zeros : ¬(admitted (zero false) ∧ admitted (zero true))
  limit : ¬admitted (ofInt (2 ^ 63))

theorem eq_zero {x : Double} (vanishes : x.units = 0) : x = zero x.isNegative := by
  have signs : (zero x.isNegative).isNegative = x.isNegative := isNegative_ofMagnitude _ 0 (by decide)
  refine eq_of_magnitude_eq signs.symm (magnitude_eq_of_count_eq ?_)
  have counts : x.count = 0 := by
    unfold units at vanishes
    split at vanishes <;> omega
  rw [counts, count, exponent, fraction, zero, magnitude_ofMagnitude _ 0 (by decide)]
  rfl

theorem eq_of_units_eq {x y : Double} (nonzero : x.units ≠ 0) (same : x.units = y.units) : x = y := by
  have signs : x.isNegative = y.isNegative := by
    rw [isNegative_eq_decide nonzero, isNegative_eq_decide (same ▸ nonzero), same]
  refine eq_of_magnitude_eq signs (magnitude_eq_of_count_eq ?_)
  unfold units at same
  split at same <;> omega

end Double

namespace Value

variable {admitted : Double → Prop} {a b : Value}

/-- Every float in a value is admitted. -/
def Admits (admitted : Double → Prop) (v : Value) : Prop := ∀ x ∈ v.floats, admitted x

/-- The number that an integer or a float stands for, counted in smallest positive floats. -/
def units? : Value → Option Int
  | int i => some (i.toInt * Double.oneCount)
  | float x => some x.units
  | _ => none

theorem exists_units? (number : a.rank = 2) : ∃ m, a.units? = some m := by
  cases a with
  | int | float => exact ⟨_, rfl⟩
  | _ => cases number

theorem compare_of_rank_ne (apart : a.rank ≠ b.rank) : a.compare b = Ord.compare a.rank b.rank := by
  cases a <;> cases b <;> first | rfl | exact absurd rfl apart

theorem coherent_of_rank_ne {c : Value} (apart : ¬(a.rank = b.rank ∧ b.rank = c.rank)) :
    Coherent (a.compare b) (b.compare c) (a.compare c) := by
  by_cases first : a.rank = b.rank
  · have second : b.rank ≠ c.rank := fun same => apart ⟨first, same⟩
    have outer : a.rank ≠ c.rank := fun same => second (first.symm.trans same)
    rw [compare_of_rank_ne second, compare_of_rank_ne outer, first]
    exact ⟨fun _ => rfl, fun same => absurd (Nat.compare_eq_eq.1 same) second, Eq.symm⟩
  by_cases second : b.rank = c.rank
  · have outer : a.rank ≠ c.rank := fun same => first (same.trans second.symm)
    rw [compare_of_rank_ne first, compare_of_rank_ne outer, second]
    exact ⟨fun same => absurd (Nat.compare_eq_eq.1 same) outer, fun _ => rfl, fun _ => rfl⟩
  rw [compare_of_rank_ne first, compare_of_rank_ne second]
  by_cases outer : a.rank = c.rank
  · -- Going to another class and back, the two steps are never alike.
    rw [← outer, ← Nat.compare_swap a.rank b.rank]
    cases order : Ord.compare a.rank b.rank with
    | eq => exact absurd (Nat.compare_eq_eq.1 order) first
    | lt | gt => simp [Coherent]
  · rw [compare_of_rank_ne outer]
    exact Coherent.compare a.rank b.rank c.rank

@[elab_as_elim]
theorem induction {motive : Value → Prop} (scalar : ∀ v : Value, v.rank ≠ 7 → motive v)
    (array : ∀ items, (∀ v ∈ items, motive v) → motive (.array items)) (v : Value) : motive v :=
  @Value.rec motive (fun items => ∀ v ∈ items, motive v) (scalar _ (by decide)) (fun _ => scalar _ (by simp [rank]))
    (fun _ => scalar _ (by simp [rank])) (fun _ => scalar _ (by simp [rank])) (fun _ => scalar _ (by simp [rank]))
    (fun _ => scalar _ (by simp [rank])) (fun _ => scalar _ (by simp [rank])) (fun _ => scalar _ (by simp [rank]))
    array nofun
    (fun _ _ first rest => List.forall_mem_cons.2 ⟨first, rest⟩) v

theorem coherent_items {as : List Value} (each : ∀ a ∈ as, ∀ b c : Value, b.Admits admitted → c.Admits admitted →
    Coherent (a.compare b) (b.compare c) (a.compare c)) : ∀ bs cs : List Value, (∀ v ∈ bs, v.Admits admitted) →
      (∀ v ∈ cs, v.Admits admitted) → Coherent (compareRows as bs) (compareRows bs cs) (compareRows as cs) := by
  induction as with
  | nil =>
    intro bs cs _ _
    cases bs <;> cases cs <;> simp [Coherent, compareRows]
  | cons _ _ ih =>
    intro bs cs hb hc
    cases bs with
    | nil => cases cs <;> simp [Coherent, compareRows]
    | cons b bs =>
      cases cs with
      | nil => simp +contextual [Coherent, compareRows]
      | cons c cs =>
        rw [List.forall_mem_cons] at each hb hc
        exact (each.1 b c hb.1 hc.1).andThen (ih each.2 bs cs hb.2 hc.2)

theorem admits_array {items : List Value} : (array items).Admits admitted ↔ ∀ v ∈ items, v.Admits admitted := by
  unfold Admits
  rw [floats]
  simp only [mem_itemFloats]
  exact ⟨fun held v mem x inside => held x ⟨v, mem, inside⟩, fun held x ⟨v, mem, inside⟩ => held v mem x inside⟩

/-- No run of values that are each at most the next comes back below its start, and it comes back to its start only
through equal values. -/
def TransitiveOn {α : Type} (cmp : α → α → Ordering) (members : α → Prop) : Prop :=
  ∀ a b c, members a → members b → members c → cmp a b ≠ .gt → cmp b c ≠ .gt →
    cmp a c ≠ .gt ∧ (cmp a c = .eq → cmp a b = .eq ∧ cmp b c = .eq)

section

variable (orderly : Double.Orderly admitted)

include orderly

/-- Integers and floats are ordered by the numbers they stand for. -/
theorem compare_eq_of_units? {m n : Int} (left : a.units? = some m)
    (right : b.units? = some n) (held : a.Admits admitted) (held' : b.Admits admitted) :
    a.compare b = Ord.compare m n := by
  have apart {x : Double} (inside : admitted x) : x.units ≠ 2 ^ 63 * (Double.oneCount : Int) := by
    intro limit
    have nonzero : x.units ≠ 0 := by
      have one := Double.oneCount_pos
      omega
    exact orderly.limit (Double.eq_of_units_eq nonzero (limit.trans Double.units_ofInt_limit.symm) ▸ inside)
  cases a with
  | int =>
    cases left
    cases b with
    | int =>
      cases right
      exact (Double.compare_scaled _ _ Double.oneCount_pos).symm
    | float y =>
      cases right
      exact compareIntDouble_eq (apart (held' y (by simp [floats])))
    | _ => cases right
  | float x =>
    cases left
    have inside : admitted x := held x (by simp [floats])
    cases b with
    | int =>
      cases right
      rw [compare, compareIntDouble_eq (apart inside), Int.compare_swap]
    | float y =>
      cases right
      have inside' : admitted y := held' y (by simp [floats])
      rw [compare]
      by_cases vanish : x.units = 0 ∧ y.units = 0
      · have same : x = y := by
          rw [Double.eq_zero vanish.1] at inside ⊢
          rw [Double.eq_zero vanish.2] at inside' ⊢
          cases left : x.isNegative <;> cases right : y.isNegative
          · rfl
          · exact absurd ⟨left ▸ inside, right ▸ inside'⟩ orderly.zeros
          · exact absurd ⟨right ▸ inside', left ▸ inside⟩ orderly.zeros
          · rfl
        rw [same, Double.totalCompare, Int.compare_eq_eq.2 rfl, Int.compare_eq_eq.2 rfl]
      · exact Double.totalCompare_eq (by omega)
    | _ => cases right
  | _ => cases left

/-- Values of one class other than arrays are ordered by a key. -/
theorem coherent_scalars {c : Value} (first : a.rank = b.rank)
    (second : b.rank = c.rank) (scalar : a.rank ≠ 7) (ha : a.Admits admitted) (hb : b.Admits admitted)
    (hc : c.Admits admitted) : Coherent (a.compare b) (b.compare c) (a.compare c) := by
  by_cases number : a.rank = 2
  · obtain ⟨m, left⟩ := exists_units? number
    obtain ⟨n, middle⟩ := exists_units? (first ▸ number)
    obtain ⟨k, right⟩ := exists_units? (second ▸ first ▸ number)
    rw [compare_eq_of_units? orderly left middle ha hb, compare_eq_of_units? orderly middle right hb hc,
      compare_eq_of_units? orderly left right ha hc]
    exact Coherent.compare m n k
  cases a with
  | int | float => exact absurd rfl number
  | array => exact absurd rfl scalar
  | null =>
    cases b <;> simp [rank] at first
    cases c <;> simp [rank] at second
    simp [Coherent, compare]
  | bool | date | timestamp =>
    cases b <;> simp [rank] at first
    cases c <;> simp [rank] at second
    exact Coherent.compare _ _ _
  | string | bytes =>
    cases b <;> simp [rank] at first
    cases c <;> simp [rank] at second
    exact Coherent.compareNats _ _ _

theorem coherent_compare (a : Value) (ha : a.Admits admitted) :
    ∀ b c : Value, b.Admits admitted → c.Admits admitted →
      Coherent (a.compare b) (b.compare c) (a.compare c) := by
  induction a using Value.induction with
  | scalar a scalar =>
    intro b c hb hc
    by_cases together : a.rank = b.rank ∧ b.rank = c.rank
    · exact coherent_scalars orderly together.1 together.2 scalar ha hb hc
    · exact coherent_of_rank_ne together
  | array as ih =>
    intro b c hb hc
    by_cases together : (array as).rank = b.rank ∧ b.rank = c.rank
    · cases b <;> simp [rank] at together
      cases c <;> simp at together
      rw [admits_array] at ha hb hc
      exact coherent_items (fun a mem => ih a mem (ha a mem)) _ _ hb hc
    · exact coherent_of_rank_ne together

theorem transitiveOn_compare : TransitiveOn compare (Admits admitted) :=
  fun a b c ha hb hc first second => (coherent_compare orderly a ha b c hb hc).not_gt first second

theorem transitiveOn_compareRows : TransitiveOn compareRows fun row => ∀ v ∈ row, v.Admits admitted :=
  fun _ b c ha hb hc first second =>
    (coherent_items (fun a mem => coherent_compare orderly a (ha a mem)) b c hb hc).not_gt first second

end

/-- Both zeros, and the limit of the integers, break the order wherever they are admitted. -/
theorem orderly_of_transitiveOn (transitive : TransitiveOn compare (Admits admitted)) : Double.Orderly admitted := by
  have alone {x : Double} (inside : admitted x) : (float x).Admits admitted := by
    intro y mem
    rw [floats, List.mem_singleton] at mem
    exact mem ▸ inside
  have whole (i : Int64) : (int i).Admits admitted := by
    intro y mem
    cases mem
  constructor
  · intro both
    have broken := (transitive (float (.zero false)) (int 0) (float (.zero true)) (alone both.1) (whole 0)
      (alone both.2) (by decide +kernel) (by decide +kernel)).1
    exact absurd broken (by decide +kernel)
  · intro limit
    have broken := (transitive (int Int64.maxValue) (float (.ofInt (2 ^ 63))) (int (Int64.maxValue - 1)) (whole _)
      (alone limit) (whole _) (by decide +kernel) (by decide +kernel)).1
    exact absurd broken (by decide +kernel)

/-- The order of values, and that of rows, is reflexive and reversed by exchanging its arguments. It is transitive
exactly on the values whose floats are orderly. -/
theorem compare_transitive_iff (admitted : Double → Prop) :
    ((∀ a : Value, a.compare a = .eq) ∧ (∀ a b : Value, a.compare b = (b.compare a).swap) ∧
      (∀ r : List Value, compareRows r r = .eq) ∧
      ∀ r s : List Value, compareRows r s = (compareRows s r).swap) ∧
    (TransitiveOn compare (Admits admitted) ∧ TransitiveOn compareRows (fun row => ∀ v ∈ row, v.Admits admitted) ↔
      Double.Orderly admitted) :=
  ⟨⟨compare_self, fun a b => (compare_swap b a).symm, compareRows_self, fun r s => (compareRows_swap s r).symm⟩,
    fun transitive => orderly_of_transitiveOn transitive.1,
    fun orderly => ⟨transitiveOn_compare orderly, transitiveOn_compareRows orderly⟩⟩

end Value

end FederatedQuery
