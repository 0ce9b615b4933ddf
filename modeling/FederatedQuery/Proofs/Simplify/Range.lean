import FederatedQuery.Proofs.Simplify.Predicates
import FederatedQuery.Proofs.Value.Place

/-!
Comparisons of a field with a number that are decided from the range that the predicates hold the field to. Ranges
know numbers by their counts, and evaluation tells the zeros apart. So a decision is right for every field and every
literal, except for a float zero that is compared both with the zero of the other sign and with a zero that it equals.
-/
namespace FederatedQuery

namespace Double

theorem count_lt_infinity {x : Double} (finite : x.isFinite = true) : x.count < (infinity false).count := by
  refine count_lt_count ?_
  exact of_decide_eq_true finite

theorem standing_of_small {i : Int64} (small : i.toInt.natAbs ≤ exactLimit) : standing i = i.toInt * oneCount := by
  have one := oneCount_pos
  rw [standing, if_neg]
  rw [(ofInt_exact small).1]
  intro same
  have limit := Int.eq_of_mul_eq_mul_right (Int.natCast_pos.2 one).ne' same
  have greatest := i.toInt_lt
  omega

theorem standing_between (i : Int64) :
    -((infinity false).count : Int) < standing i ∧ standing i < (infinity false).count := by
  rw [standing]
  split
  · have less := lt_count_infinity (le_refl (2 ^ 63))
    omega
  · have between := Predicates.between_infinities i
    rwa [units_infinity, units_infinity, if_pos rfl, if_neg Bool.false_ne_true] at between

end Double

namespace Value

open Double

variable {x v : Value} {c : Double}

theorem bound?_number (bound : v.bound? = some c) :
    c.isNaN = false ∧ -((infinity false).count : Int) < c.units ∧ c.units < (infinity false).count := by
  obtain ⟨i, rfl, rfl, small⟩ | ⟨rfl, finite⟩ := Expr.bound?_cases bound
  · obtain ⟨units, number⟩ := ofInt_exact small
    have between := standing_between i
    rw [standing_of_small small, ← units] at between
    exact ⟨number, between⟩
  · have less := count_lt_infinity finite
    refine ⟨decide_eq_false (Nat.not_lt.2 (of_decide_eq_true finite).le), ?_⟩
    unfold units
    split <;> omega

theorem compare_int_bound {i : Int64} (bound : v.bound? = some c) :
    (int i).compare v = Ord.compare (standing i) c.units := by
  obtain ⟨j, rfl, rfl, small⟩ | ⟨rfl, -⟩ := Expr.bound?_cases bound
  · have units := (ofInt_exact small).1
    rw [compare, units, ← compare_scaled i.toInt _ oneCount_pos, standing]
    split
    · next rounds =>
      -- an integer that is rounded to the limit lies above every exact one
      have less : j.toInt * (oneCount : Int) < 2 ^ 63 * oneCount :=
        Int.mul_lt_mul_of_pos_right j.toInt_lt (Int.natCast_pos.2 oneCount_pos)
      have below := units_lt_of_rounds rounds (units.trans_lt less)
      rw [units] at below
      rw [Int.compare_eq_gt.2 below, Int.compare_eq_gt.2 less]
    · rfl
  · exact compareIntDouble_eq_standing i c

/-- A float and a constant that are not both zero are compared by their counts, and so are a float and an integer. -/
theorem compare_float_bound {y : Double} (bound : v.bound? = some c)
    (apart : y.units ≠ 0 ∨ c.units ≠ 0 ∨ v.floats = []) : (float y).compare v = Ord.compare y.units c.units := by
  obtain ⟨j, rfl, rfl, small⟩ | ⟨rfl, -⟩ := Expr.bound?_cases bound
  · rw [compare, compareIntDouble_eq_standing, standing_of_small small, (ofInt_exact small).1, Int.compare_swap]
  · refine totalCompare_eq ?_
    simpa [floats] using apart

theorem eq_zero_of_bound? (bound : v.bound? = some c) (zero : c.units = 0) :
    v = .int 0 ∨ ∃ negative, v = .float (.zero negative) := by
  obtain ⟨j, rfl, rfl, small⟩ | ⟨rfl, -⟩ := Expr.bound?_cases bound
  · rw [(ofInt_exact small).1, Int.mul_eq_zero] at zero
    have vanishes : j.toInt = 0 := zero.resolve_right (Int.natCast_pos.2 oneCount_pos).ne'
    exact .inl (congrArg int (Int64.toInt_inj.1 vanishes))
  · exact .inr ⟨_, congrArg float (eq_zero zero)⟩

theorem compare_equal_zero {negative : Bool} (zero : v = .int 0 ∨ v = .float (.zero negative)) :
    (float (.zero negative)).compare v = .eq := by
  rcases zero with rfl | rfl
  · cases negative <;> decide +kernel
  · exact compare_self _

/-- A float zero next to the zeros that it is compared with: all of them equal it, or none. -/
theorem exists_place_zero (admits : Value → Prop) (negative : Bool)
    (clear : ¬(admits (.float (.zero !negative)) ∧ (admits (.int 0) ∨ admits (.float (.zero negative))))) :
    ∃ u, -1 ≤ u ∧ u ≤ 1 ∧ ∀ v c, admits v → v.bound? = some c →
      (float (.zero negative)).compare v = Ord.compare u (2 * c.units) := by
  have vanishes : (Double.zero negative).units = 0 := by cases negative <;> decide
  by_cases other : admits (.float (.zero !negative))
  · refine ⟨if negative then -1 else 1, by split <;> omega, by split <;> omega, fun v c held bound => ?_⟩
    by_cases zero : c.units = 0
    · rw [zero]
      rcases eq_zero_of_bound? bound zero with rfl | ⟨sign, rfl⟩
      · exact absurd ⟨other, .inl held⟩ clear
      · by_cases same : sign = negative
        · exact absurd ⟨other, .inr (same ▸ held)⟩ clear
        · rw [Bool.eq_not_of_ne same]
          cases negative <;> rfl
    · rw [compare_float_bound bound (.inr (.inl zero))]
      apply compare_eq_of_lt_iff <;> split <;> omega
  · refine ⟨0, by decide, by decide, fun v c held bound => ?_⟩
    by_cases zero : c.units = 0
    · rw [zero]
      rcases eq_zero_of_bound? bound zero with rfl | ⟨sign, rfl⟩
      · rw [compare_float_bound bound (.inr (.inr rfl)), vanishes, zero, Int.mul_zero]
      · by_cases same : sign = negative
        · rw [same, compare_self]
          rfl
        · exact absurd (Bool.eq_not_of_ne same ▸ held) other
    · rw [compare_float_bound bound (.inr (.inl zero)), vanishes]
      apply compare_eq_of_lt_iff <;> omega

/-- A value has a place among the numbers, seen from the literals that are admitted: the same comparisons with all of
them. The exception is a float zero next to the zero of the other sign and to a zero that it equals. -/
theorem exists_place (admits : Value → Prop) (number : x.rank = 2)
    (clear : ¬∃ negative, x = .float (.zero negative) ∧ admits (.float (.zero !negative)) ∧
      (admits (.int 0) ∨ admits x)) :
    ∃ u, 2 * (infinity true).units < u ∧ u < 2 * (infinity false).units ∧
      ∀ v c, admits v → v.bound? = some c → x.compare v = Ord.compare u (2 * c.units) := by
  rw [units_infinity, units_infinity, if_pos rfl, if_neg Bool.false_ne_true]
  have positive : 0 < (infinity false).count := Nat.zero_lt_of_lt (lt_count_infinity (Nat.zero_le (2 ^ 63)))
  cases x with
  | int i =>
    have between := standing_between i
    refine ⟨2 * standing i, by omega, by omega, fun v c _ bound => ?_⟩
    rw [compare_int_bound bound, Interval.compare_twice]
  | float y =>
    by_cases zero : y.units = 0
    · obtain ⟨negative, rfl⟩ : ∃ negative, y = Double.zero negative := ⟨_, eq_zero zero⟩
      obtain ⟨u, low, high, place⟩ := exists_place_zero admits negative fun both => clear ⟨negative, rfl, both⟩
      exact ⟨u, by omega, by omega, place⟩
    · -- beyond the infinities every place is as good
      refine ⟨max (1 - 2 * (infinity false).count) (min (2 * (infinity false).count - 1) (2 * y.units)),
        by omega, by omega, fun v c _ bound => ?_⟩
      have between := (bound?_number bound).2
      rw [compare_float_bound bound (.inl zero)]
      apply compare_eq_of_lt_iff <;> omega
  | _ => cases number

theorem rank_of_bound? (bound : v.bound? = some c) : v.rank = 2 := by
  cases v with
  | int | float => rfl
  | _ => cases bound

theorem sqlCompare_numbers {y : Value} (left : x.rank = 2) (right : y.rank = 2) :
    x.sqlCompare y = .ok (some (x.compare y)) := by
  have present {z : Value} (number : z.rank = 2) : z.isNull = false := by
    cases z with
    | null => cases number
    | _ => rfl
  rw [sqlCompare, present left, present right, left, right]
  rfl

theorem rank_of_sqlCompare {y : Value} {o : Ordering} (right : y.rank = 2) (order : x.sqlCompare y = .ok (some o)) :
    x.rank = 2 := (of_sqlCompare order).1.trans right

end Value

namespace Expr

variable {row : Row} {params : Bindings} {index : Nat} {x v : Value} {c : Double} {op : Op} {ty result : SqlType}
  {nullable : Bool}

/-- An expression compares a field with a literal. -/
def Compares (e : Expr) (index : Nat) (v : Value) : Prop :=
  ∃ op ty nullable result, e = call op [ref index ty nullable, lit v] result ∧ op.isComparison = true

theorem eval_bound (comparison : op.isComparison = true) (read : field row index = .ok x) (number : x.rank = 2)
    (bound : v.bound? = some c) :
    (call op [ref index ty nullable, lit v] result).eval row params = .ok (.bool (op.holds (x.compare v))) :=
  (eval_pair comparison).2 ⟨x, v, _, read, rfl, Value.sqlCompare_numbers number (Value.rank_of_bound? bound), rfl⟩

theorem rank_of_eval_bound (comparison : op.isComparison = true) (read : field row index = .ok x)
    (bound : v.bound? = some c)
    (holds : (call op [ref index ty nullable, lit v] result).eval row params = .ok (.bool true)) : x.rank = 2 := by
  obtain ⟨x', y, o, first, second, order, truth⟩ := (eval_pair comparison).1 holds
  cases second
  rw [eval, read, Except.ok.injEq] at first
  subst first
  cases o with
  | none => cases truth
  | some => exact Value.rank_of_sqlCompare (Value.rank_of_bound? bound) order

theorem eval_canonical_of_bound {e : Expr} {found : Nat × Op × Double} (bound : e.canonical.fieldBound? = some found)
    (holds : e.eval row params = .ok (.bool true)) : e.canonical.eval row params = .ok (.bool true) := by
  cases e with
  | call op es ty =>
    rw [canonical] at bound ⊢
    split at bound
    · next comparison =>
      rw [if_pos comparison]
      rcases simplifyComparison_cases comparison es ty with
        ⟨b, decided⟩ | same | ⟨reversed, a, b, opposite, rfl, _, turned, _⟩
      · rw [decided] at bound
        cases bound
      · rwa [same]
      · rw [turned]
        exact eval_reversed opposite holds
    · next other => rwa [if_neg other]
  | _ => exact holds

end Expr

namespace Predicates

variable {row : Row} {params : Bindings} {index : Nat} {x : Value} {u : Int}

/-- The conjuncts that bound a field are true on a row. -/
def BoundsHold (p : Predicates) (row : Row) (params : Bindings) : Prop :=
  ∀ e ∈ p.conjuncts, ∀ found, e.fieldBound? = some found → e.eval row params = .ok (.bool true)

theorem boundsHold_ofList {P : List Expr} (each : ∀ p ∈ P, p.eval row params = .ok (.bool true)) :
    (ofList P).BoundsHold row params := by
  intro e mem found bound
  rcases mem_foldl_assume mem with before | ⟨p, inside, y, conjunct, rfl⟩
  · exact absurd before List.not_mem_nil
  · exact Expr.eval_canonical_of_bound bound (Expr.eval_conjuncts (each p inside) y conjunct)

variable {p : Predicates} {interval : Interval}

theorem BoundsHold.rank (holds : p.BoundsHold row params) (read : Expr.field row index = .ok x)
    (found : p.interval? index = some interval) : x.rank = 2 := by
  obtain ⟨⟨e, mem, bounded⟩, _⟩ := interval?_of_conjuncts found
  obtain ⟨i, first⟩ := Option.isSome_iff_exists.1 bounded
  obtain ⟨op, c, bound, _, _⟩ := conjunctInterval?_eq_some first
  have known := holds e mem _ bound
  obtain ⟨_, _, v, _, rfl, comparison, number⟩ := Expr.eq_of_fieldBound? bound
  exact Expr.rank_of_eval_bound comparison read number known

/-- The range of a field has the place of its value. -/
theorem BoundsHold.spans (holds : p.BoundsHold row params) (read : Expr.field row index = .ok x)
    (low : 2 * (Double.infinity true).units < u) (high : u < 2 * (Double.infinity false).units)
    (place : ∀ e ∈ p.conjuncts, ∀ v c, e.Compares index v → v.bound? = some c →
      x.compare v = Ord.compare u (2 * c.units))
    (found : p.interval? index = some interval) : interval.Spans u := by
  have number := holds.rank read found
  refine (interval?_of_conjuncts found).2 u fun e mem i found => ?_
  obtain ⟨op, c, bound, equality, rfl⟩ := conjunctInterval?_eq_some found
  have known := holds e mem _ bound
  obtain ⟨ty, nullable, v, result, rfl, comparison, constant⟩ := Expr.eq_of_fieldBound? bound
  rw [Expr.eval_bound comparison read number constant, Except.ok.injEq, Value.bool.injEq,
    place _ mem v c ⟨op, ty, nullable, result, rfl, comparison⟩ constant] at known
  exact (Interval.spans_ofComparison_iff comparison equality (Value.bound?_number constant).1 low high).2 known

end Predicates

namespace Simplifier

variable {s : Simplifier} {e : Expr} {b : Bool} {v : Value}

/-- An expression is decided by the range of a field, and not by a predicate that says the same or the opposite. -/
structure DecidesByRange (s : Simplifier) (e : Expr) (b : Bool) : Prop where
  absent : s.predicates.contains e = false
  opposite : s.predicates.contains e.negation = false
  decided : s.decideByPredicates e = .lit (.bool b)

theorem DecidesByRange.interval {index : Nat} (decides : s.DecidesByRange e b) (compares : e.Compares index v) :
    ∃ op c interval, e.fieldBound? = some (index, op, c) ∧
      s.predicates.interval? index = some interval ∧ interval.decides op c = some b := by
  obtain ⟨absent, opposite, decided⟩ := decides
  obtain ⟨op, ty, nullable, result, rfl, comparison⟩ := compares
  unfold decideByPredicates at decided
  split at decided
  · cases decided
  · rw [absent, opposite, if_neg Bool.false_ne_true, if_neg Bool.false_ne_true] at decided
    dsimp only at decided
    split at decided
    · next b' ranged =>
      cases decided
      obtain ⟨⟨index', op', c⟩, bound, later⟩ := Option.bind_eq_some_iff.1 ranged
      obtain ⟨interval, found, decides⟩ := Option.bind_eq_some_iff.1 later
      obtain ⟨_, _, _, _, same, _, _⟩ := Expr.eq_of_fieldBound? bound
      cases same
      exact ⟨op, c, interval, bound, found, decides⟩
    · cases decided

/-- Being less or greater than the zero of the other sign leaves a float zero out of the range. -/
theorem decides_zero (negative negative' : Bool) :
    (Interval.ofComparison (if negative then .lt else .gt) (Double.zero !negative)).decides .eq
      (Double.zero negative') = some false := by
  revert negative negative'
  decide +kernel

theorem bound?_zeros {negative : Bool} (zero : v = .int 0 ∨ v = .float (.zero negative)) :
    ∃ negative', v.bound? = some (.zero negative') := by
  rcases zero with rfl | rfl
  · exact ⟨false, by decide +kernel⟩
  · exact ⟨negative, by cases negative <;> decide +kernel⟩

/-- A float zero lies beside the zero of the other sign. -/
def besideZero (negative : Bool) : Expr :=
  .call (if negative then .lt else .gt) [.ref 0 .double true, .lit (.float (.zero !negative))] .boolean

theorem conjuncts_besideZero (negative : Bool) :
    (Predicates.ofList [besideZero negative]).conjuncts = [besideZero negative] := by
  cases negative <;> rfl

theorem eval_besideZero (negative : Bool) (params : Bindings) :
    (besideZero negative).eval [.float (.zero negative)] params = .ok (.bool true) := by
  obtain ⟨negative', bound⟩ : ∃ n, (Value.float (.zero !negative)).bound? = some (.zero n) := bound?_zeros (.inr rfl)
  have comparison : (if negative then Op.lt else .gt).isComparison = true := by cases negative <;> rfl
  cases negative <;> rfl

/-- A float zero below or above the zero of the other sign, and equal to another zero. The range has no zero, so it
decides against the second. -/
theorem decidesByRange_zero (negative : Bool) (zero : v = .int 0 ∨ v = .float (.zero negative)) :
    (ofPredicates (.ofList [besideZero negative])).DecidesByRange
      (.call .eq [.ref 0 .double true, .lit v] .boolean) false := by
  obtain ⟨negative', bound⟩ := bound?_zeros zero
  have other : (Value.float (.zero !negative)).bound? = some (.zero !negative) := by
    cases negative <;> decide +kernel
  have interval : (Predicates.ofList [besideZero negative]).interval? 0 =
      some (Interval.ofComparison (if negative then .lt else .gt) (.zero !negative)) := by
    rw [Predicates.interval?, conjuncts_besideZero]
    cases negative <;> simp_all [besideZero, Predicates.conjunctInterval?, Expr.fieldBound?, Op.isComparison]
  generalize same : Expr.call .eq [.ref 0 .double true, .lit v] .boolean = e
  have field : e.fieldBound? = some (0, .eq, .zero negative') := by
    simp [← same, Expr.fieldBound?, Op.isComparison, bound]
  have absent : (Predicates.ofList [besideZero negative]).contains e = false := by
    cases negative <;> cases same <;> rfl
  have opposite : (Predicates.ofList [besideZero negative]).contains e.negation = false := by
    cases negative <;> cases same <;> rfl
  refine ⟨absent, opposite, ?_⟩
  rw [decideByPredicates, if_neg (by simp [ofPredicates, conjuncts_besideZero, ← same, Expr.isLiteral, Expr.type])]
  simp only [ofPredicates, absent, opposite, field, interval, Bool.false_eq_true, if_false, Option.bind_eq_bind,
    Option.bind_some, decides_zero]

/-- The range of a field decides comparisons of a value with the literals that are admitted as they evaluate, on every
row with that value, if and only if the value is no float zero that may be compared both with the zero of the other
sign and with a zero that it equals. -/
theorem decidesByRange_iff (admits : Value → Prop) (x : Value) :
    (∀ (P : List Expr) (e : Expr) (row : Row) (params : Bindings) (index : Nat) (v : Value) (b : Bool),
      row[index]? = some x → (∀ p ∈ P, p.eval row params = .ok (.bool true)) → e.Compares index v → admits v →
      (∀ c ∈ (Predicates.ofList P).conjuncts, ∀ w, c.Compares index w → admits w) →
      (ofPredicates (.ofList P)).DecidesByRange e b → e.eval row params = .ok (.bool b)) ↔
    ¬∃ negative, x = .float (.zero negative) ∧ admits (.float (.zero !negative)) ∧ (admits (.int 0) ∨ admits x) := by
  constructor
  · rintro right ⟨negative, rfl, other, equal⟩
    obtain ⟨v, zero, held⟩ : ∃ v, (v = .int 0 ∨ v = .float (.zero negative)) ∧ admits v := by
      rcases equal with held | held
      · exact ⟨_, .inl rfl, held⟩
      · exact ⟨_, .inr rfl, held⟩
    have literals : ∀ c ∈ (Predicates.ofList [besideZero negative]).conjuncts, ∀ w, c.Compares 0 w → admits w := by
      intro c mem w compares
      rw [conjuncts_besideZero, List.mem_singleton] at mem
      obtain ⟨_, _, _, _, same, _⟩ := mem ▸ compares
      cases same
      exact other
    have wrong := right _ _ [.float (.zero negative)] (fun _ => none) 0 v false rfl
      (List.forall_mem_singleton.2 (eval_besideZero negative _)) ⟨_, _, _, _, rfl, rfl⟩ held literals
      (decidesByRange_zero negative zero)
    obtain ⟨negative', bound⟩ := bound?_zeros zero
    rw [Expr.eval_bound rfl rfl rfl bound, Value.compare_equal_zero zero] at wrong
    cases wrong
  · intro clear P e row params index v b located holds compares held literals decides
    have read : Expr.field row index = .ok x := Expr.field_eq_ok.2 located
    have bounds := Predicates.boundsHold_ofList holds
    obtain ⟨op, c, interval, bound, found, decided⟩ := decides.interval compares
    have number := bounds.rank read found
    obtain ⟨u, low, high, place⟩ := Value.exists_place admits number clear
    have spans := bounds.spans read low high (fun e mem v c compares => place v c (literals e mem v compares)) found
    obtain ⟨ty, nullable, v', result, rfl, comparison, constant⟩ := Expr.eq_of_fieldBound? bound
    obtain ⟨_, _, _, _, same, _⟩ := compares
    cases same
    rw [Expr.eval_bound comparison read number constant, place v c held constant,
      spans.holds_of_decides comparison (Value.bound?_number constant).1 low high decided]

end Simplifier

end FederatedQuery
