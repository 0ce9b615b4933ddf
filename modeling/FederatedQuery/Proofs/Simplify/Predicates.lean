import FederatedQuery.Proofs.Simplify.Interval
import FederatedQuery.Proofs.Simplify.Rules

/-!
Predicates that hold on a row. What they say of a field, and of an expression made of their terms, is
so on that row.
-/
namespace FederatedQuery

namespace Expr

variable {row : Row} {params : Bindings} {e : Expr} {c : Double} {index : Nat} {op : Op} {v : Value}

theorem mem_conjunctsOf {x : Expr} {es : List Expr} : x ∈ conjunctsOf es ↔ ∃ e ∈ es, x ∈ e.conjuncts := by
  induction es with
  | nil => simp [conjunctsOf]
  | cons _ _ ih => simp [conjunctsOf, ih]

theorem forall_conjuncts {P : Expr → Prop} (operand : ∀ operands ty, P (call .and operands ty) → ∀ e ∈ operands, P e)
    (here : P e) : ∀ x ∈ e.conjuncts, P x := by
  induction e using induction with
  | call op operands ty ih =>
    intro x mem
    rw [conjuncts] at mem
    split at mem
    · rename_i conjunctive
      subst conjunctive
      obtain ⟨e, inside, mem⟩ := mem_conjunctsOf.1 mem
      exact ih e inside (operand operands ty here e inside) x mem
    · rwa [List.mem_singleton.1 mem]
  | lit =>
    intro x mem
    rw [conjuncts] at mem
    split at mem
    · cases mem
    · rwa [List.mem_singleton.1 mem]
  | _ =>
    intro x mem
    rw [conjuncts, List.mem_singleton] at mem
    · rwa [mem]
    · simp
    · simp

theorem everywhere_conjuncts {P : Expr → Prop} (here : e.Everywhere P) : ∀ x ∈ e.conjuncts, x.Everywhere P :=
  forall_conjuncts (fun _ _ here => here.operands) here

theorem eval_conjuncts (holds : e.eval row params = .ok (.bool true)) :
    ∀ x ∈ e.conjuncts, x.eval row params = .ok (.bool true) := by
  refine forall_conjuncts (fun operands ty holds e inside => ?_) holds
  have outcome : evalUntil row params false operands = .ok (some true) :=
    (truthAt_connective operands ty).symm.trans (truthAt_eq_ok.2 holds)
  obtain ⟨u, known, passes, unknown⟩ := truthAt_of_passed outcome (by decide) inside
  have holds : u = some true := by
    rcases u with _ | _ | _
    · cases unknown rfl
    · exact absurd rfl passes
    · rfl
  exact truthAt_eq_ok.1 (holds ▸ known)

theorem eq_of_fieldBound? (found : e.fieldBound? = some (index, op, c)) :
    ∃ ty nullable v result,
      e = call op [ref index ty nullable, lit v] result ∧ op.isComparison = true ∧ v.bound? = some c := by
  unfold fieldBound? at found
  split at found
  · split at found
    · rename_i comparison
      obtain ⟨c', bound, same⟩ := Option.map_eq_some_iff.1 found
      cases same
      exact ⟨_, _, _, _, rfl, comparison, bound⟩
    · cases found
  · cases found

theorem bound?_cases (bound : v.bound? = some c) :
    (∃ i : Int64, v = .int i ∧ c = .ofInt i.toInt ∧ i.toInt.natAbs ≤ exactLimit) ∨
      v = .float c ∧ c.isFinite = true := by
  unfold Value.bound? at bound
  split at bound
  · obtain ⟨small, same⟩ := Option.ite_none_right_eq_some.1 bound
    exact .inl ⟨_, rfl, (Option.some.inj same).symm, small⟩
  · obtain ⟨finite, same⟩ := Option.ite_none_right_eq_some.1 bound
    cases same
    exact .inr ⟨rfl, finite⟩
  · cases bound

theorem bound?_exact (free : v.floats = []) (bound : v.bound? = some c) :
    ∃ i : Int64, v = .int i ∧ c.units = i.toInt * Double.oneCount ∧ c.isNaN = false := by
  obtain ⟨i, rfl, rfl, small⟩ | ⟨rfl, -⟩ := bound?_cases bound
  · exact ⟨i, rfl, Double.ofInt_exact small⟩
  · cases free

/-- A field compared with an exact integer is null, or an integer compared by its count. -/
theorem eval_fieldBound (found : e.fieldBound? = some (index, op, c))
    (free : e.Everywhere FloatFree) (fields : ∀ w ∈ row, w.floats = []) (value : e.eval row params = .ok v) :
    ∃ x, field row index = .ok x ∧ (x.isNull = true ∧ v = .null ∨
      ∃ a : Int64, x = .int a ∧ v = .bool (op.holds (compare (a.toInt * Double.oneCount) c.units))) := by
  obtain ⟨ty, nullable, w, result, rfl, comparison, bound⟩ := eq_of_fieldBound? found
  obtain ⟨i, rfl, units, _⟩ := bound?_exact (free.operands (lit w) (by simp)).here bound
  obtain ⟨x, y, o, read, literal, order, same⟩ := (eval_pair comparison).1 value
  cases literal
  refine ⟨x, read, ?_⟩
  unfold Value.sqlCompare at order
  split at order
  · rename_i null
    cases order
    exact .inl ⟨by simpa [Value.isNull] using null, same.symm⟩
  · split at order
    · cases order
    · rename_i ranks
      cases order
      refine .inr ?_
      have inRow : x ∈ row := List.mem_of_getElem? (field_eq_ok.1 read)
      cases x with
      | int a =>
        refine ⟨a, rfl, ?_⟩
        rw [← same, units, Double.compare_scaled _ _ Double.oneCount_pos]
        rfl
      | float => cases fields _ inRow
      | _ => simp [Value.rank] at ranks

theorem eval_canonical {negative : Bool} (signed : e.Everywhere (ZeroSigned negative))
    (holds : e.eval row params = .ok (.bool true)) : e.canonical.eval row params = .ok (.bool true) := by
  cases e with
  | call op operands ty =>
    rw [canonical]
    split
    · rename_i comparison
      exact eval_simplifyComparison comparison signed.operands (.inl rfl) holds
    · exact holds
  | _ => exact holds

end Expr

namespace Predicates

variable {p : Predicates} {e c : Expr} {es : List Expr} {index : Nat} {w : Value}

theorem mem_insert (mem : c ∈ (p.insert e).conjuncts) : c ∈ p.conjuncts ∨ c = e.canonical := by
  rw [insert] at mem
  split at mem
  · exact .inl mem
  · simpa using mem

theorem mem_foldl_insert (mem : c ∈ (es.foldl insert p).conjuncts) : c ∈ p.conjuncts ∨ ∃ e ∈ es, c = e.canonical := by
  induction es generalizing p with
  | nil => exact .inl mem
  | cons e rest ih =>
    rcases ih mem with before | ⟨x, inside, same⟩
    · rcases mem_insert before with before | same
      · exact .inl before
      · exact .inr ⟨e, by simp, same⟩
    · exact .inr ⟨x, by simp [inside], same⟩

/-- Every conjunct is an old one, or the canonical form of a conjunct that was assumed. -/
theorem mem_foldl_assume (mem : c ∈ (es.foldl assume p).conjuncts) :
    c ∈ p.conjuncts ∨ ∃ e ∈ es, ∃ x ∈ e.conjuncts, c = x.canonical := by
  induction es generalizing p with
  | nil => exact .inl mem
  | cons e rest ih =>
    rcases ih mem with before | ⟨x, inside, later⟩
    · rcases mem_foldl_insert before with before | found
      · exact .inl before
      · exact .inr ⟨e, by simp, found⟩
    · exact .inr ⟨x, by simp [inside], later⟩

/-- The conjuncts are all true on a row. -/
def Holds (row : Row) (params : Bindings) (p : Predicates) : Prop :=
  ∀ c ∈ p.conjuncts, c.eval row params = .ok (.bool true)

/-- A property of every expression inside the conjuncts. -/
def Everywhere (P : Expr → Prop) (p : Predicates) : Prop := ∀ c ∈ p.conjuncts, c.Everywhere P

variable {row : Row} {params : Bindings} {P : Expr → Prop} {negative : Bool} {op : Op} {ty : SqlType}

theorem holds_foldl_assume (holds : p.Holds row params) (signed : ∀ e ∈ es, e.Everywhere (Expr.ZeroSigned negative))
    (each : ∀ e ∈ es, e.eval row params = .ok (.bool true)) :
    (es.foldl assume p).Holds row params := by
  intro c mem
  rcases mem_foldl_assume mem with before | ⟨e, inside, x, conjunct, rfl⟩
  · exact holds c before
  · exact Expr.eval_canonical (Expr.everywhere_conjuncts (signed e inside) x conjunct)
      (Expr.eval_conjuncts (each e inside) x conjunct)

theorem everywhere_foldl_assume (durable : Expr.Durable P) (before : p.Everywhere P)
    (each : ∀ e ∈ es, e.Everywhere P) : (es.foldl assume p).Everywhere P := by
  intro c mem
  rcases mem_foldl_assume mem with old | ⟨e, inside, x, conjunct, rfl⟩
  · exact before c old
  · exact durable.canonical (Expr.everywhere_conjuncts (each e inside) x conjunct)

theorem holds_ofList (signed : ∀ e ∈ es, e.Everywhere (Expr.ZeroSigned negative))
    (each : ∀ e ∈ es, e.eval row params = .ok (.bool true)) : (ofList es).Holds row params :=
  holds_foldl_assume nofun signed each

theorem exists_of_isRef (found : isRef index e = true) : ∃ ty nullable, e = .ref index ty nullable := by
  cases e with
  | ref i ty nullable =>
    rw [isRef, beq_iff_eq] at found
    exact ⟨ty, nullable, by rw [found]⟩
  | _ => cases found

theorem eval_strict_null {v : Value} (strict : op.isStrict = true) (mem : e ∈ es)
    (null : e.eval row params = .ok w) (isNull : w.isNull = true)
    (value : (Expr.call op es ty).eval row params = .ok v) :
    v = .null := by
  have eager : op.isEager = true := by
    cases op with
    | and | or | case | coalesce => cases strict
    | _ => rfl
  rw [Expr.eval_eager eager] at value
  obtain ⟨args, all, applied⟩ := bind_eq_ok.1 value
  obtain ⟨u, inside, found⟩ := Expr.exists_value_of_mem all mem
  rw [null, Except.ok.injEq] at found
  rw [Op.applyValues_strict _ _ strict, if_pos (List.any_eq_true.2 ⟨u, inside, found ▸ isNull⟩)] at applied
  cases applied
  rfl

theorem eval_test_null {rest : List Expr}
    (test : op = .isNotNull ∨ op = .isTrue ∨ op = .isFalse) (null : e.eval row params = .ok w)
    (isNull : w.isNull = true) : (Expr.call op (e :: rest) ty).eval row params ≠ .ok (.bool true) := by
  intro holds
  have eager : op.isEager = true := by rcases test with rfl | rfl | rfl <;> rfl
  rw [Expr.eval_eager eager] at holds
  obtain ⟨args, all, applied⟩ := bind_eq_ok.1 holds
  rw [Expr.evalAll_eq_ok] at all
  cases all with
  | cons first others =>
    rw [null, Except.ok.injEq] at first
    subst first
    cases w with
    | null =>
      cases others with
      | nil | cons => rcases test with rfl | rfl | rfl <;> cases applied
    | _ => cases isNull

theorem present_of_conjunct (found : conjunctNotNull index e = true) (holds : e.eval row params = .ok (.bool true))
    (read : Expr.field row index = .ok w) : w.isNull = false := by
  by_contra null
  rw [Bool.not_eq_false] at null
  have reads {x : Expr} (isIndex : isRef index x = true) : x.eval row params = .ok w := by
    obtain ⟨ty, nullable, rfl⟩ := exists_of_isRef isIndex
    rw [Expr.eval, read]
  have whole (isIndex : isRef index e = true) : False := by
    rw [reads isIndex, Except.ok.injEq] at holds
    rw [holds] at null
    cases null
  cases e with
  | call op operands ty =>
    have first (isIndex : (operands.head?.map (isRef index)).getD false = true) :
        ∃ x rest, operands = x :: rest ∧ x.eval row params = .ok w := by
      cases operands with
      | nil => cases isIndex
      | cons x rest => exact ⟨x, rest, rfl, reads isIndex⟩
    have compared (any : (op.isComparison && operands.any (isRef index)) = true) : False := by
      rw [Bool.and_eq_true, List.any_eq_true] at any
      obtain ⟨comparison, x, mem, isIndex⟩ := any
      cases eval_strict_null (Op.isStrict_of_isComparison comparison) mem (reads isIndex) null holds
    cases op with
    | isNotNull | isTrue | isFalse =>
      obtain ⟨x, rest, rfl, value⟩ := first found
      exact eval_test_null (by simp) value null holds
    | not =>
      obtain ⟨x, rest, rfl, value⟩ := first found
      cases eval_strict_null rfl (by simp) value null holds
    | _ => exact compared found
  | _ => exact whole found

theorem Holds.present (holds : p.Holds row params) (proved : p.provesNotNull index = true)
    (read : Expr.field row index = .ok w) : w.isNull = false := by
  obtain ⟨c, mem, found⟩ := List.any_eq_true.1 proved
  exact present_of_conjunct found (holds c mem) read

theorem between_infinities (a : Int64) :
    (Double.infinity true).units < a.toInt * Double.oneCount ∧
      a.toInt * Double.oneCount < (Double.infinity false).units := by
  have small : a.toInt.natAbs ≤ 2 ^ 63 := by
    have low := a.le_toInt
    have high := a.toInt_lt
    omega
  have less := Double.lt_count_infinity small
  have scaled : (a.toInt * (Double.oneCount : Int)).natAbs = a.toInt.natAbs * Double.oneCount := by
    rw [Int.natAbs_mul, Int.natAbs_natCast]
  rw [← scaled] at less
  rw [Double.units_infinity, Double.units_infinity, if_pos rfl, if_neg (by decide)]
  generalize a.toInt * (Double.oneCount : Int) = u at less
  omega

theorem conjunctInterval?_eq_some {interval : Interval} (found : conjunctInterval? index e = some interval) :
    ∃ op c, e.fieldBound? = some (index, op, c) ∧
      op ≠ .ne ∧ interval = Interval.ofComparison op c := by
  unfold conjunctInterval? at found
  split at found
  · rename_i i op c bound
    split at found
    · rename_i same
      cases found
      exact ⟨op, c, same.1 ▸ bound, same.2, rfl⟩
    · cases found
  · cases found

/-- The interval of a field comes from some conjunct, and has what the intervals of all conjuncts have. -/
theorem interval?_of_conjuncts {interval : Interval} (found : p.interval? index = some interval) :
    (∃ e ∈ p.conjuncts, (conjunctInterval? index e).isSome = true) ∧ ∀ u : Int,
      (∀ e ∈ p.conjuncts, ∀ i, conjunctInterval? index e = some i → i.Spans u) → interval.Spans u := by
  unfold interval? at found
  split at found
  · cases found
  · rename_i first rest same
    cases found
    have inside (i : Interval) (mem : i ∈ first :: rest) :
        ∃ e ∈ p.conjuncts, conjunctInterval? index e = some i := by
      rw [← same] at mem
      exact List.mem_filterMap.1 mem
    refine ⟨?_, fun u each => ?_⟩
    · obtain ⟨e, mem, found⟩ := inside first (.head _)
      exact ⟨e, mem, by rw [found]; rfl⟩
    · have all : ∀ i ∈ first :: rest, i.Spans u := fun i mem =>
        have ⟨e, mem, found⟩ := inside i mem
        each e mem i found
      clear same inside each
      induction rest generalizing first with
      | nil => exact all first (.head _)
      | cons next rest ih =>
        rw [List.forall_mem_cons, List.forall_mem_cons] at all
        exact ih (first.intersect next) (List.forall_mem_cons.2 ⟨all.1.intersect all.2.1, all.2.2⟩)

theorem spans_of_conjunctInterval? {interval : Interval} (found : conjunctInterval? index e = some interval)
    (free : e.Everywhere Expr.FloatFree) (fields : ∀ w ∈ row, w.floats = [])
    (holds : e.eval row params = .ok (.bool true)) :
    ∃ a : Int64, Expr.field row index = .ok (.int a) ∧ interval.Spans (2 * (a.toInt * Double.oneCount)) := by
  obtain ⟨op, c, bound, equality, rfl⟩ := conjunctInterval?_eq_some found
  obtain ⟨x, read, ⟨_, unknown⟩ | ⟨a, rfl, outcome⟩⟩ := Expr.eval_fieldBound bound free fields holds
  · cases unknown
  · refine ⟨a, read, ?_⟩
    obtain ⟨_, _, v, _, rfl, comparison, exactly⟩ := Expr.eq_of_fieldBound? bound
    obtain ⟨_, _, _, number⟩ := Expr.bound?_exact (free.operands (.lit v) (by simp)).here exactly
    obtain ⟨low, high⟩ := between_infinities a
    refine (Interval.spans_ofComparison_iff comparison equality number (by omega) (by omega)).2 ?_
    rw [Interval.compare_twice]
    exact (Value.bool.inj outcome).symm

theorem Holds.interval {interval : Interval} (holds : p.Holds row params)
    (free : p.Everywhere Expr.FloatFree) (fields : ∀ w ∈ row, w.floats = [])
    (found : p.interval? index = some interval) :
    ∃ a : Int64, Expr.field row index = .ok (.int a) ∧ interval.Spans (2 * (a.toInt * Double.oneCount)) := by
  obtain ⟨⟨e, mem, bounded⟩, all⟩ := interval?_of_conjuncts found
  obtain ⟨i, first⟩ := Option.isSome_iff_exists.1 bounded
  obtain ⟨a, read, _⟩ := spans_of_conjunctInterval? first (free e mem) fields (holds e mem)
  refine ⟨a, read, all _ fun e mem i found => ?_⟩
  obtain ⟨b, read', inside⟩ := spans_of_conjunctInterval? found (free e mem) fields (holds e mem)
  rw [read, Except.ok.injEq, Value.int.injEq] at read'
  rwa [read']

end Predicates

namespace Simplifier

variable {row : Row} {params : Bindings} {mode : Mode} {s : Simplifier}

theorem refines_decideByPredicates {e : Expr} (all : e.Everywhere (Expr.Admissible row))
    (holds : s.predicates.Holds row params) (free : s.predicates.Everywhere Expr.FloatFree)
    (fields : ∀ w ∈ row, w.floats = []) :
    Expr.Refines row params mode e (s.decideByPredicates e) := by
  have signed : s.predicates.Everywhere (Expr.ZeroSigned false) :=
    fun c mem => (free c mem).mono fun _ here => here.zeroSigned false
  refine Expr.Refines.of_value (Expr.refines_value.2 fun v value => ?_)
  unfold decideByPredicates
  split
  · exact value
  · split
    · rename_i found
      have mem := Expr.mem_of_isIn found all.zeroSigned signed
      rw [holds e mem] at value
      exact value
    · split
      · rename_i found
        have negation := ((Expr.stable_admissible row).negation all).zeroSigned
        have opposite := holds _ (Expr.mem_of_isIn found negation signed)
        have known := Expr.truthAt_negation.1 (Expr.truthAt_eq_ok (t := some true)|>.2 opposite)
        rw [Expr.truthAt_eq_ok, value] at known
        exact known.symm
      · dsimp only
        split
        · rename_i b decided
          obtain ⟨⟨index, op, c⟩, bound, later⟩ := Option.bind_eq_some_iff.1 decided
          obtain ⟨interval, found, decides⟩ := Option.bind_eq_some_iff.1 later
          obtain ⟨a, read, inside⟩ := holds.interval free fields found
          obtain ⟨x, read', outcome⟩ := Expr.eval_fieldBound bound (all.mono fun _ here => here.free) fields value
          rw [read, Except.ok.injEq] at read'
          subst read'
          rcases outcome with ⟨null, _⟩ | ⟨a', same, rfl⟩
          · cases null
          · cases same
            obtain ⟨_, _, w, _, rfl, comparison, exactly⟩ := Expr.eq_of_fieldBound? bound
            obtain ⟨_, _, _, number⟩ := Expr.bound?_exact (all.operands (.lit w) (by simp)).here.free exactly
            obtain ⟨low, high⟩ := Predicates.between_infinities a
            rw [← Interval.compare_twice, inside.holds_of_decides comparison number (by omega) (by omega) decides,
              Expr.eval]
        · exact value

end Simplifier

end FederatedQuery
