import FederatedQuery.Proofs.Simplify.Logic

/-!
Soundness of the rules for constants, comparisons, cases, coalescing and truth tests. Each keeps the
value of the call it replaces.
-/
namespace FederatedQuery

theorem Value.of_sqlCompare {x y : Value} {o : Ordering} (order : x.sqlCompare y = .ok (some o)) :
    x.rank = y.rank ∧ x.compare y = o := by
  unfold Value.sqlCompare at order
  split at order
  · cases order
  · split at order
    · cases order
    · next ranks => exact ⟨not_ne_iff.1 ranks, Option.some.inj (Except.ok.inj order)⟩

theorem Value.sqlCompare_swap {x y : Value} {o : Option Ordering} (order : x.sqlCompare y = .ok o) :
    y.sqlCompare x = .ok (o.map Ordering.swap) := by
  unfold Value.sqlCompare at order ⊢
  rw [Bool.or_comm]
  split at order
  · rename_i null
    rw [if_pos null]
    cases order
    rfl
  · rename_i present
    rw [if_neg present]
    split at order
    · cases order
    · rename_i ranks
      rw [if_neg (fun different => ranks (Ne.symm different))]
      cases order
      rw [Option.map_some, Value.compare_swap]

namespace Expr

variable {row : Row} {params : Bindings} {mode : Mode} {op : Op} {es : List Expr} {ty : SqlType} {e a : Expr}
  {v : Value}

theorem eval_typedLiteral (v : Value) (ty : SqlType) : (typedLiteral v ty).eval row params = .ok v := by
  unfold typedLiteral
  split
  · rename_i null
    cases v <;> first | rfl | cases null.1
  · rfl

theorem refines_foldConstant (found : foldConstant? op es ty = some e) : Refines row params mode (call op es ty) e := by
  refine Refines.of_value (refines_value.2 fun v value => ?_)
  obtain ⟨_, literals, _, w, closed, rfl⟩ := foldConstant_eq_some found
  have same : (call op es ty).eval [] (fun _ => none) = .ok v := by
    refine related_call stepwise_keeps (List.forall₂_same.2 fun e mem => ?_) op ty v value
    have literal := literals e mem
    cases e with
    | lit => exact fun _ value => value
    | _ => cases literal
  rw [eval_typedLiteral, ← closed, same]

theorem eval_pair {b : Expr} (comparison : op.isComparison = true) :
    (call op [a, b] ty).eval row params = .ok v ↔ ∃ x y o, a.eval row params = .ok x ∧
      b.eval row params = .ok y ∧ x.sqlCompare y = .ok o ∧ Truth.toValue (o.map op.holds) = v := by
  have eager : op.isEager = true := by
    cases op with
    | eq | ne | lt | le | gt | ge => rfl
    | _ => cases comparison
  rw [eval_eager eager, bind_eq_ok]
  constructor
  · rintro ⟨args, all, applied⟩
    rw [evalAll_eq_ok] at all
    cases all with
    | cons first rest =>
      cases rest with
      | cons second rest =>
        cases rest
        rw [Op.applyValues_pair comparison, map_eq_ok] at applied
        obtain ⟨o, order, same⟩ := applied
        exact ⟨_, _, o, first, second, order, same⟩
  · rintro ⟨x, y, o, first, second, order, same⟩
    refine ⟨[x, y], evalAll_eq_ok.2 (.cons first (.cons second .nil)), ?_⟩
    rw [Op.applyValues_pair comparison, order, ← same]
    rfl

theorem eval_reversed {reversed : Op} {b : Expr} (found : op.reversal? = some reversed)
    (value : (call op [a, b] ty).eval row params = .ok v) : (call reversed [b, a] ty).eval row params = .ok v := by
  obtain ⟨comparison, comparison'⟩ := Op.isComparison_of_reversal? found
  obtain ⟨x, y, o, first, second, order, same⟩ := (eval_pair comparison).1 value
  refine (eval_pair comparison').2 ⟨y, x, _, second, first, Value.sqlCompare_swap order, ?_⟩
  rw [← same]
  cases o with
  | none => rfl
  | some => simp [Op.holds_reversal found]

theorem eval_self (comparison : op.isComparison = true) (value : (call op [a, a] ty).eval row params = .ok v)
    (present : v.isNull = false) : v = .bool (op = .eq || op = .le || op = .ge) := by
  obtain ⟨x, y, o, first, second, order, same⟩ := (eval_pair comparison).1 value
  rw [first, Except.ok.injEq] at second
  subst second
  unfold Value.sqlCompare at order
  split at order
  · cases order
    rw [← same] at present
    cases present
  · rw [if_neg (by simp), Value.compare_self] at order
    cases order
    rw [← same]
    cases op with
    | eq | ne | lt | le | gt | ge => rfl
    | _ => cases comparison

/-- A comparison keeps its value, if it is not null or its references are as declared. -/
theorem eval_simplifyComparison {negative : Bool} (comparison : op.isComparison = true)
    (signed : ∀ e ∈ es, e.Everywhere (ZeroSigned negative))
    (present : v.isNull = false ∨ ∀ e ∈ es, e.Everywhere (ReadsPresent row))
    (value : (call op es ty).eval row params = .ok v) : (simplifyComparison op es ty).eval row params = .ok v := by
  have compared (op : Op) (comparison : op.isComparison = true) (left right : Expr)
      (first : left.Everywhere (ZeroSigned negative)) (second : right.Everywhere (ZeroSigned negative))
      (reads : v.isNull = false ∨ left.Everywhere (ReadsPresent row))
      (value : (call op [left, right] ty).eval row params = .ok v) :
      (if left.same right && !left.nullable && !left.isConstant then
        lit (.bool (op = .eq || op = .le || op = .ge)) else call op [left, right] ty).eval row params =
        .ok v := by
    split
    · rename_i equal
      simp only [Bool.and_eq_true, Bool.not_eq_true'] at equal
      obtain ⟨⟨equal, never⟩, _⟩ := equal
      obtain rfl := eq_of_same equal first second
      have known : v.isNull = false := by
        rcases reads with known | reads
        · exact known
        · obtain ⟨x, y, o, left, right, order, same⟩ := (eval_pair comparison).1 value
          rw [← same]
          have left' := eval_ne_null never reads left
          have right' := eval_ne_null never reads right
          unfold Value.sqlCompare at order
          rw [left', right', if_neg (by simp)] at order
          split at order
          · cases order
          · cases order
            rfl
      rw [eval_self comparison value known, eval]
    · exact value
  rcases es with _ | ⟨a, _ | ⟨b, _ | ⟨c, rest⟩⟩⟩
  · exact value
  · exact value
  · have first := signed a (by simp)
    have second := signed b (by simp)
    unfold simplifyComparison
    dsimp only
    split
    · rename_i reversed found
      split
      · exact compared reversed (Op.isComparison_of_reversal? found).2 b a second first
          (present.imp_right fun reads => reads b (by simp)) (eval_reversed found value)
      · exact compared op comparison a b first second (present.imp_right fun reads => reads a (by simp)) value
    · exact compared op comparison a b first second (present.imp_right fun reads => reads a (by simp)) value
  · exact value

theorem evalCase_liveBranches : ∀ {es : List Expr}, evalCase row params es = .ok v →
    evalCase row params ((liveBranches es).1 ++ (liveBranches es).2.toList) = .ok v
  | [], outcome => outcome
  | [_], outcome => outcome
  | c :: r :: rest, outcome => by
    rw [evalCase_branch] at outcome
    obtain ⟨t, known, outcome⟩ := bind_eq_ok.1 outcome
    rw [liveBranches]
    split
    · rename_i literal
      rw [truthAt_of_isBool (b := true) literal] at known
      cases known
      exact outcome
    · split
      · rename_i dead
        have skipped : t ≠ some true := by
          rcases Bool.or_eq_true_iff.1 dead with literal | null
          · rw [truthAt_of_isBool (b := false) literal] at known
            cases known
            decide
          · rw [truthAt_of_isNull null] at known
            cases known
            decide
        rw [if_neg skipped] at outcome
        exact evalCase_liveBranches outcome
      · simp only [List.cons_append]
        rw [evalCase_branch, known, ok_bind]
        split at outcome
        · rename_i taken
          rw [if_pos taken, outcome]
        · rename_i skipped
          rw [if_neg skipped, evalCase_liveBranches outcome]

theorem refines_simplifyCase : Refines row params mode (call .case es ty) (simplifyCase es ty) := by
  refine Refines.of_value (refines_value.2 fun v value => ?_)
  have live := evalCase_liveBranches (by simpa only [eval] using value)
  unfold simplifyCase
  split
  · rename_i otherwise found
    rw [found] at live
    cases otherwise with
    | none =>
      cases live
      exact eval_typedLiteral .null ty
    | some => exact live
  · rename_i branches otherwise _ found
    rw [found] at live
    rw [eval, live]

theorem evalCoalesce_append (front back : List Expr) :
    evalCoalesce row params (front ++ back) = (do
      let v ← evalCoalesce row params front
      if v.isNull then evalCoalesce row params back else return v) := by
  induction front with
  | nil => rfl
  | cons e rest ih =>
    rw [List.cons_append, evalCoalesce, evalCoalesce]
    cases e.eval row params with
    | error => rfl
    | ok =>
      simp only [ok_bind]
      split
      · exact ih
      · rename_i present
        exact (if_neg present).symm

theorem eval_null_of_coalesce (outcome : evalCoalesce row params es = .ok v) (null : v.isNull = true) (mem : e ∈ es) :
    ∃ w, e.eval row params = .ok w ∧ w.isNull = true := by
  induction es with
  | nil => cases mem
  | cons _ _ ih =>
    obtain ⟨w, value, outcome⟩ := bind_eq_ok.1 outcome
    split at outcome
    · rename_i isNull
      rcases List.mem_cons.1 mem with rfl | mem
      · exact ⟨w, value, isNull⟩
      · exact ih outcome mem
    · rename_i present
      cases outcome
      exact absurd null present

/-- An operand that is null whenever the ones before it are can be left out. -/
theorem evalCoalesce_skip {front back : List Expr}
    (skipped : ∀ w u, evalCoalesce row params front = .ok w → w.isNull = true → e.eval row params = .ok u →
      u.isNull = true)
    (outcome : evalCoalesce row params (front ++ e :: back) = .ok v) :
    evalCoalesce row params (front ++ back) = .ok v := by
  rw [evalCoalesce_append] at outcome ⊢
  obtain ⟨w, before, outcome⟩ := bind_eq_ok.1 outcome
  rw [before, ok_bind]
  split at outcome
  · rename_i null
    rw [if_pos null]
    obtain ⟨u, value, outcome⟩ := bind_eq_ok.1 outcome
    rwa [if_pos (skipped w u before null value)] at outcome
  · rename_i present
    rwa [if_neg present]

theorem evalCoalesce_terms {kept : List Expr} (first : ∀ e ∈ kept, e.Everywhere (Admissible row))
    (all : ∀ e ∈ es, e.Everywhere (Admissible row)) (outcome : evalCoalesce row params (kept ++ es) = .ok v) :
    evalCoalesce row params (coalesceTerms kept es) = .ok v := by
  induction es generalizing kept with
  | nil => rwa [coalesceTerms, ← List.append_nil kept]
  | cons e rest ih =>
    have here := all e (by simp)
    have later : ∀ x ∈ rest, x.Everywhere (Admissible row) := fun x mem => all x (by simp [mem])
    rw [coalesceTerms]
    split
    · rename_i dropped
      refine ih first later (evalCoalesce_skip (fun w u before null value => ?_) outcome)
      rcases Bool.or_eq_true_iff.1 dropped with literal | found
      · rw [truthAt_eq_ok.1 (truthAt_of_isNull literal)] at value
        cases value
        rfl
      · have mem := mem_of_isIn found here.zeroSigned fun x inside => (first x inside).zeroSigned
        obtain ⟨u', value', null'⟩ := eval_null_of_coalesce before null mem
        rw [value', Except.ok.injEq] at value
        rwa [← value]
    · split
      · refine ih ?_ later (by simpa using outcome)
        simpa [or_imp, forall_and] using ⟨first, here⟩
      · rename_i never
        rw [evalCoalesce_append] at outcome ⊢
        obtain ⟨w, before, outcome⟩ := bind_eq_ok.1 outcome
        rw [before, ok_bind]
        split at outcome
        · rename_i null
          rw [if_pos null]
          rw [evalCoalesce] at outcome ⊢
          obtain ⟨u, value, outcome⟩ := bind_eq_ok.1 outcome
          have present := eval_ne_null_of_admissible here (by simpa using never) value
          rw [value]
          simpa [present] using outcome
        · rename_i present
          rwa [if_neg present]

theorem refines_simplifyCoalesce (all : ∀ e ∈ es, e.Everywhere (Admissible row)) :
    Refines row params mode (call .coalesce es ty) (simplifyCoalesce es ty) := by
  refine Refines.of_value (refines_value.2 fun v value => ?_)
  have terms : evalCoalesce row params (coalesceTerms [] es) = .ok v :=
    evalCoalesce_terms nofun all (by simpa only [eval, List.nil_append] using value)
  unfold simplifyCoalesce
  split
  · rename_i found
    rw [found] at terms
    cases terms
    exact eval_typedLiteral .null ty
  · rename_i e found
    rw [found] at terms
    obtain ⟨w, value, outcome⟩ := bind_eq_ok.1 terms
    rw [value]
    split at outcome
    · rename_i null
      cases outcome
      cases w <;> first | rfl | cases null
    · exact outcome
  · rw [eval, terms]

theorem eval_unary (eager : op.isEager = true) :
    (call op [e] ty).eval row params = .ok v ↔
      ∃ w, e.eval row params = .ok w ∧ op.applyValues [w] ty = .ok v := by
  rw [eval_eager eager, bind_eq_ok]
  constructor
  · rintro ⟨args, all, applied⟩
    rw [evalAll_eq_ok] at all
    cases all with
    | cons first rest =>
      cases rest
      exact ⟨_, first, applied⟩
  · rintro ⟨w, value, applied⟩
    exact ⟨[w], evalAll_eq_ok.2 (.cons value .nil), applied⟩

theorem refines_nullTest (test : op = .isNull ∨ op = .isNotNull)
    (present : ∀ v, e.eval row params = .ok v → v.isNull = false) :
    Refines row params mode (call op [e] ty) (lit (.bool (op = .isNotNull))) := by
  refine Refines.of_value (refines_value.2 fun v value => ?_)
  rcases test with rfl | rfl
  · obtain ⟨w, value, applied⟩ := (eval_unary rfl).1 value
    rw [Op.applyValues, present w value] at applied
    rw [← applied]
    rfl
  · obtain ⟨w, value, applied⟩ := (eval_unary rfl).1 value
    rw [Op.applyValues, present w value] at applied
    rw [← applied, eval]
    rfl

theorem refines_truthTest (all : e.Everywhere (Admissible row)) (never : e.nullable = false) :
    Refines row params mode (call .isTrue [e] ty) e := by
  refine Refines.of_value (refines_value.2 fun v value => ?_)
  obtain ⟨w, value, applied⟩ := (eval_unary rfl).1 value
  have present := eval_ne_null_of_admissible all never value
  rw [value, ← applied]
  cases w with
  | null => cases present
  | bool b => cases b <;> rfl
  | _ => cases applied

theorem refines_falsityTest (all : e.Everywhere (Admissible row)) (never : e.nullable = false) :
    Refines row params mode (call .isFalse [e] ty) (e.simplifyNot mode) := by
  refine Refines.trans (b := call .not [e] ty) (Refines.of_value (refines_value.2 fun v value => ?_))
    (refines_simplifyNot all)
  obtain ⟨w, value, applied⟩ := (eval_unary rfl).1 value
  have present := eval_ne_null_of_admissible all never value
  refine (eval_unary rfl).2 ⟨w, value, ?_⟩
  rw [← applied]
  cases w with
  | null => cases present
  | bool b => cases b <;> rfl
  | _ => cases applied

end Expr

end FederatedQuery
