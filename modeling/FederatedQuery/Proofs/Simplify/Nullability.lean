import FederatedQuery.Proofs.Simplify.Logic
import Mathlib.Data.List.Induction

/-!
Simplifying keeps what is never null so. No rule needs the assumed predicates to be true for that: a rule either
decides on a truth value, or keeps operands that were there.
-/
open FederatedQuery.Expr

namespace FederatedQuery

namespace Expr

/-- What is never null stays so. -/
def Tightens (e e' : Expr) : Prop := e.nullable = false → e'.nullable = false

variable {es : List Expr} {op : Op} {ty : SqlType} {e : Expr}

theorem allNullable_eq_false : allNullable es = false ↔ ∃ e ∈ es, e.nullable = false := by
  induction es with
  | nil => simp [allNullable]
  | cons _ _ ih => rw [allNullable, Bool.and_eq_false_iff, ih, List.exists_mem_cons_iff]

theorem resultsNullable_tightens {es' : List Expr} (each : List.Forall₂ Tightens es es')
    (never : resultsNullable es = false) : resultsNullable es' = false := by
  -- Two at a time: a condition, which does not count, and its result.
  induction es using List.twoStepInduction generalizing es' with
  | nil => cases never
  | singleton =>
    obtain ⟨_, _, here, rest, rfl⟩ := List.forall₂_cons_left_iff.1 each
    cases List.forall₂_nil_left_iff.1 rest
    exact here never
  | cons_cons condition result others ih _ =>
    obtain ⟨_, _, _, later, rfl⟩ := List.forall₂_cons_left_iff.1 each
    obtain ⟨_, _, here, rest, rfl⟩ := List.forall₂_cons_left_iff.1 later
    rw [resultsNullable, Bool.or_eq_false_iff] at never ⊢
    exact ⟨here never.1, ih rest never.2⟩

theorem tightens_call {es' : List Expr} (each : List.Forall₂ Tightens es es') :
    Tightens (call op es ty) (call op es' ty) := by
  have any : anyNullable es = false → anyNullable es' = false := by
    intro never
    rw [anyNullable_eq_false] at never ⊢
    intro e' mem
    obtain ⟨e, inside, tightens⟩ := exists_of_forall₂_right each mem
    exact tightens (never e inside)
  have all : allNullable es = false → allNullable es' = false := by
    intro never
    rw [allNullable_eq_false] at never ⊢
    obtain ⟨e, inside, never⟩ := never
    obtain ⟨index, located⟩ := List.mem_iff_getElem?.1 inside
    obtain ⟨e', located', tightens⟩ := exists_getElem?_of_forall₂ each located
    exact ⟨e', List.mem_of_getElem? located', tightens never⟩
  have results := resultsNullable_tightens each
  cases op <;> first | exact any | exact all | exact results | exact id

theorem nullable_of_isNull (null : e.isNull = true) : e.nullable = true := by
  cases e with
  | lit => rwa [nullable]
  | _ => cases null

theorem nullable_call (truth : op.isComparison = true ∨ op = .and ∨ op = .or ∨ op = .not) :
    (call op es ty).nullable = anyNullable es := by
  cases op <;> first | rfl | simp [Op.isComparison] at truth

theorem nullable_connective (stop : Bool) : (call (connective stop) es ty).nullable = anyNullable es :=
  nullable_call (by cases stop <;> simp [connective])

theorem nullable_simplifyConnective (stop : Bool) (mode : Mode) (never : ∀ e ∈ es, e.nullable = false) :
    (simplifyConnective stop mode es).nullable = false := by
  refine simplifyConnective_induction (P := fun e => e.nullable = false) (fun _ => rfl) (fun never => ?_)
    (fun left _ _ => ?_) never
  · rw [nullable_connective] at never
    exact anyNullable_eq_false.1 never
  · rw [nullable_connective]
    exact anyNullable_eq_false.2 left

theorem nullable_negated (never : e.nullable = false) : e.negated.nullable = false := by
  exact anyNullable_eq_false.2 (List.forall_mem_singleton.2 never)

theorem tightens_negation? {negated : Op} (found : op.negation? = some negated) :
    Tightens (call op es ty) (call negated es ty) := by
  cases op <;> cases found <;> exact id

theorem nullable_simplifyNot (mode : Mode) (never : e.nullable = false) : (e.simplifyNot mode).nullable = false := by
  induction e using simplifyNot_induction generalizing mode with
  | kept e same => exact same mode ▸ nullable_negated never
  | decided t same =>
    cases t with
    | none => cases never
    | some => rfl
  | undone x ty same => exact same mode ▸ anyNullable_eq_false.1 never x (.head _)
  | opposed op negated es ty found same => exact same mode ▸ tightens_negation? found never
  | joined stop es ty same ih =>
    rw [nullable_connective, anyNullable_eq_false] at never
    rw [same]
    exact nullable_simplifyConnective stop mode (List.forall_mem_map.2 fun e mem => ih e mem .value (never e mem))

theorem nullable_simplifyComparison (comparison : op.isComparison = true) (never : anyNullable es = false) :
    (simplifyComparison op es ty).nullable = false := by
  rcases simplifyComparison_cases comparison es ty with
    ⟨b, decided⟩ | same | ⟨reversed, a, b, found, rfl, _, turned, _⟩
  · rw [decided]
    rfl
  · rwa [same, nullable_call (.inl comparison)]
  · rw [turned, nullable_call (.inl (Op.isComparison_of_reversal? found).2)]
    rw [anyNullable_eq_false] at never ⊢
    simpa [and_comm] using never

/-- Of a case that is never null, the branches that can be taken are never null, and one is there. -/
theorem resultsNullable_liveBranches (never : resultsNullable es = false) :
    resultsNullable ((liveBranches es).1 ++ (liveBranches es).2.toList) = false := by
  induction es using liveBranches.induct with
  | case1 => cases never
  | case2 => exact never
  | case3 condition result rest taken =>
    rw [liveBranches, if_pos taken]
    rw [resultsNullable, Bool.or_eq_false_iff] at never
    exact never.1
  | case4 condition result rest passed refused ih =>
    rw [liveBranches, if_neg passed, if_pos refused]
    rw [resultsNullable, Bool.or_eq_false_iff] at never
    exact ih never.2
  | case5 condition result rest passed kept branches otherwise found ih =>
    rw [liveBranches, if_neg passed, if_neg kept]
    rw [resultsNullable, Bool.or_eq_false_iff] at never
    change resultsNullable (condition :: result :: ((liveBranches rest).1 ++ (liveBranches rest).2.toList)) = false
    rw [resultsNullable, Bool.or_eq_false_iff]
    exact ⟨never.1, ih never.2⟩

theorem nullable_simplifyCase (never : resultsNullable es = false) : (simplifyCase es ty).nullable = false := by
  have live := resultsNullable_liveBranches never
  unfold simplifyCase
  split
  next otherwise found =>
    rw [found] at live
    cases otherwise with
    | none => cases live
    | some => exact live
  next branches otherwise _ found =>
    rw [found] at live
    exact live

theorem isNull_of_same {a b : Value} (same : a.same b = true) : a.isNull = b.isNull := by
  cases a <;> cases b <;> first | rfl | cases same

theorem tightens_of_same {a b : Expr} (same : a.same b = true) : Tightens a b :=
  same_induction (fun _ _ _ never => never) (fun _ _ same never => (isNull_of_same same).symm.trans never)
    (fun _ _ never => never) (fun _ _ _ _ each => tightens_call each) same

/-- What is never null is among the terms of a coalesce, or one that is the same. -/
theorem exists_coalesceTerms {kept : List Expr} (never : ∃ e ∈ kept ++ es, e.nullable = false) :
    ∃ e ∈ coalesceTerms kept es, e.nullable = false := by
  induction es generalizing kept with
  | nil => rwa [coalesceTerms, ← List.append_nil kept]
  | cons e rest ih =>
    rw [coalesceTerms]
    split
    next skipped =>
      apply ih
      obtain ⟨x, mem, never⟩ := never
      rcases List.mem_append.1 mem with before | later
      · exact ⟨x, List.mem_append_left _ before, never⟩
      rcases List.mem_cons.1 later with rfl | later
      · rcases Bool.or_eq_true_iff.1 skipped with null | again
        · rw [nullable_of_isNull null] at never
          cases never
        · obtain ⟨k, before, same⟩ := List.any_eq_true.1 again
          exact ⟨k, List.mem_append_left _ before, tightens_of_same same never⟩
      · exact ⟨x, List.mem_append_right _ later, never⟩
    next fresh =>
      split
      next nullable => exact ih (by simpa using never)
      next solid => exact ⟨e, by simp, Bool.not_eq_true _ ▸ solid⟩

theorem nullable_simplifyCoalesce (never : allNullable es = false) : (simplifyCoalesce es ty).nullable = false := by
  have among : ∃ e ∈ [] ++ es, e.nullable = false := allNullable_eq_false.1 never
  obtain ⟨x, mem, solid⟩ := exists_coalesceTerms among
  unfold simplifyCoalesce
  split
  next found =>
    rw [found] at mem
    cases mem
  next e found =>
    rw [found, List.mem_singleton] at mem
    exact mem ▸ solid
  next => exact allNullable_eq_false.2 ⟨x, mem, solid⟩

theorem nullable_foldConstant (never : (call op es ty).nullable = false) (folded : foldConstant? op es ty = some e) :
    e.nullable = false := by
  obtain ⟨_, literals, _, v, value, rfl⟩ := foldConstant_eq_some folded
  have reads : (call op es ty).Everywhere (ReadsPresent []) := by
    refine everywhere_call.2 ⟨trivial, fun e mem => ?_⟩
    cases e with
    | lit => exact everywhere_lit.2 trivial
    | _ => cases literals _ mem
  have present := eval_ne_null never reads value
  rw [typedLiteral, if_neg (by simp [present])]
  exact present

end Expr

namespace Simplifier

variable {s : Simplifier}

theorem tightens_decideByPredicates (e : Expr) : Tightens e (s.decideByPredicates e) := by
  intro never
  rcases s.decideByPredicates_cases e with same | ⟨b, decided⟩
  · rwa [same]
  · rw [decided]
    rfl

theorem tightens_reduceCall (mode : Mode) (op : Op) (es : List Expr) (ty : SqlType) :
    Tightens (call op es ty) (s.reduceCall mode op es ty) := by
  intro never
  have rule := s.reduced mode op es ty
  generalize s.reduceCall mode op es ty = e at rule
  cases rule with
  | folded found => exact nullable_foldConstant never found
  | joined stop =>
    exact nullable_simplifyConnective stop mode (anyNullable_eq_false.1 (nullable_connective stop ▸ never))
  | negation => exact nullable_simplifyNot mode (anyNullable_eq_false.1 never _ (.head _))
  | nullTest => rfl
  | truthTest known => exact known
  | falsityTest known => exact nullable_simplifyNot mode known
  | comparison comparison => exact nullable_simplifyComparison comparison (nullable_call (.inl comparison) ▸ never)
  | choice => exact nullable_simplifyCase never
  | alternative => exact nullable_simplifyCoalesce never
  | unchanged => exact never

theorem tightens_reduce (mode : Mode) (e : Expr) : Tightens e (s.reduce mode e) := by
  induction e using Expr.induction generalizing mode with
  | call op es ty ih =>
    intro never
    have itself : List.Forall₂ Eq es es := List.forall₂_same.2 fun _ _ => rfl
    have operands : List.Forall₂ Tightens es (s.reduceOperands mode op es) := by
      refine forall₂_through itself (s.forall₂_reduceOperands mode op es) ?_
      rintro e mem _ _ rfl ⟨mode, rfl⟩
      exact ih e mem mode
    exact tightens_decideByPredicates _ (tightens_reduceCall mode op _ ty (tightens_call operands never))
  | _ => exact tightens_decideByPredicates _

theorem tightens_simplify (e : Expr) : Tightens e (s.simplify e) :=
  fun never => iterate_keeps (I := fun e => e.nullable = false) (tightens_reduce .value) s.passes never

end Simplifier

end FederatedQuery
