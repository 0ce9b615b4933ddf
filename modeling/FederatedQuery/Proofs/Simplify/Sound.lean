import FederatedQuery.Proofs.Simplify.Predicates

/-!
Soundness of the simplifier: on a row on which the assumed predicates are true, a simplified value is
the same value and a simplified condition accepts the same rows.
-/
open FederatedQuery.Expr

namespace FederatedQuery.Simplifier

variable {row : Row} {params : Bindings} {mode : Mode} {s : Simplifier} {e : Expr} {es : List Expr} {op : Op}
  {ty : SqlType} {b : Bool}

/-- What the simplifier may assume of a row. -/
structure Applies (s : Simplifier) (row : Row) (params : Bindings) : Prop where
  holds : s.predicates.Holds row params
  free : ∀ c ∈ s.predicates.conjuncts, c.Everywhere FloatFree
  fields : ∀ w ∈ row, w.floats = []

theorem refines_reduceCall (applies : s.Applies row params) (all : (call op es ty).Everywhere (Admissible row)) :
    Refines row params mode (call op es ty) (s.reduceCall mode op es ty) := by
  have rule := s.reduced mode op es ty
  generalize s.reduceCall mode op es ty = e at rule
  cases rule with
  | folded found => exact refines_foldConstant found
  | joined stop => exact refines_simplifyConnective stop all.operands
  | negation => exact refines_simplifyNot (all.operands _ (by simp))
  | nullTest test known =>
    refine refines_nullTest test fun v value => ?_
    rcases known with never | ⟨index, ty, nullable, rfl, proved⟩
    · exact eval_ne_null_of_admissible (all.operands _ (by simp)) never value
    · exact applies.holds.present proved value
  | truthTest known => exact refines_truthTest (all.operands _ (by simp)) known
  | falsityTest known => exact refines_falsityTest (all.operands _ (by simp)) known
  | comparison comparison =>
    refine Refines.of_value (refines_value.2 fun v value => ?_)
    exact eval_simplifyComparison comparison (fun e mem => (all.operands e mem).zeroSigned)
      (.inr fun e mem => (all.operands e mem).mono fun _ here => here.present) value
  | choice => exact refines_simplifyCase
  | alternative => exact refines_simplifyCoalesce all.operands
  | unchanged => exact Refines.refl _

theorem refinesBranches_reduceBranches : ∀ {es : List Expr},
    (∀ e ∈ es, ∀ mode, Refines row params mode e (s.reduce mode e)) →
      RefinesBranches row params es (s.reduceBranches es)
  | [], _ => .nil
  | [e], each => .otherwise (each e (by simp) .value)
  | c :: r :: _, each => .branch (each c (by simp) .condition) (each r (by simp) .value)
      (refinesBranches_reduceBranches fun e mem => each e (by simp [mem]))

theorem refines_reduceOperands (each : ∀ e ∈ es, ∀ mode, Refines row params mode e (s.reduce mode e)) :
    Refines row params mode (call op es ty) (call op (s.reduceOperands mode op es) ty) := by
  have all (mode : Mode) : List.Forall₂ (Refines row params mode) es (s.reduceAll mode es) := by
    rw [reduceAll_eq_map, List.forall₂_map_right_iff, List.forall₂_same]
    exact fun e mem => each e mem mode
  have kept : List.Forall₂ (Transfers row params row params) es (s.reduceAll .value es) :=
    (all .value).imp fun _ _ => refines_value.1
  have connected (stop : Bool) : Refines row params mode (call (connective stop) es ty)
      (call (connective stop) (s.reduceAll mode es) ty) := by
    refine refines_connective stop fun t outcome => ?_
    rw [truthAt_connective]
    exact evalUntil_refined (all mode) outcome
  cases op with
  | and => exact connected false
  | or => exact connected true
  | case =>
    refine Refines.of_value (refines_value.2 fun v value => ?_)
    rw [eval] at value ⊢
    exact evalCase_refined (refinesBranches_reduceBranches each) value
  | _ => exact Refines.of_value (refines_value.2 (related_call stepwise_keeps kept _ ty))

theorem refines_reduce (applies : s.Applies row params) (mode : Mode) (all : e.Everywhere (Admissible row)) :
    Refines row params mode e (s.reduce mode e) := by
  have stable := stable_admissible row
  induction e using Expr.induction generalizing mode with
  | call op es ty ih =>
    have operands : (call op (s.reduceOperands mode op es) ty).Everywhere (Admissible row) := by
      have related := s.forall₂_reduceOperands mode op es
      refine everywhere_call.2 ⟨stable.rebuilt all.here (related.imp ?_), fun e' mem => ?_⟩
      · rintro e e' ⟨mode, rfl⟩ null
        exact isNull_reduce mode null
      · obtain ⟨e, inside, mode, rfl⟩ := exists_of_forall₂_right related mem
        exact everywhere_reduce stable mode (all.operands e inside)
    rw [reduce_call]
    refine (refines_reduceOperands fun e mem mode => ih e mem mode (all.operands e mem)).trans ?_
    refine (refines_reduceCall applies operands).trans ?_
    exact refines_decideByPredicates (everywhere_reduceCall stable mode operands) applies.holds
      applies.free applies.fields
  | _ => exact refines_decideByPredicates all applies.holds applies.free applies.fields

theorem refines_iterate (applies : s.Applies row params) (mode : Mode) (passes : Nat)
    (all : e.Everywhere (Admissible row)) : Refines row params mode e (s.iterate mode passes e) := by
  refine (iterate_keeps (I := fun e' => Refines row params mode e e' ∧ e'.Everywhere (Admissible row)) ?_ passes
    ⟨Refines.refl e, all⟩).1
  rintro e' ⟨refined, here⟩
  exact ⟨refined.trans (refines_reduce applies mode here), everywhere_reduce (stable_admissible row) mode here⟩

theorem applies_ofList {P : List Expr} {passes : Nat}
    (known : ∀ p ∈ P, p.eval row params = .ok (.bool true)) (free : ∀ p ∈ P, p.Everywhere FloatFree)
    (fields : ∀ w ∈ row, w.floats = []) :
    ((ofPredicates (.ofList P)).withPasses passes).Applies row params where
  holds := Predicates.holds_ofList (fun p mem => (free p mem).mono fun _ here => here.zeroSigned false) known
  free := Predicates.everywhere_foldl_assume stable_floatFree.toDurable nofun free
  fields := fields

theorem test_eq_ok : e.test row params = .ok b ↔ ∃ t, e.truthAt row params = .ok t ∧ t.getD false = b := by
  have unfolded : e.test row params = (e.truthAt row params).map (Option.getD · false) := by
    rw [Expr.test, Expr.truthAt]
    cases e.eval row params with
    | error => rfl
    | ok v => cases v.truth <;> rfl
  rw [unfolded, map_eq_ok]

theorem eval_of_test (passes : e.test row params = .ok true) : e.eval row params = .ok (.bool true) := by
  obtain ⟨t, known, holds⟩ := test_eq_ok.1 passes
  have truth : t = some true := by
    rcases t with _ | _ | _
    · cases holds
    · cases holds
    · rfl
  exact truthAt_eq_ok.1 (truth ▸ known)

theorem test_of_refines {e' : Expr} (refined : Refines row params .condition e e')
    (tested : e.test row params = .ok b) : e'.test row params = .ok b := by
  obtain ⟨t, known, rfl⟩ := test_eq_ok.1 tested
  obtain ⟨t', known', allowed⟩ := refined.truthAt known
  refine test_eq_ok.2 ⟨t', known', ?_⟩
  rcases allowed with rfl | ⟨_, rfl, rfl⟩ <;> rfl

/-- Simplifying under predicates that are true on a row keeps what a value evaluates to on the row, null
included, and whether a condition accepts the row; no evaluation that succeeds becomes an error. -/
theorem eval_simplify_and_test_simplifyCondition (P : List Expr) (passes : Nat) (e : Expr) (row : Row)
    (params : Bindings) (known : ∀ p ∈ P, p.eval row params = .ok (.bool true))
    (reads : e.Everywhere (ReadsPresent row)) (fields : ∀ w ∈ row, w.floats = [])
    (free : e.Everywhere FloatFree) (freeKnown : ∀ p ∈ P, p.Everywhere FloatFree) :
    let s := (ofPredicates (.ofList P)).withPasses passes
    (∀ v, e.eval row params = .ok v → (s.simplify e).eval row params = .ok v) ∧
      ∀ b, e.test row params = .ok b → (s.simplifyCondition e).test row params = .ok b := by
  intro s
  have applies : s.Applies row params := applies_ofList known freeKnown fields
  have admissible : e.Everywhere (Admissible row) := fun x mem => ⟨reads x mem, free x mem⟩
  constructor
  · exact refines_value.1 (refines_iterate applies .value s.passes admissible)
  · exact fun b => test_of_refines (refines_iterate applies .condition s.passes admissible)

/-- Knowing that a field is above three, a test that it is above one goes away on the row `(5, null)`. -/
theorem eval_simplify_known_bound :
    let field := ref 0 .integer true
    let known := call .gt [field, .lit (.int 3)] .boolean
    let e := call .and [call .gt [field, .lit (.int 1)] .boolean, call .isNull [ref 1 .integer true] .boolean]
      .boolean
    let row : Row := [.int 5, .null]
    let s := (ofPredicates (.ofList [known])).withPasses 2
    known.eval row (fun _ => none) = .ok (.bool true) ∧ e.eval row (fun _ => none) = .ok (.bool true) ∧
      (s.simplify e).eval row (fun _ => none) = .ok (.bool true) ∧
      (s.simplifyCondition e).test row (fun _ => none) = .ok true := by
  intro field known e row s
  have sound := eval_simplify_and_test_simplifyCondition [known] 2 e row (fun _ => none)
    (List.forall_mem_singleton.2 rfl) (by simp [e, field, ReadsPresent]) (by simp [row, Value.floats])
    (by simp [e, field, FloatFree, Value.floats]) (by simp [known, field, FloatFree, Value.floats])
  exact ⟨rfl, rfl, sound.1 _ rfl, sound.2 _ rfl⟩

end FederatedQuery.Simplifier
