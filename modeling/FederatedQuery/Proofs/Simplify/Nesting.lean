import FederatedQuery.Proofs.Simplify.Normal

/-!
How many passes an expression takes when empty is assumed. A pass leaves work to the next one only where a case
has a condition, so an expression settles one pass after its deepest nesting of conditions. With fewer passes there
are expressions that a second run changes again.
-/
open FederatedQuery.Expr

namespace FederatedQuery

namespace Expr

variable {op : Op} {es : List Expr} {ty : SqlType} {e : Expr}

/-- A comparison and its negation, or a null test and its negation, have values on the same operands. -/
theorem foldConstant?_negation? {negated : Op} (found : op.negation? = some negated)
    (unfolded : foldConstant? op es ty = none) : foldConstant? negated es ty = none := by
  refine Option.eq_none_iff_forall_ne_some.2 fun _ folded => ?_
  obtain ⟨nonempty, literals, _, v, value, _⟩ := foldConstant_eq_some folded
  obtain ⟨t, -, opposite⟩ := eval_negation? (Op.negation?_symm found) value
  have plain : op ≠ .unwind ∧ op ≠ .arrayValue ∧ op ≠ .cast := by cases op <;> cases found <;> decide
  rw [foldConstant?, if_neg (by simp [plain, nonempty, List.all_eq_true.2 literals]), opposite] at unfolded
  cases unfolded

theorem simplifyComparison_eq_self (comparison : op.isComparison = true) (a b : Expr) (ty : SqlType) :
    simplifyComparison op [a, b] ty = call op [a, b] ty ↔
      constantFirst [a, b] = false ∧ (a.same b && !a.nullable && !a.isConstant) = false := by
  obtain ⟨reversed, found⟩ := Op.exists_reversal comparison
  by_cases first : (a.isConstant && !b.isConstant) = true
  · have turned : simplifyComparison op [a, b] ty ≠ call op [a, b] ty := by
      simp only [simplifyComparison, found, if_pos first]
      split
      · simp
      · intro same
        cases same
        simp at first
    simp [turned, constantFirst, first]
  · rw [constantFirst, Bool.eq_false_iff.2 first]
    simp only [simplifyComparison, found, if_neg first]
    split
    · next decided => simp [decided]
    · next kept => simp [kept]

theorem simplifyComparison_negation? {negated : Op} (found : op.negation? = some negated)
    (comparison : op.isComparison = true) (kept : simplifyComparison op es ty = call op es ty) :
    simplifyComparison negated es ty = call negated es ty := by
  have comparison' := (Op.isComparison_of_negation? found).trans comparison
  match es with
  | [a, b] =>
    rw [simplifyComparison_eq_self comparison] at kept
    exact (simplifyComparison_eq_self comparison' a b ty).2 kept
  | [] | [_] | _ :: _ :: _ :: _ => rfl

mutual

/-- How many conditions of cases stand inside each other. -/
def nesting : Expr → Nat
  | call op es _ => match op with
    | .case => nestingOfBranches es
    | _ => nestingOfAll es
  | _ => 0

def nestingOfAll : List Expr → Nat
  | [] => 0
  | e :: rest => max e.nesting (nestingOfAll rest)

def nestingOfBranches : List Expr → Nat
  | [] => 0
  | [otherwise] => otherwise.nesting
  | condition :: result :: rest => max (condition.nesting + 1) (max result.nesting (nestingOfBranches rest))

end

theorem branches_subset (es : List Expr) : caseConditions es ⊆ es ∧ caseResults es ⊆ es := by
  induction es using List.twoStepInduction with
  | nil | singleton => exact ⟨List.nil_subset _, List.Subset.refl _⟩
  | cons_cons condition result rest ih _ =>
    exact ⟨List.cons_subset_cons condition (List.subset_cons_of_subset result ih.1),
      List.subset_cons_of_subset condition (List.cons_subset_cons result ih.2)⟩

theorem nesting_le_nestingOfAll (mem : e ∈ es) : e.nesting ≤ nestingOfAll es := by
  induction es with
  | nil => exact absurd mem List.not_mem_nil
  | cons _ _ ih =>
    rcases List.mem_cons.1 mem with rfl | mem
    · exact Nat.le_max_left _ _
    · exact (ih mem).trans (Nat.le_max_right _ _)

theorem nesting_branches (es : List Expr) : (∀ e ∈ caseConditions es, e.nesting < nestingOfBranches es) ∧
    ∀ e ∈ caseResults es, e.nesting ≤ nestingOfBranches es := by
  induction es using List.twoStepInduction with
  | nil | singleton => simp [caseConditions, caseResults, nestingOfBranches]
  | cons_cons condition result rest ih _ =>
    rw [nestingOfBranches]
    refine ⟨List.forall_mem_cons.2 ⟨by omega, fun e mem => ?_⟩, List.forall_mem_cons.2 ⟨by omega, fun e mem => ?_⟩⟩
    · have := ih.1 e mem
      omega
    · have := ih.2 e mem
      omega

end Expr

namespace Simplifier

variable {s : Simplifier} {mode : Mode} {op : Op} {es : List Expr} {ty : SqlType} {e : Expr} {T : Mode → Expr → Prop}
  {stop : Bool}

theorem branches_reduceBranches (s : Simplifier) (es : List Expr) :
    caseConditions (s.reduceBranches es) = (caseConditions es).map (s.reduce .condition) ∧
      caseResults (s.reduceBranches es) = (caseResults es).map (s.reduce .value) := by
  induction es using List.twoStepInduction with
  | nil | singleton => exact ⟨rfl, rfl⟩
  | cons_cons condition result rest ih _ => simp [reduceBranches, caseConditions, caseResults, ih]

theorem inside_reduceOperands (each : Inside (fun mode e => T mode (s.reduce mode e)) mode op es) :
    Inside T mode op (s.reduceOperands mode op es) := by
  have all (mode : Mode) (each : ∀ e ∈ es, T mode (s.reduce mode e)) : ∀ e ∈ s.reduceAll mode es, T mode e := by
    rw [reduceAll_eq_map]
    exact List.forall_mem_map.2 each
  cases op with
  | and | or => exact all mode each
  | case =>
    rw [Inside, reduceOperands, (branches_reduceBranches s es).1, (branches_reduceBranches s es).2]
    exact ⟨List.forall_mem_map.2 each.1, List.forall_mem_map.2 each.2⟩
  | _ => exact all .value each

theorem reduceOperands_eq_self :
    s.reduceOperands mode op es = es ↔ Inside (fun mode e => s.reduce mode e = e) mode op es := by
  have all (mode : Mode) : s.reduceAll mode es = es ↔ ∀ e ∈ es, s.reduce mode e = e := by
    rw [reduceAll_eq_map]
    simpa using List.map_inj_left (f := s.reduce mode) (g := id)
  cases op with
  | and | or => exact all mode
  | case =>
    rw [Inside, reduceOperands]
    clear all
    induction es using List.twoStepInduction with
    | nil | singleton => simp [reduceBranches, caseConditions, caseResults]
    | cons_cons condition result rest ih _ =>
      simp only [reduceBranches, caseConditions, caseResults, List.cons.injEq, ih, List.forall_mem_cons]
      tauto
  | _ => exact all .value

/-- A pass that leaves a call alone leaves its operands alone, and so do the rules. -/
theorem operands_of_fixed (fixed : s.reduce mode (.call op es ty) = .call op es ty) :
    s.reduceOperands mode op es = es ∧ s.reduceCall mode op es ty = .call op es ty := by
  have each : List.Forall₂ Settles es (s.reduceOperands mode op es) :=
    (s.forall₂_reduceOperands mode op es).imp fun e e' ⟨mode, same⟩ => same ▸ s.settles_reduce mode e
  have decided := s.settles_decideByPredicates (s.reduceCall mode op (s.reduceOperands mode op es) ty)
  rw [← reduce_call, fixed] at decided
  have rule := s.settles_reduceCall mode op (s.reduceOperands mode op es) ty
  have same : s.reduceOperands mode op es = es :=
    (Expr.call.inj ((settles_call op ty each).eq_of_le (decided.le.trans rule.le))).2.1
  rw [same] at decided rule
  exact ⟨same, rule.eq_of_le decided.le⟩

theorem reduceCall_negation? {negated : Op} (found : op.negation? = some negated)
    (kept : s.reduceCall mode op es ty = .call op es ty) :
    s.reduceCall mode negated es ty = .call negated es ty := by
  have unfolded : foldConstant? op es ty = none := by
    refine Option.eq_none_iff_forall_ne_some.2 fun _ folded => ?_
    obtain ⟨_, _, _, v, _, rfl⟩ := foldConstant_eq_some folded
    simp only [reduceCall, folded, typedLiteral] at kept
    split at kept
    · cases kept
      cases found
    · cases kept
  have unfolded' := foldConstant?_negation? found unfolded
  cases op with
  | eq | ne | lt | le | gt | ge =>
    cases found
    simp only [reduceCall, unfolded, unfolded'] at kept ⊢
    exact simplifyComparison_negation? rfl rfl kept
  | isNull | isNotNull =>
    cases found
    simp only [reduceCall, unfolded, unfolded'] at kept ⊢
    rcases es with _ | ⟨e, _ | ⟨e', rest⟩⟩
    · rfl
    · simp only [simplifyNullTest] at kept ⊢
      split_ifs at kept with known
      rw [if_neg known]
    · rfl
  | _ => cases found

section Assumptions

variable (empty : s.predicates = .empty)

include empty

theorem decideByPredicates_of_nothing (e : Expr) : s.decideByPredicates e = e := by
  rw [decideByPredicates, empty, if_pos (by simp [Predicates.empty])]

theorem reduce_call_of_nothing (mode : Mode) (op : Op) (es : List Expr) (ty : SqlType) :
    s.reduce mode (.call op es ty) = s.reduceCall mode op (s.reduceOperands mode op es) ty := by
  rw [reduce_call, decideByPredicates_of_nothing empty]

theorem reduce_leaf (mode : Mode) (leaf : e.op? = none) : s.reduce mode e = e := by
  cases e with
  | call => cases leaf
  | _ => exact decideByPredicates_of_nothing empty _

theorem closed_fixed : Closed s fun mode e => s.reduce mode e = e where
  leaf leaf := reduce_leaf empty _ leaf
  typedNull := by
    intro mode ty
    rw [reduce_call_of_nothing empty]
    simp [reduceOperands, reduceAll, reduce_lit, reduceCall, foldConstant?, nullLit, isNull, Value.isNull]
  inside _ fixed := reduceOperands_eq_self.1 (operands_of_fixed fixed).1
  call _ inside kept := by rw [reduce_call_of_nothing empty, reduceOperands_eq_self.2 inside, kept]
  negation := by
    intro op negated es ty found fixed
    obtain ⟨operands, kept⟩ := operands_of_fixed fixed
    have same : s.reduceOperands .value negated es = s.reduceOperands .value op es := by
      cases op <;> cases found <;> rfl
    rw [reduce_call_of_nothing empty, same, operands, reduceCall_negation? found kept]

end Assumptions

/-- One layer of expressions above those that come to rest as values a pass earlier. The conditions of a case are
in the layer; a condition that is no connective comes from below. -/
inductive Layer (below : Expr → Prop) : Mode → Expr → Prop
  | leaf {mode : Mode} {e : Expr} (leaf : e.op? = none) : Layer below mode e
  | choice {es : List Expr} {ty : SqlType} (conditions : ∀ e ∈ caseConditions es, Layer below .condition e)
      (results : ∀ e ∈ caseResults es, Layer below .value e) : Layer below .value (.call .case es ty)
  | operator {op : Op} {es : List Expr} {ty : SqlType} (plain : op ≠ .case)
      (all : ∀ e ∈ es, Layer below .value e) : Layer below .value (.call op es ty)
  | junction {op : Op} {es : List Expr} {ty : SqlType} (stop : Bool) (joins : op = connective stop)
      (all : ∀ e ∈ es, Layer below .condition e) : Layer below .condition (.call op es ty)
  | value {e : Expr} (before : below e) : Layer below .condition e

/-- Expressions that a number of passes settle. -/
def Rests (s : Simplifier) : Nat → Mode → Expr → Prop
  | 0 => fun mode e => s.reduce mode e = e
  | passes + 1 => Layer (s.Rests passes .value)

theorem Inside.imp {T' : Mode → Expr → Prop} (inside : Inside T mode op es)
    (implies : ∀ mode e, T mode e → T' mode e) : Inside T' mode op es := by
  cases op with
  | case => exact ⟨fun e mem => implies _ e (inside.1 e mem), fun e mem => implies _ e (inside.2 e mem)⟩
  | _ => exact fun e mem => implies _ e (inside e mem)

theorem Closed.layer (closed : Closed s T) : Closed s (Layer (T .value)) where
  leaf leaf := .leaf leaf
  typedNull := by
    intro mode ty
    cases mode with
    | value => exact .operator (by decide) (List.forall_mem_singleton.2 (.leaf rfl))
    | condition => exact .value closed.typedNull
  inside := by
    intro mode op es ty structural here
    cases here with
    | leaf leaf => cases leaf
    | choice conditions results => exact ⟨conditions, results⟩
    | operator plain all =>
      cases op with
      | case => exact absurd rfl plain
      | _ => exact all
    | junction stop joins all =>
      subst joins
      exact inside_connective.2 all
    | value before =>
      obtain ⟨stop, rfl⟩ := structural.resolve_left (by decide)
      have all := inside_connective.1 (closed.inside (.inl rfl) before)
      exact inside_connective.2 fun e mem => .value (all e mem)
  call := by
    intro mode op es ty structural inside _
    cases mode with
    | value =>
      cases op with
      | case => exact .choice inside.1 inside.2
      | _ => exact .operator (by decide) inside
    | condition =>
      obtain ⟨stop, rfl⟩ := structural.resolve_left (by decide)
      exact .junction stop rfl (inside_connective.1 inside)
  negation := by
    intro op negated es ty found here
    have plain : negated ≠ .case := by cases op <;> cases found <;> decide
    cases here with
    | leaf leaf => cases leaf
    | choice => cases found
    | operator _ all => exact .operator plain all

theorem closed_rests (empty : s.predicates = .empty) (passes : Nat) : Closed s (s.Rests passes) := by
  induction passes with
  | zero => exact closed_fixed empty
  | succ passes ih => exact ih.layer

/-- Whether a call is a condition matters only to connectives and to what negates its operand. -/
theorem reduceCall_condition (s : Simplifier) (other : ∀ stop, op ≠ connective stop) (es : List Expr) (ty : SqlType) :
    s.reduceCall .condition op es ty = s.reduceCall .value op es ty ∨
      ∃ x, es = [x] ∧ (op = .not ∨ op = .isFalse) ∧
        ∀ mode, s.reduceCall mode op es ty = x.simplifyNot mode := by
  cases folded : foldConstant? op es ty with
  | some => exact .inl (by simp only [reduceCall, folded])
  | none =>
    cases op with
    | and => exact absurd rfl (other false)
    | or => exact absurd rfl (other true)
    | not =>
      rcases es with _ | ⟨x, _ | ⟨y, rest⟩⟩
      · exact .inl (by simp only [reduceCall, folded])
      · exact .inr ⟨x, rfl, .inl rfl, fun mode => by simp only [reduceCall, folded]⟩
      · exact .inl (by simp only [reduceCall, folded])
    | isFalse =>
      rcases es with _ | ⟨x, _ | ⟨y, rest⟩⟩
      · exact .inl (by simp only [reduceCall, folded, simplifyTruthTest])
      · cases never : x.nullable with
        | true => exact .inl (by simp [reduceCall, folded, simplifyTruthTest, never])
        | false => exact .inr ⟨x, rfl, .inr rfl, fun mode => by simp [reduceCall, folded, simplifyTruthTest, never]⟩
      · exact .inl (by simp only [reduceCall, folded, simplifyTruthTest])
    | isTrue => exact .inl (by simp [reduceCall, folded, simplifyTruthTest])
    | _ => exact .inl (by simp only [reduceCall, folded])

theorem reduceOperands_condition (s : Simplifier) (other : ∀ stop, op ≠ connective stop) (es : List Expr) :
    s.reduceOperands .condition op es = s.reduceOperands .value op es := by
  cases op with
  | and => exact absurd rfl (other false)
  | or => exact absurd rfl (other true)
  | _ => rfl

theorem reduceCall_condition_of_kept (other : ∀ stop, op ≠ connective stop)
    (kept : s.reduceCall .value op es ty = .call op es ty) : s.reduceCall .condition op es ty = .call op es ty := by
  rcases s.reduceCall_condition other es ty with same | ⟨x, rfl, negation, rule⟩
  · rw [same, kept]
  · rw [rule] at kept ⊢
    induction x using simplifyNot_induction with
    | kept _ same | decided _ same | undone _ _ same | opposed _ _ _ _ _ same => rw [← kept, same, same]
    | joined stop es' ty' same =>
      -- the connective of the negated operands is too light to be the call
      have light := weight_joined stop .value ty' fun e (_ : e ∈ es') => weight_simplifyNot_le .value e
      rw [← same, kept] at light
      exact absurd (le_weight_of_negates negation _ ty) (Nat.not_le.2 light)

theorem Closed.simplifyNot_condition (closed : Closed s T) (here : T .value e) :
    Layer (T .value) .condition (e.simplifyNot .condition) := by
  have pushed := closed.simplifyNot here
  induction e using simplifyNot_induction with
  | kept _ same | decided _ same | undone _ _ same | opposed _ _ _ _ _ same =>
    rw [same] at pushed ⊢
    exact .value pushed
  | joined stop es ty same =>
    have all := inside_connective.1 (closed.inside (.inl rfl) here)
    rw [same]
    exact closed.layer.simplifyConnective (List.forall_mem_map.2 fun e mem => .value (closed.simplifyNot (all e mem)))

section Assumptions

variable (empty : s.predicates = .empty) {passes : Nat}

include empty

/-- What a pass leaves alone as a value is settled as a condition by one more pass. -/
theorem fixed_condition (fixed : s.reduce .value e = e) :
    s.reduce .condition (s.reduce .condition e) = s.reduce .condition e := by
  induction e using Expr.induction with
  | call op es ty ih =>
    obtain ⟨operands, kept⟩ := operands_of_fixed fixed
    have inside := reduceOperands_eq_self.1 operands
    by_cases connects : ∃ stop, op = connective stop
    · obtain ⟨stop, rfl⟩ := connects
      rw [reduce_call_of_nothing empty .condition _ es]
      refine (closed_fixed empty).reduceCall (structural_connective _ stop) (inside_reduceOperands ?_)
      exact inside_connective.2 fun e mem => ih e mem (inside_connective.1 inside e mem)
    · have other : ∀ stop, op ≠ connective stop := fun stop same => connects ⟨stop, same⟩
      have same : s.reduce .condition (.call op es ty) = .call op es ty := by
        rw [reduce_call_of_nothing empty, s.reduceOperands_condition other, operands,
          reduceCall_condition_of_kept other kept]
      rw [same, same]
  | _ => exact congrArg (s.reduce .condition) (reduce_leaf empty .condition rfl)

/-- A pass settles a layer one pass earlier, if it settles the values below it as conditions. -/
theorem rests_reduce (values : ∀ e, s.Rests passes .value e → s.Rests passes .condition (s.reduce .condition e))
    (here : s.Rests (passes + 1) mode e) : s.Rests passes mode (s.reduce mode e) := by
  have closed := closed_rests empty passes
  induction here with
  | leaf leaf =>
    rw [reduce_leaf empty _ leaf]
    exact closed.leaf leaf
  | choice _ _ conditions results =>
    rw [reduce_call_of_nothing empty]
    exact closed.reduceCall (.inl rfl) (inside_reduceOperands ⟨conditions, results⟩)
  | @operator op _ _ plain _ all =>
    rw [reduce_call_of_nothing empty]
    refine closed.reduceCall (.inl rfl) (inside_reduceOperands ?_)
    cases op with
    | case => exact absurd rfl plain
    | _ => exact all
  | junction stop joins _ all =>
    subst joins
    rw [reduce_call_of_nothing empty]
    exact closed.reduceCall (structural_connective _ stop) (inside_reduceOperands (inside_connective.2 all))
  | value before => exact values _ before

/-- A value is a condition of the same layer after one pass. -/
theorem rests_condition (step : ∀ mode e, s.Rests (passes + 1) mode e → s.Rests passes mode (s.reduce mode e))
    (here : s.Rests (passes + 1) .value e) : s.Rests (passes + 1) .condition (s.reduce .condition e) := by
  have below := closed_rests empty passes
  induction e using Expr.induction with
  | call op es ty ih =>
    have inside := below.layer.inside (.inl rfl) here
    rw [reduce_call_of_nothing empty]
    by_cases connects : ∃ stop, op = connective stop
    · obtain ⟨stop, rfl⟩ := connects
      refine below.layer.reduceCall (structural_connective _ stop) (inside_reduceOperands ?_)
      exact inside_connective.2 fun e mem => ih e mem (inside_connective.1 inside e mem)
    · have other : ∀ stop, op ≠ connective stop := fun stop same => connects ⟨stop, same⟩
      rw [s.reduceOperands_condition other]
      have passed := inside_reduceOperands (inside.imp step)
      rcases s.reduceCall_condition other (s.reduceOperands .value op es) ty with same | ⟨x, single, negation, rule⟩
      · rw [same]
        exact .value (below.reduceCall (.inl rfl) passed)
      · rw [rule]
        refine below.simplifyNot_condition ?_
        rw [single] at passed
        rcases negation with rfl | rfl <;> exact passed x (.head _)
  | _ =>
    rw [reduce_leaf empty _ rfl]
    exact .leaf rfl

theorem rests_pass (passes : Nat) (mode : Mode) (e : Expr) (here : s.Rests (passes + 1) mode e) :
    s.Rests passes mode (s.reduce mode e) := by
  induction passes generalizing mode e with
  | zero => exact rests_reduce empty (fun _ fixed => fixed_condition empty fixed) here
  | succ passes ih => exact rests_reduce empty (fun _ value => rests_condition empty ih value) here

theorem fixed_of_rests (here : s.Rests passes mode e) :
    s.reduce mode ((s.reduce mode)^[passes] e) = (s.reduce mode)^[passes] e := by
  induction passes generalizing e with
  | zero => exact here
  | succ passes ih => exact ih (rests_pass empty passes mode e here)

end Assumptions

variable {passes : Nat}

/-- As a value an expression takes a pass for every condition around another, and one more. -/
theorem rests_value (enough : e.nesting < passes) : s.Rests passes .value e := by
  induction e using Expr.induction generalizing passes with
  | call op es ty ih =>
    cases passes with
    | zero => exact absurd enough (Nat.not_lt_zero _)
    | succ passes =>
      cases op with
      | case =>
        have conditions : ∀ e ∈ caseConditions es, s.Rests passes .value e := fun e mem =>
          ih e ((branches_subset es).1 mem) (((nesting_branches es).1 e mem).trans_le (Nat.le_of_lt_succ enough))
        have results : ∀ e ∈ caseResults es, s.Rests (passes + 1) .value e := fun e mem =>
          ih e ((branches_subset es).2 mem) (((nesting_branches es).2 e mem).trans_lt enough)
        exact .choice (fun e mem => .value (conditions e mem)) results
      | _ => exact .operator (by decide) fun e mem => ih e mem ((nesting_le_nestingOfAll mem).trans_lt enough)
  | _ =>
    cases passes with
    | zero => exact absurd enough (Nat.not_lt_zero _)
    | succ => exact .leaf rfl

theorem rests_of_condition (enough : e.nesting + 1 < passes) : s.Rests passes .condition e := by
  cases passes with
  | zero => exact absurd enough (Nat.not_lt_zero _)
  | succ => exact .value (rests_value (Nat.lt_of_succ_lt_succ enough))

/-- A pass over what passes have settled changes nothing, and neither do all passes again. -/
theorem iterate_iterate (empty : s.predicates = .empty) (here : s.Rests passes mode e) :
    s.iterate mode passes (s.iterate mode passes e) = s.iterate mode passes e := by
  rw [iterate_eq, iterate_eq]
  exact Function.iterate_fixed (fixed_of_rests empty here) passes

section Tower

/-- A conjunction that can only be unknown or false. A pass sees this where it is a condition. -/
def unsure : Expr := .call .and [.ref 0 .boolean true, nullLit] .boolean

/-- Cases that stand in each other's conditions. -/
def tower (base : Expr) : Nat → Expr
  | 0 => base
  | height + 1 => .call .case [tower base height, .ref 0 .boolean true, unsure] .boolean

/-- The conjunction behind a null that a pass takes away. -/
def hidden : Expr := .call .coalesce [nullLit, unsure] .boolean

theorem nesting_tower {base : Expr} (flat : base.nesting = 0) (height : Nat) :
    (tower base height).nesting = height := by
  induction height with
  | zero => exact flat
  | succ height ih =>
    rw [tower, nesting, nestingOfBranches, ih]
    simp [nestingOfBranches, unsure, nesting, nestingOfAll, nullLit]

theorem everywhere_tower (height : Nat) : (tower hidden height).Everywhere FloatFree := by
  have base : unsure.Everywhere FloatFree := by simp [unsure, nullLit, FloatFree, Value.floats]
  induction height with
  | zero => simpa [tower, hidden, nullLit, FloatFree, Value.floats] using base
  | succ height ih => simpa [tower, FloatFree] using ⟨ih, base⟩

variable (empty : s.predicates = .empty)

include empty

theorem reduce_unsure : s.reduce .value unsure = unsure ∧ s.reduce .condition unsure = falseLit := by
  have flag (mode : Mode) : s.reduce mode (.ref 0 .boolean true) = .ref 0 .boolean true := reduce_leaf empty mode rfl
  have null (mode : Mode) : s.reduce mode nullLit = nullLit := reduce_leaf empty mode rfl
  rw [unsure, reduce_call_of_nothing empty, reduce_call_of_nothing empty]
  simp only [reduceOperands, reduceAll, flag, null]
  exact ⟨rfl, rfl⟩

theorem reduce_top (mode : Mode) (base : Expr) (height : Nat) :
    s.reduce mode (tower base (height + 1)) =
      simplifyCase [s.reduce .condition (tower base height), .ref 0 .boolean true, unsure] .boolean := by
  have unfolded (condition : Expr) : foldConstant? .case [condition, .ref 0 .boolean true, unsure] .boolean = none := by
    simp [foldConstant?, isLiteral]
  rw [tower, reduce_call_of_nothing empty, reduceOperands, reduceBranches, reduceBranches, (reduce_unsure empty).1,
    reduce_leaf empty .value rfl]
  simp only [reduceCall, unfolded]

theorem reduce_tower (mode : Mode) (height : Nat) :
    s.reduce mode (tower unsure (height + 1)) = tower unsure height := by
  induction height generalizing mode with
  | zero =>
    rw [reduce_top empty, tower, (reduce_unsure empty).2]
    rfl
  | succ height ih =>
    rw [reduce_top empty, ih]
    cases height <;> rfl

theorem reduce_hidden (mode : Mode) (height : Nat) : s.reduce mode (tower hidden height) = tower unsure height := by
  induction height generalizing mode with
  | zero =>
    rw [tower, hidden, reduce_call_of_nothing empty]
    simp only [reduceOperands, reduceAll, (reduce_unsure empty).1, nullLit, reduce_lit]
    rfl
  | succ height ih =>
    rw [reduce_top empty, ih]
    cases height <;> rfl

theorem iterate_tower (mode : Mode) (passes height : Nat) :
    (s.reduce mode)^[passes] (tower unsure (height + passes)) = tower unsure height := by
  induction passes with
  | zero => rfl
  | succ passes ih => rw [Function.iterate_succ_apply, ← Nat.add_assoc, reduce_tower empty, ih]

/-- As values, towers as high as there are passes are not settled. -/
theorem simplify_tower (positive : 0 < s.passes) :
    s.simplify (s.simplify (tower hidden s.passes)) ≠ s.simplify (tower hidden s.passes) := by
  obtain ⟨more, passes⟩ := Nat.exists_eq_add_of_le' positive
  have first : s.simplify (tower hidden s.passes) = tower unsure 1 := by
    rw [simplify, iterate_eq, passes, Function.iterate_succ_apply, reduce_hidden empty, Nat.add_comm more,
      iterate_tower empty]
  have second : s.simplify (tower unsure 1) = unsure := by
    rw [simplify, iterate_eq, passes, Function.iterate_succ_apply, reduce_tower empty, tower,
      Function.iterate_fixed (reduce_unsure empty).1]
  rw [first, second]
  intro same
  cases same

/-- As conditions, towers one less high are not settled. -/
theorem simplifyCondition_tower (positive : 0 < s.passes) :
    s.simplifyCondition (s.simplifyCondition (tower hidden (s.passes - 1))) ≠
      s.simplifyCondition (tower hidden (s.passes - 1)) := by
  obtain ⟨more, passes⟩ := Nat.exists_eq_add_of_le' positive
  have whole := iterate_tower empty .condition more 0
  rw [Nat.zero_add] at whole
  have first : s.simplifyCondition (tower hidden (s.passes - 1)) = unsure := by
    rw [simplifyCondition, iterate_eq, passes, Function.iterate_succ_apply, reduce_hidden empty, Nat.add_sub_cancel,
      whole, tower]
  have second : s.simplifyCondition unsure = falseLit := by
    rw [simplifyCondition, iterate_eq, passes, Function.iterate_succ_apply, (reduce_unsure empty).2]
    exact Function.iterate_fixed (s.reduce_lit .condition (.bool false)) more
  rw [first, second]
  intro same
  cases same

end Tower

/-- Without assumptions, simplifying twice is simplifying once on all expressions of a depth of conditions if and
only if there are more passes than that, and two more for conditions. -/
theorem simplify_idempotent_iff (s : Simplifier) (empty : s.predicates = .empty) (positive : 0 < s.passes)
    (depth : Nat) :
    ((∀ e : Expr, e.nesting ≤ depth → s.simplify (s.simplify e) = s.simplify e) ↔ depth < s.passes) ∧
    ((∀ e : Expr, e.nesting ≤ depth → s.simplifyCondition (s.simplifyCondition e) = s.simplifyCondition e) ↔
      depth + 1 < s.passes) := by
  have flat : hidden.nesting = 0 := rfl
  refine ⟨⟨fun all => ?_, fun enough e deep => ?_⟩, fun all => ?_, fun enough e deep => ?_⟩
  · by_contra few
    refine simplify_tower empty positive (all _ ?_)
    rw [nesting_tower flat]
    omega
  · exact iterate_iterate empty (rests_value (deep.trans_lt enough))
  · by_contra few
    refine simplifyCondition_tower empty positive (all _ ?_)
    rw [nesting_tower flat]
    omega
  · exact iterate_iterate empty (rests_of_condition ((Nat.succ_le_succ deep).trans_lt enough))

/-- The passes that are made unless told otherwise. -/
theorem simplify_idempotent_iff_default :
    let s := ofPredicates .empty
    (∀ e : Expr, e.nesting ≤ 15 → s.simplify (s.simplify e) = s.simplify e) ∧
      ∀ e : Expr, e.nesting ≤ 14 → s.simplifyCondition (s.simplifyCondition e) = s.simplifyCondition e :=
  have least : 15 < (ofPredicates .empty).passes := by decide
  ⟨(simplify_idempotent_iff (ofPredicates .empty) rfl (Nat.zero_lt_of_lt least) 15).1.2 least,
    (simplify_idempotent_iff (ofPredicates .empty) rfl (Nat.zero_lt_of_lt least) 14).2.2 least⟩

/-- Sixteen conditions inside each other are too many for a value, and fifteen for a condition. -/
theorem simplify_tower_unsettled :
    let s := ofPredicates .empty
    ((tower hidden 16).Everywhere FloatFree ∧
      s.simplify (s.simplify (tower hidden 16)) ≠ s.simplify (tower hidden 16)) ∧
    (tower hidden 15).Everywhere FloatFree ∧
      s.simplifyCondition (s.simplifyCondition (tower hidden 15)) ≠ s.simplifyCondition (tower hidden 15) :=
  have positive : 0 < (ofPredicates .empty).passes := by decide
  ⟨⟨everywhere_tower 16, simplify_tower rfl positive⟩, everywhere_tower 15, simplifyCondition_tower rfl positive⟩

end Simplifier

end FederatedQuery
