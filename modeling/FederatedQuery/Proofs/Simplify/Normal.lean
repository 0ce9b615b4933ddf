import FederatedQuery.Proofs.Simplify.Passes

/-!
What a rule of the simplifier makes of a call is left alone when the rules are applied to it again. A family of
expressions that goes by the operands, and takes in what the rules leave alone, is therefore kept by the rules.
-/
open FederatedQuery.Expr

namespace FederatedQuery

namespace Expr

variable {op : Op} {es : List Expr} {ty : SqlType} {e x : Expr}

theorem isBool_of_truthAt {row : Row} {params : Bindings} {t : Truth} (literal : x.isLiteral = true)
    (known : x.truthAt row params = .ok t) : x.isNull = true ∨ ∃ b, x.isBool b = true := by
  cases x with
  | lit v =>
    cases v with
    | null => exact .inl rfl
    | bool b => exact .inr ⟨b, by cases b <;> rfl⟩
    | _ => cases known
  | _ => cases literal

section Connectives

variable {stop : Bool} {mode : Mode}

theorem flatten_of_flat (flat : ∀ x ∈ es, flattenTerm op x = [x]) : flatten op es = es := by
  induction es with
  | nil => rfl
  | cons _ _ ih =>
    rw [List.forall_mem_cons] at flat
    rw [flatten, flat.1, ih flat.2, List.singleton_append]

theorem distinct_distinct (es : List Expr) : distinct (distinct es) = distinct es := by
  have step (kept rest : List Expr) : ∃ added,
      rest.foldl (fun kept e => if e.isIn kept then kept else kept ++ [e]) kept = kept ++ added ∧
        added.foldl (fun kept e => if e.isIn kept then kept else kept ++ [e]) kept = kept ++ added := by
    induction rest generalizing kept with
    | nil => exact ⟨[], by simp⟩
    | cons e rest ih =>
      rw [List.foldl_cons]
      split
      · exact ih kept
      · next new =>
        obtain ⟨added, first, again⟩ := ih (kept ++ [e])
        refine ⟨e :: added, by rw [first, ← List.append_cons], ?_⟩
        rw [List.foldl_cons, if_neg new, again, ← List.append_cons]
  obtain ⟨added, first, again⟩ := step [] es
  rw [distinct, distinct, first]
  exact again

theorem isBool_of_mem_terms (mem : x ∈ terms stop es) : x.isBool (!stop) = false := by
  have kept := List.of_mem_filter (mem_of_mem_distinct mem)
  simp only [Bool.and_eq_true, Bool.not_eq_true'] at kept
  exact kept.1

theorem flatten_remaining (stop : Bool) (mode : Mode) (es : List Expr) :
    flatten (connective stop) (remaining stop mode es) = remaining stop mode es :=
  flatten_of_flat fun _ mem => (of_mem_flatten (P := fun _ => True) (fun _ _ _ => trivial) (fun _ _ => trivial)
    (mem_flatten_of_mem_remaining mem)).2

theorem any_isNull_remaining (stop : Bool) (mode : Mode) (es : List Expr) :
    (remaining stop mode es).any isNull = keepsNull stop mode es := by
  have nullFree : (terms stop es).any isNull = false :=
    List.any_eq_false.2 fun x mem => Bool.eq_false_iff.1 (isNull_of_mem_terms mem)
  unfold remaining
  split
  · next keeps => rw [List.any_append, keeps, nullFree]; rfl
  · next drops => rw [nullFree, Bool.eq_false_iff.2 drops]

theorem terms_remaining (stop : Bool) (mode : Mode) (es : List Expr) :
    terms stop (remaining stop mode es) = terms stop es := by
  have kept : (terms stop es).filter (fun e => !e.isBool (!stop) && !e.isNull) = terms stop es :=
    List.filter_eq_self.2 fun x mem => by simp [isBool_of_mem_terms mem, isNull_of_mem_terms mem]
  have again : distinct (terms stop es) = terms stop es := distinct_distinct _
  rw [terms, flatten_remaining, remaining]
  split
  · rw [List.filter_append, kept]
    simpa [nullLit, isNull, Value.isNull] using again
  · rw [kept, again]

theorem remaining_remaining (stop : Bool) (mode : Mode) (es : List Expr) :
    remaining stop mode (remaining stop mode es) = remaining stop mode es := by
  have same : keepsNull stop mode (remaining stop mode es) = keepsNull stop mode es := by
    rw [keepsNull, flatten_remaining, any_isNull_remaining, keepsNull, ← Bool.and_assoc, Bool.and_self]
  rw [remaining, same, terms_remaining, ← remaining]

theorem isStopped_remaining (going : isStopped stop mode es = false) :
    isStopped stop mode (remaining stop mode es) = false := by
  rw [isStopped, Bool.or_eq_false_iff, Bool.or_eq_false_iff] at going ⊢
  rw [flatten_remaining, terms_remaining, any_isNull_remaining]
  refine ⟨⟨?_, ?_⟩, going.2⟩
  · exact List.any_eq_false.2 fun x mem => List.any_eq_false.1 going.1.1 x (mem_flatten_of_mem_remaining mem)
  · rw [keepsNull, Bool.and_left_comm, going.1.2, Bool.and_false]

/-- Several operands that are left have no value together: the first is no truth value. -/
theorem foldConstant?_remaining (several : 2 ≤ (remaining stop mode es).length)
    (going : isStopped stop mode es = false) : foldConstant? (connective stop) (remaining stop mode es) ty = none := by
  obtain ⟨x, rest, split, term⟩ : ∃ x rest, remaining stop mode es = x :: rest ∧ x ∈ terms stop es := by
    unfold remaining at several ⊢
    cases all : terms stop es with
    | nil =>
      rw [all] at several
      split at several <;> exact absurd several (by decide)
    | cons x rest =>
      split
      · exact ⟨x, rest ++ [nullLit], rfl, .head _⟩
      · exact ⟨x, rest, rfl, .head _⟩
  have inside : x ∈ remaining stop mode es := split ▸ (.head _)
  refine Option.eq_none_iff_forall_ne_some.2 fun _ folded => ?_
  obtain ⟨_, literals, _, v, value, _⟩ := foldConstant_eq_some folded
  rw [eval_connective, split, evalUntil] at value
  cases known : x.truthAt [] fun _ => none with
  | error =>
    rw [known] at value
    cases value
  | ok =>
    rcases isBool_of_truthAt (literals x inside) known with null | ⟨b, bool⟩
    · rw [isNull_of_mem_terms term] at null
      cases null
    · rw [isStopped, Bool.or_eq_false_iff, Bool.or_eq_false_iff] at going
      have other := List.any_eq_false.1 going.1.1 x (mem_flatten_of_mem_remaining inside)
      have other' := isBool_of_mem_terms term
      cases b <;> cases stop <;> simp_all

end Connectives

section Rules

theorem liveBranches_live (es : List Expr) :
    liveBranches ((liveBranches es).1 ++ (liveBranches es).2.toList) = liveBranches es := by
  induction es using List.twoStepInduction with
  | nil | singleton => rfl
  | cons_cons condition result rest ih _ =>
    rw [liveBranches]
    split
    · rfl
    · next open_ =>
      split
      · exact ih
      · next live =>
        rw [List.cons_append, List.cons_append, liveBranches, if_neg open_, if_neg live, ih]

theorem coalesceTerms_coalesceTerms (es : List Expr) :
    coalesceTerms [] (coalesceTerms [] es) = coalesceTerms [] es := by
  -- what is kept is gone through again without a stop
  have step (kept : List Expr) (again : ∀ rest, coalesceTerms [] (kept ++ rest) = coalesceTerms kept rest) :
      coalesceTerms [] (coalesceTerms kept es) = coalesceTerms kept es := by
    induction es generalizing kept with
    | nil => simpa [coalesceTerms] using again []
    | cons e rest ih =>
      rw [coalesceTerms]
      split
      · exact ih kept again
      · next new =>
        split
        · next null =>
          refine ih (kept ++ [e]) fun rest => ?_
          rw [← List.append_cons, again, coalesceTerms, if_neg new, if_pos null]
        · next never => rw [again, coalesceTerms, if_neg new, if_neg never]
  exact step [] fun rest => rfl

def caseConditions : List Expr → List Expr
  | condition :: _ :: rest => condition :: caseConditions rest
  | _ => []

/-- The branches that are left have conditions and results that were there. -/
theorem caseParts_live (es : List Expr) :
    let live := (liveBranches es).1 ++ (liveBranches es).2.toList
    caseConditions live ⊆ caseConditions es ∧ caseResults live ⊆ caseResults es := by
  induction es using List.twoStepInduction with
  | nil | singleton => exact ⟨List.Subset.refl _, List.Subset.refl _⟩
  | cons_cons condition result rest ih _ =>
    rw [liveBranches]
    split
    · exact ⟨List.nil_subset _, List.cons_subset_cons result (List.nil_subset _)⟩
    · split
      · exact ⟨List.Subset.trans ih.1 (List.subset_cons_self _ _), List.Subset.trans ih.2 (List.subset_cons_self _ _)⟩
      · exact ⟨List.cons_subset_cons condition ih.1, List.cons_subset_cons result ih.2⟩

/-- The first condition that is left is no truth value. -/
theorem liveBranches_cases (es : List Expr) : (liveBranches es).1 = [] ∨
    ∃ condition result rest, (liveBranches es).1 = condition :: result :: rest ∧ condition.isNull = false ∧
      ∀ b, condition.isBool b = false := by
  induction es using List.twoStepInduction with
  | nil | singleton => exact .inl rfl
  | cons_cons condition result rest ih _ =>
    rw [liveBranches]
    split
    · exact .inl rfl
    · next taken =>
      split
      · exact ih
      · next passed =>
        rw [Bool.or_eq_true, not_or] at passed
        refine .inr ⟨condition, result, _, rfl, Bool.eq_false_iff.2 passed.2, fun b => ?_⟩
        cases b with
        | true => exact Bool.eq_false_iff.2 taken
        | false => exact Bool.eq_false_iff.2 passed.1

theorem foldConstant?_live (es : List Expr) (ty : SqlType) (live : (liveBranches es).1 ≠ []) :
    foldConstant? .case ((liveBranches es).1 ++ (liveBranches es).2.toList) ty = none := by
  obtain ⟨condition, result, rest, split, present, other⟩ := (liveBranches_cases es).resolve_left live
  rw [split, List.cons_append, List.cons_append]
  refine Option.eq_none_iff_forall_ne_some.2 fun _ folded => ?_
  obtain ⟨_, literals, _, v, value, _⟩ := foldConstant_eq_some folded
  obtain ⟨w, first, value⟩ := bind_eq_ok.1 value
  obtain ⟨t, truth, _⟩ := bind_eq_ok.1 value
  rcases isBool_of_truthAt (literals condition (.head _)) (bind_eq_ok.2 ⟨w, first, truth⟩) with null | ⟨b, bool⟩
  · exact absurd null (Bool.eq_false_iff.1 present)
  · exact absurd bool (Bool.eq_false_iff.1 (other b))

/-- The first of several operands that are left may be null, so it is no literal. -/
theorem foldConstant?_coalesceTerms (es : List Expr) (ty : SqlType) (several : 2 ≤ (coalesceTerms [] es).length) :
    foldConstant? .coalesce (coalesceTerms [] es) ty = none := by
  have again := coalesceTerms_coalesceTerms es
  generalize coalesceTerms [] es = kept at several again ⊢
  match kept with
  | [] | [_] => simp at several
  | x :: y :: rest =>
    refine Option.eq_none_iff_forall_ne_some.2 fun _ folded => ?_
    have literal := (foldConstant_eq_some folded).2.1 x (.head _)
    rw [coalesceTerms] at again
    split at again
    · have short := (coalesceTerms_sublist [] (y :: rest)).length_le
      rw [again, List.nil_append, List.length_cons] at short
      omega
    · next new =>
      split at again
      · next null =>
        cases x with
        | lit => exact absurd (Bool.or_eq_true_iff.2 (.inl null)) new
        | _ => cases literal
      · cases again

end Rules

end Expr

namespace Simplifier

variable {s : Simplifier} {mode : Mode} {op : Op} {es : List Expr} {ty : SqlType} {e : Expr}
  {T : Mode → Expr → Prop} {stop : Bool}

/-- The operands of a call are in a family, each in the mode in which a pass takes it. -/
def Inside (T : Mode → Expr → Prop) (mode : Mode) (op : Op) (es : List Expr) : Prop :=
  match op with
  | .and | .or => ∀ e ∈ es, T mode e
  | .case => (∀ e ∈ caseConditions es, T .condition e) ∧ ∀ e ∈ caseResults es, T .value e
  | _ => ∀ e ∈ es, T .value e

theorem inside_connective : Inside T mode (connective stop) es ↔ ∀ e ∈ es, T mode e := by
  cases stop <;> exact Iff.rfl

theorem inside_comparison (comparison : op.isComparison = true) :
    Inside T mode op es ↔ ∀ e ∈ es, T .value e := by
  cases op with
  | eq | ne | lt | le | gt | ge => exact Iff.rfl
  | _ => cases comparison

/-- Where a call is in a family by its operands: every value, and a condition that is a connective. -/
def Structural (mode : Mode) (op : Op) : Prop := mode = .value ∨ ∃ stop, op = connective stop

/-- A family of expressions that goes by the operands and takes in the calls that the rules leave alone. -/
structure Closed (s : Simplifier) (T : Mode → Expr → Prop) : Prop where
  leaf : ∀ {mode : Mode} {e : Expr}, e.op? = none → T mode e
  typedNull : ∀ {mode : Mode} {ty : SqlType}, T mode (.call .cast [nullLit] ty)
  inside : ∀ {mode : Mode} {op : Op} {es : List Expr} {ty : SqlType}, Structural mode op →
    T mode (.call op es ty) → Inside T mode op es
  call : ∀ {mode : Mode} {op : Op} {es : List Expr} {ty : SqlType}, Structural mode op → Inside T mode op es →
    s.reduceCall mode op es ty = .call op es ty → T mode (.call op es ty)
  negation : ∀ {op negated : Op} {es : List Expr} {ty : SqlType}, op.negation? = some negated →
    T .value (.call op es ty) → T .value (.call negated es ty)

theorem structural_connective (mode : Mode) (stop : Bool) : Structural mode (connective stop) := .inr ⟨stop, rfl⟩

theorem reduceCall_of_fold_none (unfolded : foldConstant? (connective stop) es ty = none) :
    s.reduceCall mode (connective stop) es ty = simplifyConnective stop mode es := by
  cases stop with
  | false =>
    rw [← simplifyAnd_eq]
    simp only [reduceCall, unfolded]
    rfl
  | true =>
    rw [← simplifyOr_eq]
    simp only [reduceCall, unfolded]
    rfl

/-- A rule leaves a connective of what a rule has left of its operands. -/
theorem reduceCall_remaining (several : 2 ≤ (remaining stop mode es).length)
    (going : isStopped stop mode es = false) :
    s.reduceCall mode (connective stop) (remaining stop mode es) .boolean =
      .call (connective stop) (remaining stop mode es) .boolean := by
  rw [reduceCall_of_fold_none (foldConstant?_remaining several going), simplifyConnective,
    isStopped_remaining going, remaining_remaining, if_neg Bool.false_ne_true]
  rcases junction_cases stop (remaining stop mode es) with ⟨empty, _⟩ | ⟨e, single, _⟩ | ⟨_, same⟩
  · rw [empty] at several
    exact absurd several (by decide)
  · rw [single] at several
    exact absurd several (Nat.not_succ_le_self 1)
  · exact same

namespace Closed

variable (closed : Closed s T)

include closed

theorem typedLiteral (v : Value) (ty : SqlType) : T mode (typedLiteral v ty) := by
  unfold Expr.typedLiteral
  split
  · exact closed.typedNull
  · exact closed.leaf rfl

theorem folded (found : foldConstant? op es ty = some e) : T mode e := by
  obtain ⟨_, _, _, v, _, rfl⟩ := foldConstant_eq_some found
  exact closed.typedLiteral v ty

theorem simplifyConnective (all : ∀ e ∈ es, T mode e) : T mode (simplifyConnective stop mode es) := by
  refine simplifyConnective_induction (fun _ => closed.leaf rfl) (fun here => ?_) (fun left several going => ?_) all
  · exact inside_connective.1 (closed.inside (structural_connective mode stop) here)
  · exact closed.call (structural_connective mode stop) (inside_connective.2 left) (reduceCall_remaining several going)

theorem negated (here : T .value e) (kept : e.simplifyNot .value = e.negated) : T .value e.negated := by
  have call : e.negated = .call .not [e] .boolean := rfl
  rw [call]
  refine closed.call (.inl rfl) (List.forall_mem_singleton.2 here) ?_
  cases found : foldConstant? .not [e] .boolean with
  | none => simp only [reduceCall, found, kept, call]
  | some =>
    obtain ⟨_, literals, _, v, value, _⟩ := foldConstant_eq_some found
    have literal := literals e (.head _)
    cases e with
    | lit w =>
      -- with a truth value the negation is a literal, and without one it has no value
      cases w with
      | null | bool => cases kept
      | _ => cases value
    | _ => cases literal

theorem simplifyNot (here : T .value e) : T .value (e.simplifyNot .value) := by
  induction e using simplifyNot_induction with
  | kept e same => exact same .value ▸ closed.negated here (same .value)
  | decided t same => exact same .value ▸ closed.leaf rfl
  | undone x ty same => exact same .value ▸ closed.inside (.inl rfl) here x (.head _)
  | opposed op negated es ty found same => exact same .value ▸ closed.negation found here
  | joined stop es ty same ih =>
    have inside := inside_connective.1 (closed.inside (.inl rfl) here)
    rw [same]
    exact closed.simplifyConnective (List.forall_mem_map.2 fun e mem => ih e mem (inside e mem))

theorem simplifyComparison (comparison : op.isComparison = true) (all : ∀ e ∈ es, T .value e)
    (given : s.reduceCall .value op es ty = simplifyComparison op es ty) : T .value (simplifyComparison op es ty) := by
  rcases simplifyComparison_cases comparison es ty with
    ⟨b, decided⟩ | same | ⟨reversed, a, b, found, rfl, first, turned, again⟩
  · exact decided ▸ closed.leaf rfl
  · rw [same] at given ⊢
    exact closed.call (.inl rfl) ((inside_comparison comparison).2 all) given
  · have comparison' := (Op.isComparison_of_reversal? found).2
    rw [turned]
    refine closed.call (.inl rfl) ((inside_comparison comparison').2 fun e mem => all e (by simp_all [or_comm])) ?_
    have unfolded : foldConstant? reversed [b, a] ty = none := by
      refine Option.eq_none_iff_forall_ne_some.2 fun _ folded => ?_
      have literal := (foldConstant_eq_some folded).2.1 b (.head _)
      rw [constantFirst, Bool.and_eq_true] at first
      cases b with
      | lit => cases first.2
      | _ => cases literal
    cases reversed with
    | eq | ne | lt | le | gt | ge => simp only [reduceCall, unfolded, again]
    | _ => cases comparison'

theorem simplifyCase (inside : Inside T .value .case es) : T .value (simplifyCase es ty) := by
  have parts := caseParts_live es
  have again := liveBranches_live es
  have unfolded := foldConstant?_live es ty
  unfold Expr.simplifyCase
  split
  · next otherwise found =>
    cases otherwise with
    | none => exact closed.typedLiteral _ ty
    | some e =>
      rw [found] at parts
      exact inside.2 e (parts.2 (.head _))
  · next branches otherwise live found =>
    rw [found] at parts again unfolded
    refine closed.call (.inl rfl) ⟨fun e mem => inside.1 e (parts.1 mem), fun e mem => inside.2 e (parts.2 mem)⟩ ?_
    simp only [reduceCall, unfolded live, Expr.simplifyCase, again]

theorem simplifyCoalesce (all : ∀ e ∈ es, T .value e) : T .value (simplifyCoalesce es ty) := by
  have kept : ∀ x ∈ coalesceTerms [] es, T .value x := fun x mem => all x ((coalesceTerms_sublist [] es).subset mem)
  have again := coalesceTerms_coalesceTerms es
  have unfolded := foldConstant?_coalesceTerms es ty
  unfold Expr.simplifyCoalesce
  generalize coalesceTerms [] es = terms at kept again unfolded ⊢
  match terms with
  | [] => exact closed.typedLiteral _ ty
  | [e] => exact kept e (.head _)
  | a :: b :: rest =>
    refine closed.call (.inl rfl) kept ?_
    simp only [reduceCall, unfolded (Nat.le_add_left 2 _), Expr.simplifyCoalesce, again]

theorem reduceCall (structural : Structural mode op) (inside : Inside T mode op es) :
    T mode (s.reduceCall mode op es ty) := by
  have value (other : ∀ stop, op ≠ connective stop) : mode = .value :=
    structural.resolve_right fun ⟨stop, same⟩ => other stop same
  have rule := s.reduced mode op es ty
  generalize given : s.reduceCall mode op es ty = e at rule ⊢
  cases rule with
  | folded found => exact closed.folded found
  | joined => exact closed.simplifyConnective (inside_connective.1 inside)
  | negation | falsityTest =>
    cases value fun stop => by cases stop <;> decide
    exact closed.simplifyNot (inside _ (.head _))
  | nullTest => exact closed.leaf rfl
  | truthTest =>
    cases value fun stop => by cases stop <;> decide
    exact inside _ (.head _)
  | comparison comparison =>
    cases value fun stop same => by cases stop <;> cases same <;> cases comparison
    exact closed.simplifyComparison comparison ((inside_comparison comparison).1 inside) given
  | choice =>
    cases value fun stop => by cases stop <;> decide
    exact closed.simplifyCase inside
  | alternative =>
    cases value fun stop => by cases stop <;> decide
    exact closed.simplifyCoalesce inside
  | unchanged => exact closed.call structural inside given

end Closed

end Simplifier

end FederatedQuery
