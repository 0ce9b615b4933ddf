import FederatedQuery.Proofs.Expr.Evaluation
import FederatedQuery.Proofs.Simplify.Shapes

/-!
What simplifying keeps at every subterm. The rules build calls of logical operators, literals of truth
values, typed nulls and folded constants, and otherwise only rebuild the calls that were there.
-/
open FederatedQuery.Expr

namespace FederatedQuery

/-- The operators that a rule may apply on its own account. -/
def Op.isLogical : Op → Bool
  | eq | ne | lt | le | gt | ge | and | or | not
  | isNull | isNotNull | isTrue | isFalse | case | coalesce => true
  | _ => false

variable {op : Op}

theorem Op.isLogical_of_isComparison (comparison : op.isComparison = true) : op.isLogical = true := by
  cases op <;> first | rfl | cases comparison

theorem Op.isLogical_of_negation? {negated : Op} (found : op.negation? = some negated) : negated.isLogical = true := by
  cases op <;> cases found <;> rfl

namespace Expr

/-- A property of subterms that putting predicates in canonical form and re-indexing them keep. -/
structure Durable (P : Expr → Prop) : Prop where
  bool : ∀ b, P (lit (.bool b))
  logical : ∀ {op : Op} {es : List Expr} {ty : SqlType}, op.isLogical = true → P (call op es ty)
  rebuilt : ∀ {op : Op} {es es' : List Expr} {ty : SqlType}, P (call op es ty) →
    List.Forall₂ (fun e e' => e.isNull = true → e'.isNull = true) es es' → P (call op es' ty)

/-- A property of subterms that no rule of the simplifier breaks. -/
structure Stable (P : Expr → Prop) : Prop extends Durable P where
  null : P nullLit
  castNull : ∀ ty, P (call .cast [nullLit] ty)
  folded : ∀ {op : Op} {es : List Expr} {ty : SqlType} {v : Value}, P (call op es ty) →
    (∀ e ∈ es, e.isLiteral = true ∧ P e) →
    (call op es ty).eval [] (fun _ => none) = .ok v → P (lit v)

variable {P : Expr → Prop} {op : Op} {es : List Expr} {ty : SqlType} {x : Expr} {e : Expr}

theorem Durable.simplifyComparison (durable : Durable P) (comparison : op.isComparison = true)
    (all : ∀ e ∈ es, e.Everywhere P) : (simplifyComparison op es ty).Everywhere P := by
  rcases simplifyComparison_cases comparison es ty with
    ⟨b, decided⟩ | same | ⟨reversed, a, b, found, rfl, _, turned, _⟩
  · exact decided ▸ everywhere_lit.2 (durable.bool b)
  · exact same ▸ everywhere_call.2 ⟨durable.logical (Op.isLogical_of_isComparison comparison), all⟩
  · have logical := Op.isLogical_of_isComparison (Op.isComparison_of_reversal? found).2
    exact turned ▸ everywhere_call.2 ⟨durable.logical logical, by simpa [and_comm] using all⟩

theorem Durable.canonical (durable : Durable P) (here : e.Everywhere P) : e.canonical.Everywhere P := by
  unfold Expr.canonical
  split
  · split
    · rename_i comparison
      exact durable.simplifyComparison comparison here.operands
    · exact here
  · exact here

theorem durable_zeroSigned (negative : Bool) : Durable (ZeroSigned negative) where
  bool _ := nofun
  logical _ := trivial
  rebuilt _ _ := trivial

theorem Durable.bindRefs (durable : Durable P) {f : Nat → SqlType → Bool → Option Expr}
    (refs : ∀ index ty nullable x, f index ty nullable = some x → x.Everywhere P) {e' : Expr}
    (all : e.Everywhere P) (bound : e.bindRefs f = some e') : e'.Everywhere P := by
  induction e using induction generalizing e' with
  | ref index ty nullable => exact refs index ty nullable e' bound
  | lit | param =>
    cases bound
    exact all
  | call op operands ty ih =>
    rw [Expr.bindRefs, Option.map_eq_some_iff] at bound
    obtain ⟨operands', bound, rfl⟩ := bound
    have each := forall₂_bindRefsAll bound
    refine everywhere_call.2 ⟨durable.rebuilt all.here (each.imp fun e e' bound null => ?_), fun e' mem => ?_⟩
    · cases e with
      | lit =>
        cases bound
        exact null
      | _ => cases null
    · obtain ⟨e, inside, bound⟩ := exists_of_forall₂_right each mem
      exact ih e inside (all.operands e inside) bound

variable (stable : Stable P)

include stable

theorem Stable.everywhere_null : nullLit.Everywhere P := everywhere_lit.2 stable.null

theorem Stable.typedLiteral {v : Value} (value : P (lit v)) : (typedLiteral v ty).Everywhere P := by
  rw [Expr.typedLiteral]
  split
  · exact everywhere_call.2 ⟨stable.castNull ty, List.forall_mem_singleton.2 stable.everywhere_null⟩
  · simpa using value

theorem Stable.foldConstant (all : (call op es ty).Everywhere P)
    (folded : foldConstant? op es ty = some e) : e.Everywhere P := by
  obtain ⟨_, literals, _, v, value, rfl⟩ := foldConstant_eq_some folded
  exact stable.typedLiteral (stable.folded all.here (fun e mem => ⟨literals e mem, (all.operands e mem).here⟩) value)

theorem Stable.negated (here : e.Everywhere P) : e.negated.Everywhere P := by
  simpa [Expr.negated, apply] using ⟨stable.logical rfl, here⟩

theorem Stable.negation (here : e.Everywhere P) : e.negation.Everywhere P := by
  unfold Expr.negation
  split
  · exact here.operands _ (by simp)
  · split
    · rename_i found
      exact everywhere_call.2 ⟨stable.logical (Op.isLogical_of_negation? found), here.operands⟩
    · exact stable.negated here
  · exact stable.negated here

theorem Stable.simplifyConnective (stop : Bool) (mode : Mode) (all : ∀ e ∈ es, e.Everywhere P) :
    (simplifyConnective stop mode es).Everywhere P :=
  simplifyConnective_induction (fun b => everywhere_lit.2 (stable.bool b)) Everywhere.operands
    (fun left _ _ => everywhere_call.2 ⟨stable.logical (by cases stop <;> rfl), left⟩) all

theorem Stable.simplifyNot (mode : Mode) (here : e.Everywhere P) : (e.simplifyNot mode).Everywhere P := by
  induction e using simplifyNot_induction generalizing mode with
  | kept e same => exact same mode ▸ stable.negated here
  | decided t same =>
    rcases t with _ | b
    · exact stable.everywhere_null
    · exact everywhere_lit.2 (stable.bool _)
  | undone x ty same => exact same mode ▸ here.operands x (.head _)
  | opposed op negated es ty found same =>
    exact same mode ▸ everywhere_call.2 ⟨stable.logical (Op.isLogical_of_negation? found), here.operands⟩
  | joined stop es ty same ih =>
    rw [same]
    exact stable.simplifyConnective stop mode (List.forall_mem_map.2 fun e mem => ih e mem .value (here.operands e mem))

theorem Stable.simplifyCase (all : ∀ e ∈ es, e.Everywhere P) : (simplifyCase es ty).Everywhere P := by
  have taken : ∀ x ∈ (liveBranches es).1 ++ (liveBranches es).2.toList, x.Everywhere P :=
    fun x mem => all x ((liveBranches_sublist es).subset mem)
  unfold Expr.simplifyCase
  split
  · rename_i otherwise found
    rw [found] at taken
    cases otherwise with
    | none => exact stable.typedLiteral stable.null
    | some e => exact taken e (.head _)
  · rename_i branches otherwise _ found
    rw [found] at taken
    exact everywhere_call.2 ⟨stable.logical rfl, taken⟩

theorem Stable.simplifyCoalesce (all : ∀ e ∈ es, e.Everywhere P) : (simplifyCoalesce es ty).Everywhere P := by
  have taken : ∀ x ∈ coalesceTerms [] es, x.Everywhere P :=
    fun x mem => all x ((coalesceTerms_sublist [] es).subset mem)
  unfold Expr.simplifyCoalesce
  split
  · exact stable.typedLiteral stable.null
  · rename_i found
    exact taken _ (by simp [found])
  · exact everywhere_call.2 ⟨stable.logical rfl, taken⟩

end Expr

namespace Simplifier

variable {P : Expr → Prop} {s : Simplifier} {e : Expr} {op : Op}

theorem decideByPredicates_cases (s : Simplifier) (e : Expr) :
    s.decideByPredicates e = e ∨ ∃ b, s.decideByPredicates e = .lit (.bool b) := by
  unfold decideByPredicates
  split
  · exact .inl rfl
  · split
    · exact .inr ⟨true, rfl⟩
    · split
      · exact .inr ⟨false, rfl⟩
      · dsimp only
        split
        · exact .inr ⟨_, rfl⟩
        · exact .inl rfl

theorem everywhere_decideByPredicates (stable : Stable P) (here : e.Everywhere P) :
    (s.decideByPredicates e).Everywhere P := by
  rcases s.decideByPredicates_cases e with same | ⟨b, decided⟩
  · rwa [same]
  · rw [decided]
    exact everywhere_lit.2 (stable.bool b)

/-- What the rules make of a call. -/
inductive Reduced (s : Simplifier) (mode : Mode) : Op → List Expr → SqlType → Expr → Prop
  | folded {op : Op} {es : List Expr} {ty : SqlType} {e : Expr} (found : foldConstant? op es ty = some e) :
      Reduced s mode op es ty e
  | joined (stop : Bool) {es : List Expr} {ty : SqlType} :
      Reduced s mode (connective stop) es ty (simplifyConnective stop mode es)
  | negation {e : Expr} {ty : SqlType} : Reduced s mode .not [e] ty (e.simplifyNot mode)
  | nullTest {op : Op} {e : Expr} {ty : SqlType} (test : op = .isNull ∨ op = .isNotNull)
      (known : e.nullable = false ∨
        ∃ index ty nullable, e = .ref index ty nullable ∧ s.predicates.provesNotNull index = true) :
      Reduced s mode op [e] ty (.lit (.bool (op = .isNotNull)))
  | truthTest {e : Expr} {ty : SqlType} (known : e.nullable = false) : Reduced s mode .isTrue [e] ty e
  | falsityTest {e : Expr} {ty : SqlType} (known : e.nullable = false) :
      Reduced s mode .isFalse [e] ty (e.simplifyNot mode)
  | comparison {op : Op} {es : List Expr} {ty : SqlType} (comparison : op.isComparison = true) :
      Reduced s mode op es ty (simplifyComparison op es ty)
  | choice {es : List Expr} {ty : SqlType} : Reduced s mode .case es ty (simplifyCase es ty)
  | alternative {es : List Expr} {ty : SqlType} : Reduced s mode .coalesce es ty (simplifyCoalesce es ty)
  | unchanged {op : Op} {es : List Expr} {ty : SqlType} : Reduced s mode op es ty (.call op es ty)

theorem reduced_nullTest (mode : Mode) (test : op = .isNull ∨ op = .isNotNull) (es : List Expr) (ty : SqlType) :
    Reduced s mode op es ty (s.simplifyNullTest op es ty) := by
  unfold simplifyNullTest
  split
  · rename_i e
    by_cases never : e.nullable = false
    · simp only [never, Bool.not_false, Bool.true_or, if_true]
      exact .nullTest test (.inl never)
    · simp only [Bool.eq_true_of_not_eq_false never, Bool.not_true, Bool.false_or]
      split
      · rename_i index ty nullable
        split
        · rename_i proved
          exact .nullTest test (.inr ⟨index, ty, nullable, rfl, proved⟩)
        · exact .unchanged
      · exact .unchanged
  · exact .unchanged

theorem reduced_truthTest (mode : Mode) (test : op = .isTrue ∨ op = .isFalse) (es : List Expr) (ty : SqlType) :
    Reduced s mode op es ty (simplifyTruthTest mode op es ty) := by
  unfold simplifyTruthTest
  split
  · rename_i e
    by_cases never : e.nullable = false
    · rcases test with rfl | rfl
      · simpa [never] using .truthTest never
      · simpa [never] using .falsityTest never
    · simpa [never] using .unchanged
  · exact .unchanged

theorem reduced (mode : Mode) (op : Op) (es : List Expr) (ty : SqlType) :
    Reduced s mode op es ty (s.reduceCall mode op es ty) := by
  unfold reduceCall
  cases found : foldConstant? op es ty with
  | some => exact .folded found
  | none =>
    cases op with
    | and => exact simplifyAnd_eq mode es ▸ .joined false
    | or => exact simplifyOr_eq mode es ▸ .joined true
    | not =>
      dsimp only
      split
      · exact .negation
      · exact .unchanged
    | isNull => exact reduced_nullTest mode (.inl rfl) es ty
    | isNotNull => exact reduced_nullTest mode (.inr rfl) es ty
    | isTrue => exact reduced_truthTest mode (.inl rfl) es ty
    | isFalse => exact reduced_truthTest mode (.inr rfl) es ty
    | eq | ne | lt | le | gt | ge => exact .comparison rfl
    | case => exact .choice
    | coalesce => exact .alternative
    | _ => exact .unchanged

theorem everywhere_reduceCall (stable : Stable P) (mode : Mode) {es : List Expr} {ty : SqlType}
    (all : (call op es ty).Everywhere P) : (s.reduceCall mode op es ty).Everywhere P := by
  have rule := s.reduced mode op es ty
  generalize s.reduceCall mode op es ty = e at rule
  cases rule with
  | folded found => exact stable.foldConstant all found
  | joined stop => exact stable.simplifyConnective stop mode all.operands
  | negation | falsityTest => exact stable.simplifyNot mode (all.operands _ (by simp))
  | nullTest => exact everywhere_lit.2 (stable.bool _)
  | truthTest => exact all.operands _ (by simp)
  | comparison comparison => exact stable.simplifyComparison comparison all.operands
  | choice => exact stable.simplifyCase all.operands
  | alternative => exact stable.simplifyCoalesce all.operands
  | unchanged => exact all

theorem reduce_lit (mode : Mode) (v : Value) : s.reduce mode (.lit v) = .lit v := by
  simp [reduce, decideByPredicates, Expr.isLiteral]

theorem isNull_reduce (mode : Mode) (null : e.isNull = true) : (s.reduce mode e).isNull = true := by
  cases e with
  | lit => rwa [reduce_lit]
  | _ => simp [Expr.isNull] at null

/-- The operands of a call after a pass over them. -/
def reduceOperands (s : Simplifier) (mode : Mode) (op : Op) (es : List Expr) : List Expr :=
  match op with
  | .and | .or => s.reduceAll mode es
  | .case => s.reduceBranches es
  | _ => s.reduceAll .value es

theorem reduce_call (mode : Mode) (op : Op) (es : List Expr) (ty : SqlType) :
    s.reduce mode (.call op es ty) =
      s.decideByPredicates (s.reduceCall mode op (s.reduceOperands mode op es) ty) := by
  cases op <;> rfl

theorem reduceAll_eq_map (mode : Mode) (es : List Expr) : s.reduceAll mode es = es.map (s.reduce mode) := by
  induction es with
  | nil => rw [reduceAll, List.map_nil]
  | cons _ _ ih => rw [reduceAll, ih, List.map_cons]

theorem forall₂_reduceBranches : ∀ es : List Expr,
    List.Forall₂ (fun e e' => ∃ mode, e' = s.reduce mode e) es (s.reduceBranches es)
  | [] => .nil
  | [_] => .cons ⟨.value, rfl⟩ .nil
  | _ :: _ :: rest => .cons ⟨.condition, rfl⟩ (.cons ⟨.value, rfl⟩ (forall₂_reduceBranches rest))

theorem forall₂_reduceOperands (mode : Mode) (op : Op) (es : List Expr) :
    List.Forall₂ (fun e e' => ∃ mode, e' = s.reduce mode e) es (s.reduceOperands mode op es) := by
  have all (mode : Mode) : List.Forall₂ (fun e e' => ∃ mode, e' = s.reduce mode e) es
      (s.reduceAll mode es) := by
    rw [reduceAll_eq_map, List.forall₂_map_right_iff]
    exact List.forall₂_same.2 fun e _ => ⟨mode, rfl⟩
  unfold reduceOperands
  split
  · exact all mode
  · exact all mode
  · exact forall₂_reduceBranches es
  · exact all .value

theorem everywhere_reduce (stable : Stable P) (mode : Mode) (here : e.Everywhere P) :
    (s.reduce mode e).Everywhere P := by
  induction e using Expr.induction generalizing mode with
  | call op es ty ih =>
    have operands := s.forall₂_reduceOperands mode op es
    refine everywhere_decideByPredicates stable (everywhere_reduceCall stable mode ?_)
    refine everywhere_call.2 ⟨stable.rebuilt here.here (operands.imp ?_), ?_⟩
    · rintro e e' ⟨mode, rfl⟩ null
      exact isNull_reduce mode null
    · intro e' mem
      obtain ⟨e, inside, mode, rfl⟩ := exists_of_forall₂_right operands mem
      exact ih e inside mode (here.operands e inside)
  | _ => exact everywhere_decideByPredicates stable here

theorem iterate_keeps {I : Expr → Prop} {mode : Mode} (step : ∀ e, I e → I (s.reduce mode e)) (passes : Nat)
    (here : I e) : I (s.iterate mode passes e) := by
  induction passes generalizing e with
  | zero => exact here
  | succ passes ih =>
    rw [iterate]
    split
    · exact here
    · exact ih (step e here)

theorem everywhere_iterate (stable : Stable P) (mode : Mode) (passes : Nat) (here : e.Everywhere P) :
    (s.iterate mode passes e).Everywhere P :=
  iterate_keeps (I := fun e => e.Everywhere P) (fun _ => everywhere_reduce stable mode) passes here

end Simplifier

end FederatedQuery
