import FederatedQuery.Proofs.Expr.Connectives
import FederatedQuery.Simplify.Basic

/-!
What the rules of the simplifier can make of a call. The rules for conjunctions and disjunctions are one rule,
which drops, joins and decides operands in the same way for both.
-/
namespace FederatedQuery

variable {op : Op}

theorem Op.isComparison_of_reversal? {reversed : Op} (found : op.reversal? = some reversed) :
    op.isComparison = true ∧ reversed.isComparison = true := by
  cases op <;> cases found <;> exact ⟨rfl, rfl⟩

theorem Op.exists_reversal (comparison : op.isComparison = true) : ∃ reversed, op.reversal? = some reversed := by
  cases op with
  | eq | ne | lt | le | gt | ge => exact ⟨_, rfl⟩
  | _ => cases comparison

namespace Expr

variable {es : List Expr} {ty : SqlType} {e x : Expr}

section Connectives

variable {stop : Bool} {mode : Mode} {P : Expr → Prop}

/-- Whether an expression is a truth value. -/
def isBool (b : Bool) (e : Expr) : Bool := if b then e.isTrue else e.isFalse

/-- A connective of some operands; none come to what lets it pass, and a single one stands for itself. -/
def junction (stop : Bool) (es : List Expr) : Expr := if stop then disjunction es else conjunction es

/-- Unknown operands stop a conjunction that is a condition. -/
def nullStops (stop : Bool) (mode : Mode) : Bool := decide (mode = .condition) && !stop

/-- The operands that a connective is made of, behind each other and each once, without truth values. -/
def terms (stop : Bool) (es : List Expr) : List Expr :=
  distinct ((flatten (connective stop) es).filter fun e => !e.isBool (!stop) && !e.isNull)

/-- Whether a null stands behind the terms. -/
def keepsNull (stop : Bool) (mode : Mode) (es : List Expr) : Bool :=
  (decide (mode = .value) || !stop) && (flatten (connective stop) es).any isNull

/-- Whether an operand, or two that contradict each other, decide a connective. -/
def isStopped (stop : Bool) (mode : Mode) (es : List Expr) : Bool :=
  (flatten (connective stop) es).any (isBool stop) ||
    (nullStops stop mode && (flatten (connective stop) es).any isNull) ||
    (terms stop es).any fun e => (nullStops stop mode || e.isDecided) && e.negation.isIn (terms stop es)

/-- What is left of the operands of a connective. -/
def remaining (stop : Bool) (mode : Mode) (es : List Expr) : List Expr :=
  if keepsNull stop mode es then terms stop es ++ [nullLit] else terms stop es

/-- The rule for conjunctions and the rule for disjunctions. -/
def simplifyConnective (stop : Bool) (mode : Mode) (es : List Expr) : Expr :=
  if isStopped stop mode es then lit (.bool stop) else junction stop (remaining stop mode es)

theorem isBool_true : isBool true = isTrue := rfl

theorem isBool_false : isBool false = isFalse := rfl

theorem simplifyAnd_eq (mode : Mode) (es : List Expr) : simplifyAnd mode es = simplifyConnective false mode es := by
  simp only [simplifyAnd, simplifyConnective, isStopped, remaining, keepsNull, nullStops, terms, isBool_true,
    isBool_false, junction, connective, Bool.not_false, Bool.and_true, Bool.or_true, Bool.true_and,
    Bool.false_eq_true, if_false, Bool.or_eq_true, ite_or, falseLit]

theorem simplifyOr_eq (mode : Mode) (es : List Expr) : simplifyOr mode es = simplifyConnective true mode es := by
  simp only [simplifyOr, simplifyConnective, isStopped, remaining, keepsNull, nullStops, terms, isBool_true,
    isBool_false, junction, connective, Bool.not_true, Bool.and_false, Bool.or_false, Bool.false_and, Bool.false_or,
    if_true, Bool.or_eq_true, ite_or, trueLit]

theorem mem_flatten : x ∈ flatten op es ↔ ∃ e ∈ es, x ∈ flattenTerm op e := by
  induction es with
  | nil => simp [flatten]
  | cons _ _ ih => simp [flatten, ih]

/-- What holds of operands, and goes from a call of the operator to its operands, holds of the flattened operands. They
are not calls of the operator. -/
theorem of_mem_flatten (inside : ∀ {es ty}, P (call op es ty) → ∀ e ∈ es, P e)
    (all : ∀ e ∈ es, P e) (mem : x ∈ flatten op es) : P x ∧ flattenTerm op x = [x] := by
  have term (e : Expr) (here : P e) (mem : x ∈ flattenTerm op e) : P x ∧ flattenTerm op x = [x] := by
    induction e using induction with
    | call inner operands ty ih =>
      rw [flattenTerm] at mem
      split at mem
      · next same =>
        subst same
        obtain ⟨e, among, mem⟩ := mem_flatten.1 mem
        exact ih e among (inside here e among) mem
      · next other =>
        rw [List.mem_singleton.1 mem, flattenTerm, if_neg other]
        exact ⟨here, rfl⟩
    | _ =>
      rw [flattenTerm, List.mem_singleton] at mem
      · rw [mem, flattenTerm]
        · exact ⟨here, rfl⟩
        · simp
      · simp
  obtain ⟨e, among, mem⟩ := mem_flatten.1 mem
  exact term e (all e among) mem

theorem distinct_sublist (es : List Expr) : (distinct es).Sublist es := by
  have step (kept rest : List Expr) :
      (rest.foldl (fun kept e => if e.isIn kept then kept else kept ++ [e]) kept).Sublist (kept ++ rest) := by
    induction rest generalizing kept with
    | nil => simp
    | cons e rest ih =>
      rw [List.foldl_cons]
      refine (ih _).trans ?_
      split
      · exact (List.Sublist.refl kept).append (List.sublist_cons_self e rest)
      · simp
  exact step [] es

theorem mem_of_mem_distinct (mem : x ∈ distinct es) : x ∈ es := (distinct_sublist es).subset mem

theorem eq_nullLit (null : e.isNull = true) : e = nullLit := by
  cases e with
  | lit v =>
    cases v with
    | null => rfl
    | _ => cases null
  | _ => cases null

theorem isNull_of_mem_terms (mem : x ∈ terms stop es) : x.isNull = false := by
  have kept := List.of_mem_filter (mem_of_mem_distinct mem)
  simp only [Bool.and_eq_true, Bool.not_eq_true'] at kept
  exact kept.2

/-- The terms are part of the operands without any one null. -/
theorem terms_sublist {before after : List Expr} (null : x.isNull = true)
    (split : flatten (connective stop) es = before ++ x :: after) : (terms stop es).Sublist (before ++ after) := by
  refine (distinct_sublist _).trans ?_
  rw [split, List.filter_append, List.filter_cons_of_neg (by simp [null])]
  exact List.filter_sublist.append List.filter_sublist

/-- With no null before the last operand, what is left is part of the operands in their order. -/
theorem remaining_sublist (mode : Mode) (tidy : (flatten (connective stop) es).dropLast.any isNull = false) :
    (remaining stop mode es).Sublist (flatten (connective stop) es) := by
  unfold remaining
  split
  · next keeps =>
    have hasNull := (Bool.and_eq_true_iff.1 keeps).2
    rcases List.eq_nil_or_concat (flatten (connective stop) es) with empty | ⟨front, last, split⟩
    · rw [empty] at hasNull
      cases hasNull
    · rw [List.concat_eq_append] at split
      rw [split, List.dropLast_concat] at tidy
      rw [split, List.any_append, tidy, List.any_cons, List.any_nil, Bool.or_false] at hasNull
      have part : (terms stop es).Sublist (front ++ []) := terms_sublist hasNull split
      rw [List.append_nil] at part
      rw [split, eq_nullLit hasNull]
      exact part.append (List.Sublist.refl _)
  · exact (distinct_sublist _).trans List.filter_sublist

theorem remaining_tidy (stop : Bool) (mode : Mode) (es : List Expr) :
    (remaining stop mode es).dropLast.any isNull = false := by
  have nullFree : (terms stop es).any isNull = false :=
    List.any_eq_false.2 fun x mem => Bool.eq_false_iff.1 (isNull_of_mem_terms mem)
  unfold remaining
  split
  · rw [List.dropLast_concat, nullFree]
  · rw [List.any_eq_false] at nullFree ⊢
    exact fun x mem => nullFree x (List.dropLast_subset _ mem)

theorem mem_flatten_of_mem_remaining (mem : x ∈ remaining stop mode es) : x ∈ flatten (connective stop) es := by
  have term (mem : x ∈ terms stop es) : x ∈ flatten (connective stop) es :=
    List.mem_of_mem_filter (mem_of_mem_distinct mem)
  unfold remaining at mem
  split at mem
  · next keeps =>
    rcases List.mem_append.1 mem with mem | mem
    · exact term mem
    · obtain ⟨y, inside, null⟩ := List.any_eq_true.1 (Bool.and_eq_true_iff.1 keeps).2
      rwa [List.mem_singleton.1 mem, ← eq_nullLit null]
  · exact term mem

theorem junction_cases (stop : Bool) (es : List Expr) :
    es = [] ∧ junction stop es = lit (.bool !stop) ∨ (∃ e, es = [e] ∧ junction stop es = e) ∨
      2 ≤ es.length ∧ junction stop es = call (connective stop) es .boolean := by
  match es with
  | [] => cases stop <;> exact .inl ⟨rfl, rfl⟩
  | [e] => cases stop <;> exact .inr (.inl ⟨e, rfl, rfl⟩)
  | a :: b :: rest => cases stop <;> exact .inr (.inr ⟨Nat.le_add_left 2 _, rfl⟩)

/-- A property of truth values and operands that a call of the connective has with what is left of its operands. -/
theorem simplifyConnective_induction (bool : ∀ b, P (lit (.bool b)))
    (inside : ∀ {es ty}, P (call (connective stop) es ty) → ∀ e ∈ es, P e)
    (joined : (∀ e ∈ remaining stop mode es, P e) → 2 ≤ (remaining stop mode es).length →
      isStopped stop mode es = false → P (call (connective stop) (remaining stop mode es) .boolean))
    (all : ∀ e ∈ es, P e) : P (simplifyConnective stop mode es) := by
  have left : ∀ x ∈ remaining stop mode es, P x :=
    fun x mem => (of_mem_flatten inside all (mem_flatten_of_mem_remaining mem)).1
  unfold simplifyConnective
  split
  · exact bool stop
  · next going =>
    rcases junction_cases stop (remaining stop mode es) with ⟨_, same⟩ | ⟨e, single, same⟩ | ⟨several, same⟩ <;>
      rw [same]
    · exact bool _
    · exact left e (single ▸ List.mem_singleton_self e)
    · exact joined left several (Bool.eq_false_iff.2 going)

end Connectives

section Rules

theorem simplifyNots_eq_map (es : List Expr) : simplifyNots es = es.map (simplifyNot .value) := by
  induction es with
  | nil => rw [simplifyNots, List.map_nil]
  | cons _ _ ih => rw [simplifyNots, ih, List.map_cons]

/-- What becomes of the negation of an expression. Only at a connective does it matter whether it is a condition. -/
@[elab_as_elim]
theorem simplifyNot_induction {motive : Expr → Prop} (kept : ∀ e, (∀ mode, e.simplifyNot mode = e.negated) → motive e)
    (decided : ∀ t : Truth, (∀ mode, (lit t.toValue).simplifyNot mode = lit (Truth.toValue (t.map (!·)))) →
      motive (lit t.toValue))
    (undone : ∀ x ty, (∀ mode, (call .not [x] ty).simplifyNot mode = x) → motive (call .not [x] ty))
    (opposed : ∀ op negated es ty, op.negation? = some negated →
      (∀ mode, (call op es ty).simplifyNot mode = call negated es ty) → motive (call op es ty))
    (joined : ∀ stop es ty, (∀ mode, (call (connective !stop) es ty).simplifyNot mode =
      simplifyConnective stop mode (es.map (simplifyNot .value))) → (∀ e ∈ es, motive e) →
      motive (call (connective !stop) es ty)) (e : Expr) : motive e := by
  induction e using induction with
  | ref | param => exact kept _ fun mode => by rw [simplifyNot] <;> simp
  | lit v =>
    cases v with
    | null => exact decided none fun mode => by rw [Truth.toValue]; rfl
    | bool b => exact decided (some b) fun mode => by rw [Truth.toValue]; rfl
    | _ => exact kept _ fun mode => by rw [simplifyNot] <;> simp
  | call op es ty ih =>
    cases op with
    | and =>
      refine joined true es ty (fun mode => ?_) ih
      rw [← simplifyOr_eq, ← simplifyNots_eq_map]
      rfl
    | or =>
      refine joined false es ty (fun mode => ?_) ih
      rw [← simplifyAnd_eq, ← simplifyNots_eq_map]
      rfl
    | not =>
      rcases es with _ | ⟨x, _ | ⟨y, rest⟩⟩
      · exact kept _ fun mode => by rw [simplifyNot] <;> simp [Op.negation?]
      · exact undone x ty fun mode => by rw [simplifyNot]
      · exact kept _ fun mode => by rw [simplifyNot] <;> simp [Op.negation?]
    | eq | ne | lt | le | gt | ge | isNull | isNotNull =>
      exact opposed _ _ es ty rfl fun mode => by rw [simplifyNot] <;> simp [Op.negation?]
    | _ => exact kept _ fun mode => by rw [simplifyNot] <;> simp [Op.negation?]

/-- Whether a constant is compared with what is not one. -/
def constantFirst : List Expr → Bool
  | [a, b] => a.isConstant && !b.isConstant
  | _ => false

/-- A comparison is decided, kept, or turned round to have its constant on the right, and then it is kept. -/
theorem simplifyComparison_cases (comparison : op.isComparison = true) (es : List Expr) (ty : SqlType) :
    (∃ b, simplifyComparison op es ty = lit (.bool b)) ∨ simplifyComparison op es ty = call op es ty ∨
      ∃ reversed a b, op.reversal? = some reversed ∧ es = [a, b] ∧ constantFirst [a, b] = true ∧
        simplifyComparison op es ty = call reversed [b, a] ty ∧
        simplifyComparison reversed [b, a] ty = call reversed [b, a] ty := by
  obtain ⟨reversed, found⟩ := Op.exists_reversal comparison
  match es with
  | [a, b] =>
    by_cases first : (a.isConstant && !b.isConstant) = true
    · simp only [simplifyComparison, found, if_pos first]
      split
      · exact .inl ⟨_, rfl⟩
      · next kept =>
        refine .inr (.inr ⟨reversed, a, b, rfl, rfl, first, rfl, ?_⟩)
        have last : ¬(b.isConstant && !a.isConstant) = true := by simp_all
        obtain ⟨again, found'⟩ : ∃ again, reversed.reversal? = some again := by
          cases op <;> cases found <;> exact ⟨_, rfl⟩
        simp only [found', if_neg last, if_neg kept]
    · simp only [simplifyComparison, found, if_neg first]
      split
      · exact .inl ⟨_, rfl⟩
      · exact .inr (.inl rfl)
  | [] | [_] | _ :: _ :: _ :: _ => exact .inr (.inl rfl)

theorem liveBranches_sublist : ∀ es : List Expr, ((liveBranches es).1 ++ (liveBranches es).2.toList).Sublist es
  | [] => List.Sublist.refl _
  | [_] => List.Sublist.refl _
  | condition :: result :: rest => by
    have later := liveBranches_sublist rest
    rw [liveBranches]
    split
    · simp
    · split
      · exact later.trans (by simp)
      · exact (later.cons_cons result).cons_cons condition

theorem coalesceTerms_sublist (kept es : List Expr) : (coalesceTerms kept es).Sublist (kept ++ es) := by
  induction es generalizing kept with
  | nil => simp [coalesceTerms]
  | cons e rest ih =>
    rw [coalesceTerms]
    split
    · exact (ih kept).trans ((List.Sublist.refl kept).append (List.sublist_cons_self e rest))
    · split
      · simpa using ih (kept ++ [e])
      · simp

theorem foldConstant_eq_some (folded : foldConstant? op es ty = some e) :
    es ≠ [] ∧ (∀ x ∈ es, x.isLiteral = true) ∧ ¬(op = .cast ∧ es.head?.map isNull = some true) ∧
      ∃ v, (call op es ty).eval [] (fun _ => none) = .ok v ∧ e = typedLiteral v ty := by
  rw [foldConstant?] at folded
  split at folded
  · cases folded
  · next refused =>
    simp only [not_or, Bool.not_eq_true', List.isEmpty_iff] at refused
    obtain ⟨_, _, nonempty, literals, typed⟩ := refused
    refine ⟨nonempty, List.all_eq_true.1 (by simpa using literals), typed, ?_⟩
    split at folded
    · next v value => exact ⟨v, value, (Option.some.inj folded).symm⟩
    · cases folded

end Rules

end Expr

end FederatedQuery
