import FederatedQuery.Proofs.Simplify.Nullability

/-!
Weights of expressions. What a rule of the simplifier makes of a call is the call itself or lighter: the rule
drops something, decides something, pushes a negation inwards, or puts the call in order.
-/
namespace FederatedQuery

namespace Expr

/-- A call that a rule would only put in order: a connective or negation of another type than boolean, a
connective with a null before its last operand, a comparison with its constant on the left. -/
def isUntidy (op : Op) (es : List Expr) (ty : SqlType) : Bool :=
  match op with
  | .and | .or => decide (ty ≠ .boolean) || es.dropLast.any isNull
  | .not => decide (ty ≠ .boolean)
  | _ => op.isComparison && constantFirst es

def disorder (op : Op) (es : List Expr) (ty : SqlType) : Nat := (isUntidy op es ty).toNat

mutual

/-- A negation weighs several times its operand, so that it gets lighter when the operands of a connective
are negated instead. A null literal is the lightest, and a typed null is lighter than any other call of a
literal. -/
def weight : Expr → Nat
  | lit v => if v.isNull then 1 else 2
  | ref .. | param .. => 4
  | call op es ty => match op with
    | .not => 7 * weights es + 6 + disorder op es ty
    | .isFalse => 7 * weights es + 7
    | .cast => weights es + es.length + 6
    | _ => weights es + es.length + 9 + disorder op es ty

def weights : List Expr → Nat
  | [] => 0
  | e :: rest => e.weight + weights rest

end

/-- What operands add to the weight of most calls. -/
def load (es : List Expr) : Nat := weights es + es.length

variable {op : Op} {es es' : List Expr} {ty : SqlType} {e e' : Expr}

theorem disorder_le_one (op : Op) (es : List Expr) (ty : SqlType) : disorder op es ty ≤ 1 := Bool.toNat_le _

theorem weight_lit_le (v : Value) : (lit v).weight ≤ 2 := by
  rw [weight]
  split <;> omega

theorem weights_add_six_le (op : Op) (es : List Expr) (ty : SqlType) : weights es + 6 ≤ (call op es ty).weight := by
  cases op <;> simp only [weight] <;> omega

theorem four_le_weight (large : e.isLiteral = false) : 4 ≤ e.weight := by
  cases e with
  | lit => cases large
  | call op es ty =>
    have := weights_add_six_le op es ty
    omega
  | _ => exact Nat.le_refl 4

theorem weights_cons (e : Expr) (es : List Expr) : weights (e :: es) = e.weight + weights es := by rw [weights]

theorem weights_append (es es' : List Expr) : weights (es ++ es') = weights es + weights es' := by
  induction es with
  | nil => rw [List.nil_append, weights, Nat.zero_add]
  | cons _ _ ih => rw [List.cons_append, weights_cons, weights_cons, ih, Nat.add_assoc]

theorem load_append (es es' : List Expr) : load (es ++ es') = load es + load es' := by
  rw [load, load, load, weights_append, List.length_append]
  omega

theorem load_cons (e : Expr) (es : List Expr) : load (e :: es) = e.weight + 1 + load es := by
  rw [load, load, weights_cons, List.length_cons]
  omega

theorem load_nil : load [] = 0 := rfl

theorem load_singleton (e : Expr) : load [e] = e.weight + 1 := by
  rw [load_cons, load_nil]

theorem weight_lt_load {e : Expr} (mem : e ∈ es) : e.weight < load es := by
  induction es with
  | nil => exact absurd mem List.not_mem_nil
  | cons _ _ ih =>
    rw [load_cons]
    rcases List.mem_cons.1 mem with rfl | mem
    · omega
    · have := ih mem
      omega

theorem weight_connective (stop : Bool) (es : List Expr) (ty : SqlType) :
    (call (connective stop) es ty).weight = load es + 9 + disorder (connective stop) es ty := by
  cases stop <;> rfl

theorem load_of_sublist (part : es'.Sublist es) : es' = es ∨ load es' < load es := by
  induction part with
  | slnil => exact .inl rfl
  | cons _ _ ih =>
    rw [load_cons]
    rcases ih with rfl | less <;> right <;> omega
  | cons_cons x part ih =>
    rw [load_cons, load_cons]
    rcases ih with rfl | less
    · exact .inl rfl
    · right
      omega

theorem load_le_of_sublist (part : es'.Sublist es) : load es' ≤ load es := by
  rcases load_of_sublist part with rfl | less <;> omega

/-- One expression takes the place of another: the same, or a lighter one for what is not a literal. -/
def Settles (e e' : Expr) : Prop := e' = e ∨ e.isLiteral = false ∧ e'.weight < e.weight

theorem Settles.le (settles : Settles e e') : e'.weight ≤ e.weight := by
  rcases settles with rfl | ⟨_, less⟩ <;> omega

theorem Settles.eq_of_le (settles : Settles e e') (back : e.weight ≤ e'.weight) : e' = e :=
  settles.resolve_right fun less => absurd less.2 (Nat.not_lt.2 back)

theorem Settles.trans {e'' : Expr} (first : Settles e e') (second : Settles e' e'') : Settles e e'' := by
  rcases first with rfl | ⟨large, less⟩
  · exact second
  · exact .inr ⟨large, second.le.trans_lt less⟩

theorem weights_le_of_settles (each : List.Forall₂ Settles es es') : weights es' ≤ weights es := by
  induction each with
  | nil => exact Nat.le_refl _
  | cons here _ ih => exact Nat.add_le_add here.le ih

/-- A new null in front of the last operand makes up for the disorder that it brings. -/
theorem null_of_settles (each : List.Forall₂ Settles es es') (null : es'.dropLast.any isNull = true) :
    es.dropLast.any isNull = true ∨ weights es' + 2 ≤ weights es := by
  induction each with
  | nil => exact .inl null
  | @cons e e' rest rest' here later ih =>
    cases later with
    | nil => cases null
    | @cons x x' xs xs' first others =>
      have below := weights_le_of_settles (List.Forall₂.cons first others)
      rw [List.dropLast_cons_cons, List.any_cons, Bool.or_eq_true] at null ⊢
      rw [weights_cons e', weights_cons e]
      rcases null with null | null
      · rcases here with rfl | ⟨large, less⟩
        · exact .inl (.inl null)
        · have := four_le_weight large
          have light : e'.weight ≤ 2 := by
            cases e' with
            | lit v => exact weight_lit_le v
            | _ => cases null
          right
          omega
      · have := here.le
        rcases ih null with before | less
        · exact .inl (.inr before)
        · right
          omega

theorem constant_of_settles (settles : Settles e e') (constant : e'.isConstant = true) :
    e.isConstant = true ∨ e'.weight + 2 ≤ e.weight := by
  rcases settles with rfl | ⟨large, less⟩
  · exact .inl constant
  · have light : e'.weight ≤ 4 := by
      cases e' with
      | lit v => exact (weight_lit_le v).trans (by omega)
      | param => exact Nat.le_refl 4
      | _ => cases constant
    cases e with
    | lit => cases large
    | param => exact .inl rfl
    | ref =>
      cases e' with
      | lit v => exact .inr (Nat.add_le_add_right (weight_lit_le v) 2)
      | param => exact absurd less (Nat.lt_irrefl 4)
      | _ => cases constant
    | call op es ty =>
      have := weights_add_six_le op es ty
      right
      omega

theorem Settles.constant (settles : Settles e e') (constant : e.isConstant = true) : e'.isConstant = true := by
  rcases settles with rfl | ⟨large, less⟩
  · exact constant
  · cases e with
    | lit => cases large
    | param =>
      cases literal : e'.isLiteral with
      | true =>
        cases e' with
        | lit => rfl
        | _ => cases literal
      | false => exact absurd (four_le_weight literal) (Nat.not_le.2 less)
    | _ => cases constant

/-- A constant that comes to stand on the left makes up for the disorder that it brings. -/
theorem constantFirst_of_settles (each : List.Forall₂ Settles es es') (first : constantFirst es' = true) :
    constantFirst es = true ∨ weights es' + 2 ≤ weights es := by
  cases each with
  | nil => cases first
  | @cons a a' _ _ left later =>
    cases later with
    | nil => cases first
    | @cons b b' _ _ right others =>
      cases others with
      | cons => cases first
      | nil =>
        rw [constantFirst, Bool.and_eq_true, Bool.not_eq_true'] at first ⊢
        have other : b.isConstant = false := by
          rw [Bool.eq_false_iff]
          intro constant
          rw [right.constant constant] at first
          cases first.2
        have := right.le
        simp only [weights]
        rcases constant_of_settles left first.1 with constant | less
        · exact .inl ⟨constant, other⟩
        · right
          omega

theorem disorder_of_settles (op : Op) (ty : SqlType) (each : List.Forall₂ Settles es es') :
    disorder op es' ty ≤ disorder op es ty ∨ weights es' + 2 ≤ weights es := by
  have order {a b : Bool} (implies : a = true → b = true ∨ weights es' + 2 ≤ weights es) :
      a.toNat ≤ b.toNat ∨ weights es' + 2 ≤ weights es := by
    cases a with
    | false => exact .inl (Nat.zero_le _)
    | true => exact (implies rfl).imp_left fun same => by rw [same]
  cases op with
  | eq | ne | lt | le | gt | ge => exact order (constantFirst_of_settles each)
  | and | or =>
    refine order fun untidy => ?_
    rw [isUntidy, Bool.or_eq_true] at untidy ⊢
    rcases untidy with other | null
    · exact .inl (.inl other)
    · exact (null_of_settles each null).imp_left .inr
  | _ => exact .inl (Nat.le_refl _)

theorem settles_call (op : Op) (ty : SqlType) (each : List.Forall₂ Settles es es') :
    Settles (call op es ty) (call op es' ty) := by
  have same : es' = es ∨ weights es' < weights es := by
    induction each with
    | nil => exact .inl rfl
    | @cons e e' rest rest' here later ih =>
      have below := weights_le_of_settles later
      rw [weights_cons, weights_cons]
      rcases here with rfl | ⟨_, less⟩
      · rcases ih with rfl | less
        · exact .inl rfl
        · right
          omega
      · right
        omega
  rcases same with rfl | less
  · exact .inl rfl
  · have count := each.length_eq
    have order := disorder_of_settles op ty each
    have := disorder_le_one op es' ty
    refine .inr ⟨rfl, ?_⟩
    cases op <;> simp only [weight] <;> omega

section Connectives

variable {stop : Bool} {mode : Mode}

theorem load_flattenTerm (stop : Bool) (e : Expr) :
    flattenTerm (connective stop) e = [e] ∨ load (flattenTerm (connective stop) e) < load [e] := by
  induction e using induction with
  | call op es ty ih =>
    rw [flattenTerm]
    split
    · next same =>
      subst same
      right
      have below : load (flatten (connective stop) es) ≤ load es := by
        clear ty
        induction es with
        | nil => exact Nat.le_refl _
        | cons e rest later =>
          rw [List.forall_mem_cons] at ih
          rw [flatten, load_append, load_cons]
          have := later ih.2
          rcases ih.1 with same | less
          · rw [same, load_singleton]
            omega
          · rw [load_singleton] at less
            omega
      rw [load_singleton, weight_connective]
      omega
    · exact .inl rfl
  | _ => exact .inl (by rw [flattenTerm]; simp)

theorem load_flatten (stop : Bool) (es : List Expr) :
    flatten (connective stop) es = es ∨ load (flatten (connective stop) es) < load es := by
  induction es with
  | nil => exact .inl rfl
  | cons e rest ih =>
    rw [flatten, load_append, load_cons]
    rcases load_flattenTerm stop e with same | less
    · rw [same, load_singleton]
      rcases ih with all | less
      · exact .inl (by rw [all]; rfl)
      · right
        omega
    · rw [load_singleton] at less
      right
      rcases ih with all | less'
      · rw [all]
        omega
      · omega

theorem load_flatten_le (stop : Bool) (es : List Expr) : load (flatten (connective stop) es) ≤ load es := by
  rcases load_flatten stop es with same | less
  · rw [same]
  · exact Nat.le_of_lt less

theorem load_remaining_le (stop : Bool) (mode : Mode) (es : List Expr) :
    load (remaining stop mode es) ≤ load (flatten (connective stop) es) := by
  unfold remaining
  split
  · next keeps =>
    obtain ⟨x, mem, null⟩ := List.any_eq_true.1 (Bool.and_eq_true_iff.1 keeps).2
    obtain ⟨before, after, split⟩ := List.append_of_mem mem
    have below := load_le_of_sublist (terms_sublist null split)
    rw [load_append] at below
    rw [split, eq_nullLit null, load_append, load_append, load_cons nullLit after, load_singleton]
    omega
  · exact load_le_of_sublist ((distinct_sublist _).trans List.filter_sublist)

theorem weight_junction_le (stop : Bool) (tidy : es.dropLast.any isNull = false) :
    (junction stop es).weight ≤ load es + 9 := by
  rcases junction_cases stop es with ⟨rfl, same⟩ | ⟨e, rfl, same⟩ | ⟨_, same⟩
  · rw [same]
    exact (weight_lit_le _).trans (by omega)
  · rw [same, load_singleton]
    omega
  · have order : disorder (connective stop) es .boolean = 0 := by
      cases stop <;> simp [disorder, isUntidy, connective, tidy]
    rw [same, weight_connective, order]

theorem weight_simplifyConnective_le (stop : Bool) (mode : Mode) (es : List Expr) :
    (simplifyConnective stop mode es).weight ≤ load es + 9 := by
  unfold simplifyConnective
  split
  · exact (weight_lit_le _).trans (by omega)
  · have := weight_junction_le stop (remaining_tidy stop mode es)
    have := load_remaining_le stop mode es
    have := load_flatten_le stop es
    omega

theorem settles_simplifyConnective (stop : Bool) (mode : Mode) (es : List Expr) (ty : SqlType) :
    Settles (call (connective stop) es ty) (simplifyConnective stop mode es) := by
  by_cases tidy : isUntidy (connective stop) es ty = true
  · refine .inr ⟨rfl, ?_⟩
    have := weight_simplifyConnective_le stop mode es
    rw [weight_connective, disorder, tidy, Bool.toNat_true]
    omega
  · have order : decide (ty ≠ .boolean) = false ∧ es.dropLast.any isNull = false := by
      cases stop <;> simpa [isUntidy, connective] using tidy
    obtain rfl : ty = .boolean := by simpa using order.1
    have lighter (less : load (remaining stop mode es) < load es) :
        (junction stop (remaining stop mode es)).weight < (call (connective stop) es .boolean).weight := by
      have := weight_junction_le stop (remaining_tidy stop mode es)
      rw [weight_connective]
      omega
    unfold simplifyConnective
    split
    · refine .inr ⟨rfl, ?_⟩
      have := weight_lit_le (.bool stop)
      rw [weight_connective]
      omega
    · rcases load_flatten stop es with flat | less
      · have part := remaining_sublist mode (flat.symm ▸ order.2)
        rw [flat] at part
        rcases load_of_sublist part with all | less
        · rw [all]
          rcases junction_cases stop es with ⟨_, same⟩ | ⟨e, rfl, same⟩ | ⟨_, same⟩
          · refine .inr ⟨rfl, ?_⟩
            have := weight_lit_le (.bool !stop)
            rw [same, weight_connective]
            omega
          · refine .inr ⟨rfl, ?_⟩
            rw [same, weight_connective, load_singleton]
            omega
          · exact .inl same
        · exact .inr ⟨rfl, lighter less⟩
      · exact .inr ⟨rfl, lighter ((load_remaining_le stop mode es).trans_lt less)⟩

end Connectives

section Rules

variable {mode : Mode}

theorem weight_negated (e : Expr) : e.negated.weight = 7 * e.weight + 6 := rfl

theorem le_weight_of_negates (negates : op = .not ∨ op = .isFalse) (e : Expr) (ty : SqlType) :
    7 * e.weight + 6 ≤ (call op [e] ty).weight := by
  rcases negates with rfl | rfl <;> rw [weight, weights] <;> omega

theorem weight_negation? {negated : Op} (found : op.negation? = some negated) (es : List Expr) (ty : SqlType) :
    (call negated es ty).weight = (call op es ty).weight := by
  cases op <;> cases found <;> rfl

theorem weight_joined (stop : Bool) (mode : Mode) (ty : SqlType)
    (each : ∀ e ∈ es, (e.simplifyNot .value).weight ≤ 7 * e.weight + 6) :
    (simplifyConnective stop mode (es.map (simplifyNot .value))).weight <
      7 * (call (connective !stop) es ty).weight + 6 := by
  have below : load (es.map (simplifyNot .value)) ≤ 7 * load es := by
    induction es with
    | nil => exact Nat.le_refl _
    | cons _ _ ih =>
      rw [List.forall_mem_cons] at each
      rw [List.map_cons, load_cons, load_cons]
      have := each.1
      have := ih each.2
      omega
  have := weight_simplifyConnective_le stop mode (es.map (simplifyNot .value))
  rw [weight_connective]
  omega

theorem weight_simplifyNot (mode : Mode) (e : Expr) :
    e.simplifyNot mode = e.negated ∨ (e.simplifyNot mode).weight < 7 * e.weight + 6 := by
  induction e using simplifyNot_induction generalizing mode with
  | kept e same => exact .inl (same mode)
  | decided t same =>
    rw [same]
    exact .inr ((weight_lit_le _).trans_lt (by omega))
  | undone x ty same =>
    right
    have := weights_add_six_le .not [x] ty
    rw [weights_cons] at this
    rw [same]
    omega
  | opposed op negated es ty found same =>
    right
    rw [same, weight_negation? found]
    omega
  | joined stop es ty same ih =>
    right
    rw [same]
    refine weight_joined stop mode ty fun e mem => ?_
    rcases ih e mem .value with kept | less
    · rw [kept, weight_negated]
    · exact Nat.le_of_lt less

theorem weight_simplifyNot_le (mode : Mode) (e : Expr) : (e.simplifyNot mode).weight ≤ 7 * e.weight + 6 := by
  rcases weight_simplifyNot mode e with same | less
  · rw [same, weight_negated]
  · exact Nat.le_of_lt less

theorem settles_simplifyNot (mode : Mode) (e : Expr) (ty : SqlType) :
    Settles (call .not [e] ty) (e.simplifyNot mode) := by
  have whole : (call .not [e] ty).weight = 7 * e.weight + 6 + disorder .not [e] ty := by
    rfl
  rcases weight_simplifyNot mode e with same | less
  · rw [same]
    by_cases boolean : ty = .boolean
    · exact .inl (by rw [boolean]; rfl)
    · refine .inr ⟨rfl, ?_⟩
      have order : disorder .not [e] ty = 1 := by simp [disorder, isUntidy, boolean]
      rw [weight_negated]
      omega
  · refine .inr ⟨rfl, ?_⟩
    omega

theorem weight_comparison (comparison : op.isComparison = true) (es : List Expr) (ty : SqlType) :
    (call op es ty).weight = load es + 9 + (constantFirst es).toNat := by
  cases op with
  | eq | ne | lt | le | gt | ge => rfl
  | _ => cases comparison

theorem settles_simplifyComparison (comparison : op.isComparison = true) (es : List Expr) (ty : SqlType) :
    Settles (call op es ty) (simplifyComparison op es ty) := by
  rcases simplifyComparison_cases comparison es ty with
    ⟨b, decided⟩ | same | ⟨reversed, a, b, found, rfl, first, turned, _⟩
  · refine .inr ⟨rfl, ?_⟩
    have := weight_lit_le (.bool b)
    rw [decided, weight_comparison comparison]
    omega
  · exact .inl same
  · refine .inr ⟨rfl, ?_⟩
    have last : constantFirst [b, a] = false := by simp_all [constantFirst]
    rw [turned, weight_comparison comparison, weight_comparison (Op.isComparison_of_reversal? found).2, first, last]
    simp only [load_cons, Bool.toNat_true, Bool.toNat_false]
    omega

theorem weight_typedLiteral_le (v : Value) (ty : SqlType) : (typedLiteral v ty).weight ≤ 8 := by
  unfold typedLiteral
  split
  · exact Nat.le_refl 8
  · exact (weight_lit_le v).trans (by omega)

theorem settles_simplifyCase (es : List Expr) (ty : SqlType) : Settles (call .case es ty) (simplifyCase es ty) := by
  have whole : (call .case es ty).weight = load es + 9 := rfl
  have part := liveBranches_sublist es
  unfold simplifyCase
  split
  · next otherwise found =>
    refine .inr ⟨rfl, ?_⟩
    cases otherwise with
    | none => exact (weight_typedLiteral_le _ _).trans_lt (by omega)
    | some =>
      rw [found] at part
      have := weight_lt_load (part.subset (.head _))
      exact this.trans_le (Nat.le_add_right _ 9)
  · next branches otherwise _ found =>
    rw [found] at part
    rcases load_of_sublist part with same | less
    · exact .inl (by rw [same])
    · refine .inr ⟨rfl, ?_⟩
      exact Nat.add_lt_add_right less 9

theorem settles_simplifyCoalesce (es : List Expr) (ty : SqlType) :
    Settles (call .coalesce es ty) (simplifyCoalesce es ty) := by
  have whole : (call .coalesce es ty).weight = load es + 9 := rfl
  have part : (coalesceTerms [] es).Sublist es := coalesceTerms_sublist [] es
  unfold simplifyCoalesce
  split
  · exact .inr ⟨rfl, (weight_typedLiteral_le _ _).trans_lt (by omega)⟩
  · next e found =>
    rw [found] at part
    have := weight_lt_load (part.subset (.head _))
    exact .inr ⟨rfl, this.trans_le (Nat.le_add_right _ 9)⟩
  · rcases load_of_sublist part with same | less
    · exact .inl (by rw [same])
    · exact .inr ⟨rfl, Nat.add_lt_add_right less 9⟩

theorem settles_foldConstant (folded : foldConstant? op es ty = some e) : Settles (call op es ty) e := by
  obtain ⟨nonempty, literals, typed, v, _, rfl⟩ := foldConstant_eq_some folded
  have light := weight_typedLiteral_le v ty
  refine .inr ⟨rfl, light.trans_lt ?_⟩
  cases es with
  | nil => exact absurd rfl nonempty
  | cons x rest =>
    have literal := literals x (.head _)
    have here : x.isNull = false → x.weight = 2 := by
      cases x with
      | lit => exact fun present => if_neg (by simpa [isNull] using present)
      | _ => cases literal
    have positive : 1 ≤ x.weight := by
      cases x with
      | lit =>
        rw [weight]
        split <;> omega
      | _ => cases literal
    cases op with
    | cast =>
      have present : x.isNull = false := by simpa using typed
      simp only [weight, weights_cons, here present, List.length_cons]
      omega
    | _ =>
      simp only [weight, weights_cons, List.length_cons]
      omega

end Rules

/-- Operands that weigh the same in every call. -/
structure Alike (e e' : Expr) : Prop where
  weight : e.weight = e'.weight
  null : e.isNull = e'.isNull
  constant : e.isConstant = e'.isConstant

theorem weight_of_alike (op : Op) (ty : SqlType) (each : List.Forall₂ Alike es es') :
    (call op es ty).weight = (call op es' ty).weight := by
  have total : weights es = weights es' := by
    induction each with
    | nil => rfl
    | cons here _ ih => rw [weights_cons, weights_cons, here.weight, ih]
  have nulls : es.dropLast.any isNull = es'.dropLast.any isNull := by
    have same : es.map isNull = es'.map isNull := by
      rw [← List.forall₂_eq_eq_eq, List.forall₂_map_left_iff, List.forall₂_map_right_iff]
      exact each.imp fun _ _ here => here.null
    have all (es : List Expr) : es.dropLast.any isNull = (es.map isNull).dropLast.any id := by
      rw [← List.map_dropLast, List.any_map, Function.id_comp]
    rw [all, all, same]
  have first : constantFirst es = constantFirst es' := by
    cases each with
    | nil => rfl
    | cons left later =>
      cases later with
      | nil => rfl
      | cons right others =>
        cases others with
        | nil => rw [constantFirst, constantFirst, left.constant, right.constant]
        | cons => rfl
  have order : disorder op es ty = disorder op es' ty := by
    cases op <;> simp only [disorder, isUntidy, nulls, first]
  cases op <;> simp only [weight, total, order, each.length_eq]

theorem weight_of_same {a b : Expr} (same : a.same b = true) : a.weight = b.weight := by
  refine (same_induction (R := Alike) (fun _ _ _ => ⟨rfl, rfl, rfl⟩) (fun v w same => ?_) (fun _ _ => ⟨rfl, rfl, rfl⟩)
    (fun op _ _ ty each => ⟨weight_of_alike op ty each, rfl, rfl⟩) same).weight
  have null := isNull_of_same same
  exact ⟨by rw [weight, weight, null], null, rfl⟩

end Expr

end FederatedQuery
