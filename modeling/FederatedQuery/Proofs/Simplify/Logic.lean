import FederatedQuery.Proofs.Simplify.Closure
import FederatedQuery.Proofs.Simplify.Refinement

/-!
Soundness of the rules for conjunctions, disjunctions and negations.
-/
namespace FederatedQuery

namespace Op

variable {op negated : Op} {args : List Value} {ty : SqlType}

theorem isStrict_of_isComparison (comparison : op.isComparison = true) : op.isStrict = true := by
  cases op with
  | eq | ne | lt | le | gt | ge => rfl
  | _ => cases comparison

theorem applyValues_strict (args : List Value) (ty : SqlType) (strict : op.isStrict = true) :
    op.applyValues args ty = if args.any Value.isNull then .ok .null else op.applyStrict args ty := by
  cases op with
  | and | or | isNull | isNotNull | isTrue | isFalse | case | coalesce | item | arrayValue | unwind =>
    cases strict
  | _ => simp [applyValues]

theorem applyValues_pair (comparison : op.isComparison = true) (a b : Value) (ty : SqlType) :
    op.applyValues [a, b] ty = (a.sqlCompare b).map fun o => Truth.toValue (o.map op.holds) := by
  rw [applyValues_strict _ _ (isStrict_of_isComparison comparison)]
  by_cases null : [a, b].any Value.isNull = true
  · rw [if_pos null, Value.sqlCompare, if_pos (by simpa using null)]
    rfl
  · rw [if_neg null]
    cases op with
    | eq | ne | lt | le | gt | ge =>
      rw [applyStrict]
      cases a.sqlCompare b <;> rfl
    | _ => cases comparison

/-- A comparison is of two values, or finds a null among others. -/
theorem eq_pair_of_applyValues (comparison : op.isComparison = true) {v : Value}
    (applied : op.applyValues args ty = .ok v) : args.any Value.isNull = true ∧ v = .null ∨ ∃ a b, args = [a, b] := by
  rw [applyValues_strict _ _ (isStrict_of_isComparison comparison)] at applied
  by_cases null : args.any Value.isNull = true
  · rw [if_pos null] at applied
    cases applied
    exact .inl ⟨null, rfl⟩
  · rw [if_neg null] at applied
    match args with
    | [a, b] => exact .inr ⟨a, b, rfl⟩
    | [] | [_] | _ :: _ :: _ :: _ =>
      cases op with
      | eq | ne | lt | le | gt | ge => simp [applyStrict] at applied
      | _ => cases comparison

theorem holds_negation (found : op.negation? = some negated) (comparison : op.isComparison = true) (o : Ordering) :
    negated.holds o = !op.holds o := by
  cases op with
  | eq | ne | lt | le | gt | ge =>
    cases found
    cases o <;> rfl
  | _ => cases comparison

theorem negation?_symm (found : op.negation? = some negated) : negated.negation? = some op := by
  cases op <;> cases found <;> rfl

theorem isComparison_of_negation? (found : op.negation? = some negated) : negated.isComparison = op.isComparison := by
  cases op <;> cases found <;> rfl

/-- What has a negation gives a truth value, and the negation gives the opposite. -/
theorem applyValues_negation (found : op.negation? = some negated) {v : Value}
    (applied : op.applyValues args ty = .ok v) :
    ∃ t : Truth, v = t.toValue ∧ negated.applyValues args ty = .ok (Truth.toValue (t.map (!·))) := by
  by_cases comparison : op.isComparison = true
  · have comparison' : negated.isComparison = true := isComparison_of_negation? found ▸ comparison
    rcases eq_pair_of_applyValues comparison applied with ⟨null, rfl⟩ | ⟨a, b, rfl⟩
    · refine ⟨none, rfl, ?_⟩
      rw [applyValues_strict _ _ (isStrict_of_isComparison comparison'), if_pos null]
      rfl
    · rw [applyValues_pair comparison, map_eq_ok] at applied
      obtain ⟨o, order, rfl⟩ := applied
      refine ⟨_, rfl, ?_⟩
      rw [applyValues_pair comparison', order, Except.map]
      cases o with
      | none => rfl
      | some => simp [holds_negation found comparison]
  · cases op with
    | isNull | isNotNull =>
      cases found
      rcases args with _ | ⟨v, _ | ⟨w, rest⟩⟩
      · simp [applyValues] at applied
      · cases applied
        exact ⟨some _, rfl, by simp [applyValues, Truth.toValue]⟩
      · simp [applyValues] at applied
    | eq | ne | lt | le | gt | ge => exact absurd rfl comparison
    | _ => cases found

theorem holds_reversal {reversed : Op} (found : op.reversal? = some reversed) (o : Ordering) :
    reversed.holds o.swap = op.holds o := by
  cases op <;> cases found <;> cases o <;> rfl

end Op

namespace Expr

/-- What the rules ask of a subterm: declarations that the row keeps, and no floats. -/
structure Admissible (row : Row) (x : Expr) : Prop where
  present : x.ReadsPresent row
  free : x.FloatFree

theorem FloatFree.zeroSigned {x : Expr} (free : x.FloatFree) (negative : Bool) : x.ZeroSigned negative := by
  cases x with
  | lit v =>
    intro y mem
    rw [show v.floats = [] from free] at mem
    cases mem
  | _ => trivial

theorem stable_floatFree : Stable FloatFree where
  bool _ := rfl
  null := rfl
  castNull _ := .inr ⟨nullLit, by simp, rfl⟩
  logical {op} _ _ logical := by
    cases op with
    | cast => cases logical
    | _ => trivial
  rebuilt {op} _ _ _ here nulls := by
    cases op with
    | cast =>
      rcases here with fixed | ⟨e, mem, null⟩
      · exact .inl fixed
      · obtain ⟨e', mem', kept⟩ := exists_of_forall₂_right nulls.flip mem
        exact .inr ⟨e', mem', kept null⟩
    | _ => trivial
  folded {_ _ _ _} here operands value := by
    refine eval_floats (everywhere_call.2 ⟨here, fun e mem => ?_⟩)
      (List.forall_mem_nil _) (fun _ _ found => by cases found) value
    obtain ⟨literal, free⟩ := operands e mem
    cases e with
    | lit => exact everywhere_lit.2 free
    | _ => cases literal

theorem stable_admissible (row : Row) : Stable (Admissible row) where
  bool b := ⟨trivial, stable_floatFree.bool b⟩
  null := ⟨trivial, stable_floatFree.null⟩
  castNull ty := ⟨trivial, stable_floatFree.castNull ty⟩
  logical is := ⟨trivial, stable_floatFree.logical is⟩
  rebuilt here nulls := ⟨trivial, stable_floatFree.rebuilt here.free nulls⟩
  folded here operands value := ⟨trivial, stable_floatFree.folded here.free
    (fun e mem => ⟨(operands e mem).1, (operands e mem).2.free⟩) value⟩

variable {row : Row} {params : Bindings} {mode : Mode} {stop : Bool} {e : Expr} {es : List Expr} {ty : SqlType}
  {t : Truth}

theorem Everywhere.zeroSigned (all : e.Everywhere (Admissible row)) : e.Everywhere (ZeroSigned false) :=
  all.mono fun _ here => here.free.zeroSigned false

theorem eval_ne_null_of_admissible {v : Value} (all : e.Everywhere (Admissible row)) (never : e.nullable = false)
    (value : e.eval row params = .ok v) : v.isNull = false :=
  eval_ne_null never (all.mono fun _ here => here.present) value

theorem eval_not (e : Expr) (ty : SqlType) : (call .not [e] ty).eval row params =
    (e.truthAt row params).map fun t => Truth.toValue (t.map (!·)) := by
  rw [eval_eager rfl, evalAll, truthAt]
  cases e.eval row params with
  | error => rfl
  | ok v => cases v <;> rfl

theorem truthAt_not (e : Expr) (ty : SqlType) :
    (call .not [e] ty).truthAt row params = (e.truthAt row params).map (Option.map (!·)) := by
  rw [truthAt, eval_not]
  cases e.truthAt row params with
  | error => rfl
  | ok => exact Truth.truth_toValue _

theorem map_not_not (t : Truth) : (t.map (!·)).map (!·) = t := by
  cases t <;> simp

theorem eval_negation? {op negated : Op} (found : op.negation? = some negated) {v : Value}
    (value : (call op es ty).eval row params = .ok v) :
    ∃ t : Truth, v = t.toValue ∧ (call negated es ty).eval row params = .ok (Truth.toValue (t.map (!·))) := by
  have eager : op.isEager = true ∧ negated.isEager = true := by
    cases op <;> cases found <;> exact ⟨rfl, rfl⟩
  rw [eval_eager eager.1] at value
  obtain ⟨args, all, applied⟩ := bind_eq_ok.1 value
  rw [eval_eager eager.2, all]
  exact Op.applyValues_negation found applied

theorem truthAt_negation? {op negated : Op} (found : op.negation? = some negated)
    (known : (call op es ty).truthAt row params = .ok t) :
    (call negated es ty).truthAt row params = .ok (t.map (!·)) := by
  obtain ⟨u, same, opposite⟩ := eval_negation? found (truthAt_eq_ok.1 known)
  have truths := congrArg Value.truth same
  rw [Truth.truth_toValue, Truth.truth_toValue, Except.ok.injEq] at truths
  exact truthAt_eq_ok.2 (truths ▸ opposite)

theorem truthAt_negated : e.negated.truthAt row params = .ok t ↔ e.truthAt row params = .ok (t.map (!·)) := by
  rw [negated, apply, truthAt_not, map_eq_ok]
  constructor
  · rintro ⟨u, known, rfl⟩
    rw [map_not_not, known]
  · exact fun known => ⟨_, known, map_not_not t⟩

theorem truthAt_negation : e.negation.truthAt row params = .ok t ↔ e.truthAt row params = .ok (t.map (!·)) := by
  unfold negation
  split
  · rename_i x ty
    rw [truthAt_not, map_eq_ok]
    constructor
    · exact fun known => ⟨t, known, rfl⟩
    · rintro ⟨u, known, same⟩
      rw [known, ← map_not_not u, same, map_not_not]
  · rename_i op operands ty _
    split
    · rename_i negated found
      constructor
      · exact truthAt_negation? (Op.negation?_symm found)
      · intro known
        rw [← map_not_not t]
        exact truthAt_negation? found known
    · exact truthAt_negated
  · exact truthAt_negated

theorem truthAt_junction (es : List Expr) : (junction stop es).truthAt row params = evalUntil row params stop es := by
  rcases junction_cases stop es with ⟨rfl, same⟩ | ⟨e, rfl, same⟩ | ⟨_, same⟩ <;> rw [same]
  · rfl
  · rw [evalUntil_singleton]
  · rw [truthAt_connective]

theorem truthAt_of_isNull (null : e.isNull = true) : e.truthAt row params = .ok none := by
  cases e with
  | lit v => cases v <;> first | rfl | cases null
  | _ => cases null

theorem truthAt_of_isBool {b : Bool} (literal : e.isBool b = true) : e.truthAt row params = .ok (some b) := by
  cases e with
  | lit v =>
    cases v with
    | bool c => cases b <;> cases c <;> first | rfl | cases literal
    | _ => cases b <;> cases literal
  | _ => cases b <;> cases literal

/-- One unknown operand at the end stands for all unknown operands. -/
theorem evalUntil_unknown_last (es : List Expr) :
    evalUntil row params stop (es ++ [nullLit]) =
      (evalUntil row params stop es).map (Truth.join stop none) := by
  rw [evalUntil_append, evalUntil_singleton, truthAt_of_isNull rfl]
  cases evalUntil row params stop es with
  | error => rfl
  | ok t =>
    rw [ok_bind]
    split
    · rename_i stops
      simp [Truth.join, Except.map, stops]
    · rcases t with _ | _ | _ <;> simp_all [Truth.join, Except.map]

theorem stops_of_mem (outcome : evalUntil row params stop es = .ok t) (mem : e ∈ es)
    (decided : e.truthAt row params = .ok (some stop)) : t = some stop := by
  by_contra passed
  obtain ⟨u, known, passes, _⟩ := truthAt_of_passed outcome passed mem
  rw [decided, Except.ok.injEq] at known
  exact passes known.symm

theorem stops_or_unknown_of_mem (outcome : evalUntil row params stop es = .ok t) (mem : e ∈ es)
    (unknown : e.truthAt row params = .ok none) : t = some stop ∨ t = none := by
  by_cases stops : t = some stop
  · exact .inl stops
  · obtain ⟨u, known, _, undecided⟩ := truthAt_of_passed outcome stops mem
    rw [unknown, Except.ok.injEq] at known
    exact .inr (undecided known.symm)

theorem evalUntil_of_unknown (mem : e ∈ es) (unknown : e.truthAt row params = .ok none) :
    (evalUntil row params stop es).map (Truth.join stop none) = evalUntil row params stop es := by
  cases outcome : evalUntil row params stop es with
  | error => rfl
  | ok =>
    refine congrArg Except.ok ?_
    rcases stops_or_unknown_of_mem outcome mem unknown with rfl | rfl
    · simp [Truth.join]
    · rfl

theorem admissible_flatten (all : ∀ e ∈ es, e.Everywhere (Admissible row)) :
    ∀ x ∈ flatten (connective stop) es, x.Everywhere (Admissible row) :=
  fun _ mem => (of_mem_flatten Everywhere.operands all mem).1

theorem admissible_terms (all : ∀ e ∈ es, e.Everywhere (Admissible row)) :
    ∀ x ∈ terms stop es, x.Everywhere (Admissible row) :=
  fun x mem => admissible_flatten all x (List.mem_of_mem_filter (mem_of_mem_distinct mem))

theorem evalUntil_filter_null (outcome : evalUntil row params stop es = .ok t) (null : es.any isNull = true) :
    (evalUntil row params stop (es.filter fun e => !e.isNull)).map (Truth.join stop none) = .ok t := by
  rw [evalUntil_filter_unknown, ← outcome]
  · obtain ⟨e, mem, isNull⟩ := List.any_eq_true.1 null
    exact evalUntil_of_unknown mem (truthAt_of_isNull isNull)
  · intro e _ dropped
    exact truthAt_of_isNull (by simpa using dropped)

theorem filter_not_null (null : ¬es.any isNull = true) : es.filter (fun e => !e.isNull) = es := by
  rw [List.filter_eq_self]
  intro e mem
  simpa using fun isNull => null (List.any_eq_true.2 ⟨e, mem, isNull⟩)

/-- Operands that contradict each other stop the evaluation, or are unknown. -/
theorem stops_of_contradiction (mem : e ∈ es) (opposite : e.negation ∈ es)
    (outcome : evalUntil row params stop es = .ok t) : t = some stop ∨ t = none ∧ e.truthAt row params = .ok none := by
  by_cases stops : t = some stop
  · exact .inl stops
  · obtain ⟨u, known, passes, unknown⟩ := truthAt_of_passed outcome stops mem
    obtain ⟨u', known', passes', _⟩ := truthAt_of_passed outcome stops opposite
    rw [truthAt_negation, known, Except.ok.injEq] at known'
    have undecided : u = none := by
      rcases u' with _ | _ | _ <;> cases stop <;> simp_all
    exact .inr ⟨unknown undecided, undecided ▸ known⟩

theorem nullable_of_isDecided (decided : e.isDecided = true) : e.nullable = false := by
  cases e with
  | call op operands ty => cases op <;> simp_all [isDecided, op?, nullable]
  | _ => simpa [isDecided, op?] using decided

theorem truthAt_ne_none (all : e.Everywhere (Admissible row)) (never : e.nullable = false) :
    e.truthAt row params ≠ .ok none := by
  intro unknown
  have present := eval_ne_null_of_admissible all never (truthAt_eq_ok.1 unknown)
  cases present

/-- What the terms come to, and how the nulls left out enter the outcome. -/
theorem exists_terms_outcome (all : ∀ e ∈ es, e.Everywhere (Admissible row))
    (outcome : evalUntil row params stop (flatten (connective stop) es) = .ok t) :
    ∃ u, evalUntil row params stop (terms stop es) = .ok u ∧
      (if (flatten (connective stop) es).any isNull then Truth.join stop none u else u) = t := by
  have admissible : ∀ x ∈ flatten (connective stop) es, x.Everywhere (Admissible row) := admissible_flatten all
  rw [terms, evalUntil_distinct, ← List.filter_filter, evalUntil_filter_neutral]
  · by_cases null : (flatten (connective stop) es).any isNull = true
    · obtain ⟨u, kept, joined⟩ := map_eq_ok.1 (evalUntil_filter_null outcome null)
      exact ⟨u, kept, by rw [if_pos null, joined]⟩
    · exact ⟨t, by rw [filter_not_null null, outcome], by rw [if_neg null]⟩
  · intro e _ dropped
    exact truthAt_of_isBool (by simpa using dropped)
  · intro a mem b mem' same
    exact eq_of_same same (admissible a (List.mem_of_mem_filter mem)).zeroSigned
      (admissible b (List.mem_of_mem_filter mem')).zeroSigned

/-- A connective that is decided stops, or is unknown and a condition. -/
theorem allowsTruth_of_isStopped (all : ∀ e ∈ es, e.Everywhere (Admissible row))
    (outcome : evalUntil row params stop (flatten (connective stop) es) = .ok t)
    (stopped : isStopped stop mode es = true) : mode.AllowsTruth t (some stop) := by
  have unknown (stops : nullStops stop mode = true) : mode.AllowsTruth none (some stop) := by
    simp only [nullStops, Bool.and_eq_true, decide_eq_true_eq, Bool.not_eq_true'] at stops
    exact .inr ⟨stops.1, rfl, by rw [stops.2]⟩
  rw [isStopped, Bool.or_eq_true, Bool.or_eq_true, Bool.and_eq_true] at stopped
  rcases stopped with (literal | ⟨stops, null⟩) | contradicts
  · obtain ⟨e, mem, literal⟩ := List.any_eq_true.1 literal
    exact .inl (stops_of_mem outcome mem (truthAt_of_isBool literal)).symm
  · obtain ⟨e, mem, null⟩ := List.any_eq_true.1 null
    rcases stops_or_unknown_of_mem outcome mem (truthAt_of_isNull null) with rfl | rfl
    · exact .inl rfl
    · exact unknown stops
  · obtain ⟨u, known, joined⟩ := exists_terms_outcome all outcome
    obtain ⟨e, mem, both⟩ := List.any_eq_true.1 contradicts
    rw [Bool.and_eq_true, Bool.or_eq_true] at both
    have here := admissible_terms all e mem
    have opposite : e.negation ∈ terms stop es := mem_of_isIn both.2 ((stable_admissible row).negation here).zeroSigned
      fun x inside => (admissible_terms all x inside).zeroSigned
    rcases stops_of_contradiction mem opposite known with rfl | ⟨rfl, undecided⟩
    · refine .inl ?_
      rw [← joined]
      split
      · rw [Truth.join, if_pos rfl]
      · rfl
    · rcases both.1 with stops | decided
      · have undecided : t = none := by
          rw [← joined]
          split <;> rfl
        exact undecided ▸ unknown stops
      · exact absurd undecided (truthAt_ne_none here (nullable_of_isDecided decided))

theorem refines_simplifyConnective (stop : Bool) (all : ∀ e ∈ es, e.Everywhere (Admissible row)) :
    Refines row params mode (call (connective stop) es ty) (simplifyConnective stop mode es) := by
  refine refines_connective stop fun t outcome => ?_
  rw [← evalUntil_flatten] at outcome
  rw [simplifyConnective]
  split
  · next stopped => exact ⟨some stop, rfl, allowsTruth_of_isStopped all outcome stopped⟩
  · obtain ⟨u, known, joined⟩ := exists_terms_outcome all outcome
    rw [truthAt_junction, remaining]
    split
    · next keeps =>
      rw [if_pos (Bool.and_eq_true_iff.1 keeps).2] at joined
      exact ⟨t, by rw [evalUntil_unknown_last, known, ← joined, Except.map], .inl rfl⟩
    · next drops =>
      refine ⟨u, known, ?_⟩
      rw [← joined]
      split
      · next null =>
        -- The nulls are gone from a disjunction: what they made unknown may now be false.
        simp only [keepsNull, null, Bool.and_true, Bool.or_eq_true, decide_eq_true_eq, Bool.not_eq_true', not_or,
          Bool.not_eq_false] at drops
        obtain ⟨condition, rfl⟩ := drops
        have condition : mode = .condition := by cases mode <;> first | rfl | exact absurd rfl condition
        rcases u with _ | _ | _ <;> simp [Truth.join, Mode.AllowsTruth, condition]
      · exact .inl rfl

theorem evalUntil_negated {es' : List Expr} (each : List.Forall₂ (fun e e' => ∀ u, e.truthAt row params = .ok u →
      e'.truthAt row params = .ok (u.map (!·))) es es')
    (outcome : evalUntil row params stop es = .ok t) : evalUntil row params (!stop) es' = .ok (t.map (!·)) := by
  induction each generalizing t with
  | nil =>
    cases outcome
    rfl
  | cons first _ ih =>
    rw [evalUntil_cons] at outcome ⊢
    obtain ⟨u, known, outcome⟩ := bind_eq_ok.1 outcome
    rw [first u known, ok_bind]
    have stops : u.map (!·) = some (!stop) ↔ u = some stop := by
      rcases u with _ | _ | _ <;> cases stop <;> decide
    by_cases decided : u = some stop
    · rw [if_pos decided, Except.ok.injEq] at outcome
      rw [if_pos (stops.2 decided), outcome]
    · rw [if_neg decided, map_eq_ok] at outcome
      obtain ⟨w, later, joined⟩ := outcome
      rw [if_neg (mt stops.1 decided), ih later, ← joined]
      refine congrArg Except.ok ?_
      rcases u with _ | _ | _ <;> rcases w with _ | _ | _ <;> cases stop <;> rfl

theorem truthAt_negated_of (known : e.truthAt row params = .ok t) : e.negated.truthAt row params = .ok (t.map (!·)) :=
  truthAt_negated.2 (by rw [map_not_not, known])

theorem exists_truthAt_simplifyNot (mode : Mode) (all : e.Everywhere (Admissible row))
    (known : e.truthAt row params = .ok t) :
    ∃ t', (e.simplifyNot mode).truthAt row params = .ok t' ∧ mode.AllowsTruth (t.map (!·)) t' := by
  induction e using simplifyNot_induction generalizing mode t with
  | kept e same => exact ⟨_, same mode ▸ truthAt_negated_of known, .inl rfl⟩
  | decided u same =>
    rw [same]
    have known : u = t := by rcases u with _ | _ <;> cases known <;> rfl
    exact ⟨_, truthAt_eq_ok.2 rfl, .inl (by rw [known])⟩
  | undone x ty same =>
    rw [truthAt_not, map_eq_ok] at known
    obtain ⟨u, known, rfl⟩ := known
    exact ⟨u, same mode ▸ known, .inl (map_not_not u).symm⟩
  | opposed op negated es ty found same => exact ⟨_, same mode ▸ truthAt_negation? found known, .inl rfl⟩
  | joined stop es ty same ih =>
    rw [same]
    refine Refines.truthAt (e := call (connective stop) (es.map (simplifyNot .value)) ty)
      (refines_simplifyConnective stop (List.forall_mem_map.2 fun e mem => ?_)) ?_
    · exact (stable_admissible row).simplifyNot .value (all.operands e mem)
    · rw [truthAt_connective] at known ⊢
      rw [← Bool.not_not stop]
      refine evalUntil_negated ?_ known
      rw [List.forall₂_map_right_iff, List.forall₂_same]
      intro e mem u known
      obtain ⟨u', known', same | ⟨absurd, _⟩⟩ := ih e mem .value (all.operands e mem) known
      · rw [known', same]
      · cases absurd

theorem refines_simplifyNot (all : e.Everywhere (Admissible row)) :
    Refines row params mode (call .not [e] ty) (e.simplifyNot mode) := by
  intro v value
  rw [eval_not, map_eq_ok] at value
  obtain ⟨u, known, rfl⟩ := value
  obtain ⟨t', known', allowed⟩ := exists_truthAt_simplifyNot mode all known
  exact ⟨_, truthAt_eq_ok.1 known', Mode.allows_toValue.2 allowed⟩

end Expr

end FederatedQuery
