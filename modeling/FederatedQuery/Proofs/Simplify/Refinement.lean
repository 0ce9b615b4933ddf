import FederatedQuery.Proofs.Expr.Evaluation

/-!
Replacing an expression by one that gives the same value wherever it gives one. As a condition an
expression may also be replaced by one that is false where it is null. Calls are refined by refining
their operands.
-/
namespace FederatedQuery

/-- Whether a value may be replaced by another. -/
def Mode.Allows (mode : Mode) (v v' : Value) : Prop := v' = v ∨ mode = .condition ∧ v = .null ∧ v' = .bool false

variable {mode : Mode} {t t' : Truth}

theorem Mode.Allows.refl (v : Value) : mode.Allows v v := .inl rfl

theorem Mode.Allows.trans {a b c : Value} (first : mode.Allows a b) (second : mode.Allows b c) : mode.Allows a c := by
  rcases first with rfl | ⟨condition, rfl, rfl⟩
  · exact second
  · rcases second with rfl | ⟨_, absurd, _⟩
    · exact .inr ⟨condition, rfl, rfl⟩
    · cases absurd

/-- Whether a truth value may be replaced by another. -/
def Mode.AllowsTruth (mode : Mode) (t t' : Truth) : Prop := t' = t ∨ mode = .condition ∧ t = none ∧ t' = some false

theorem Mode.allows_toValue : mode.Allows t.toValue t'.toValue ↔ mode.AllowsTruth t t' := by
  rcases t with _ | _ | _ <;> rcases t' with _ | _ | _ <;> simp [Mode.Allows, Mode.AllowsTruth, Truth.toValue]

theorem Mode.AllowsTruth.join {stop : Bool} {u u' : Truth}
    (first : mode.AllowsTruth t t') (later : mode.AllowsTruth u u') (passes : t' ≠ some stop) :
    mode.AllowsTruth (Truth.join stop t u) (Truth.join stop t' u') := by
  rcases first with same | ⟨condition, rfl, rfl⟩
  · subst same
    rcases later with same | ⟨condition, rfl, rfl⟩
    · exact .inl (by rw [same])
    · rcases t' with _ | _ | _ <;> cases stop <;> simp_all [Truth.join, Mode.AllowsTruth]
  · have disjunctive : stop = true := by simpa using Ne.symm passes
    subst disjunctive
    rcases later with same | ⟨_, rfl, rfl⟩
    · subst same
      rcases u' with _ | _ | _ <;> simp [Truth.join, Mode.AllowsTruth, condition]
    · simp [Truth.join, Mode.AllowsTruth, condition]

namespace Expr

/-- On a row, one expression may stand in for another. -/
def Refines (row : Row) (params : Bindings) (mode : Mode) (e e' : Expr) : Prop :=
  ∀ v, e.eval row params = .ok v → ∃ v', e'.eval row params = .ok v' ∧ mode.Allows v v'

variable {row : Row} {params : Bindings} {mode : Mode} {stop : Bool} {e e' : Expr} {t : Truth} {es : List Expr}
  {es' : List Expr}

theorem Refines.refl (e : Expr) : Refines row params mode e e := fun v value => ⟨v, value, .refl v⟩

theorem Refines.trans {a b c : Expr} (first : Refines row params mode a b)
    (second : Refines row params mode b c) : Refines row params mode a c := by
  intro v value
  obtain ⟨w, value, allowed⟩ := first v value
  obtain ⟨u, value, allowed'⟩ := second w value
  exact ⟨u, value, allowed.trans allowed'⟩

theorem refines_value :
    Refines row params .value e e' ↔ ∀ v, e.eval row params = .ok v → e'.eval row params = .ok v := by
  constructor
  · intro refined v value
    obtain ⟨w, value, same | ⟨absurd, _⟩⟩ := refined v value
    · rw [value, same]
    · cases absurd
  · exact fun keeps v value => ⟨v, keeps v value, .refl v⟩

theorem Refines.of_value (refined : Refines row params .value e e') : Refines row params mode e e' :=
  fun v value => ⟨v, refines_value.1 refined v value, .refl v⟩

theorem truthAt_eq_ok : e.truthAt row params = .ok t ↔ e.eval row params = .ok t.toValue := by
  rw [truthAt, bind_eq_ok]
  constructor
  · rintro ⟨v, value, truth⟩
    rw [value, Value.toValue_of_truth truth]
  · exact fun value => ⟨_, value, t.truth_toValue⟩

theorem Refines.truthAt (refined : Refines row params mode e e') (known : e.truthAt row params = .ok t) :
    ∃ t', e'.truthAt row params = .ok t' ∧ mode.AllowsTruth t t' := by
  obtain ⟨v, value, allowed⟩ := refined _ (truthAt_eq_ok.1 known)
  rcases allowed with rfl | ⟨condition, null, rfl⟩
  · exact ⟨t, truthAt_eq_ok.2 value, .inl rfl⟩
  · refine ⟨some false, truthAt_eq_ok.2 value, .inr ⟨condition, ?_, rfl⟩⟩
    cases t with
    | none => rfl
    | some => cases null

theorem refines_connective (stop : Bool) {ty : SqlType} (refined : ∀ t, evalUntil row params stop es = .ok t →
      ∃ t', e'.truthAt row params = .ok t' ∧ mode.AllowsTruth t t') :
    Refines row params mode (call (connective stop) es ty) e' := by
  intro v value
  rw [eval_connective, map_eq_ok] at value
  obtain ⟨t, outcome, rfl⟩ := value
  obtain ⟨t', known, allowed⟩ := refined t outcome
  exact ⟨_, truthAt_eq_ok.1 known, Mode.allows_toValue.2 allowed⟩

theorem evalUntil_refined (each : List.Forall₂ (Refines row params mode) es es')
    (outcome : evalUntil row params stop es = .ok t) :
    ∃ t', evalUntil row params stop es' = .ok t' ∧ mode.AllowsTruth t t' := by
  induction each generalizing t with
  | nil => exact ⟨t, outcome, .inl rfl⟩
  | cons first _ ih =>
    rw [evalUntil_cons] at outcome ⊢
    obtain ⟨u, known, outcome⟩ := bind_eq_ok.1 outcome
    obtain ⟨u', known', allowed⟩ := first.truthAt known
    rw [known', ok_bind]
    by_cases stops : u = some stop
    · rw [if_pos stops, Except.ok.injEq] at outcome
      have same : u' = u := by
        rcases allowed with same | ⟨_, unknown, _⟩
        · exact same
        · rw [unknown] at stops
          cases stops
      rw [same, if_pos stops]
      exact ⟨t, by rw [outcome], .inl rfl⟩
    · rw [if_neg stops, map_eq_ok] at outcome
      obtain ⟨w, later, joined⟩ := outcome
      obtain ⟨w', later', allowed'⟩ := ih later
      by_cases stops' : u' = some stop
      · -- An unknown operand became false, and that decides a conjunction.
        rw [if_pos stops']
        refine ⟨u', rfl, ?_⟩
        rcases allowed with same | ⟨condition, unknown, falsity⟩
        · exact absurd (same ▸ stops') stops
        · have conjunctive : stop = false := by
            rw [falsity] at stops'
            cases stops'
            rfl
          subst conjunctive unknown falsity joined
          rcases w with _ | _ | _ <;> simp [Truth.join, Mode.AllowsTruth, condition]
      · rw [if_neg stops', later']
        exact ⟨_, rfl, joined ▸ allowed.join allowed' stops'⟩

/-- The refinements of the operands of a case: conditions as conditions, results as values. -/
inductive RefinesBranches (row : Row) (params : Bindings) : List Expr → List Expr → Prop
  | nil : RefinesBranches row params [] []
  | otherwise {e e' : Expr} : Refines row params .value e e' → RefinesBranches row params [e] [e']
  | branch {c c' r r' : Expr} {rest rest' : List Expr} : Refines row params .condition c c' →
      Refines row params .value r r' → RefinesBranches row params rest rest' →
        RefinesBranches row params (c :: r :: rest) (c' :: r' :: rest')

theorem evalCase_branch (c r : Expr) (rest : List Expr) :
    evalCase row params (c :: r :: rest) = (do
      if (← c.truthAt row params) = some true then r.eval row params else evalCase row params rest) := by
  rw [evalCase, Expr.truthAt]
  cases c.eval row params with
  | error => rfl
  | ok w =>
    simp only [ok_bind]
    cases w.truth with
    | error => rfl
    | ok t => rcases t with _ | _ | _ <;> rfl

theorem evalCase_refined {v : Value} (each : RefinesBranches row params es es')
    (outcome : evalCase row params es = .ok v) : evalCase row params es' = .ok v := by
  induction each with
  | nil => exact outcome
  | otherwise only => exact refines_value.1 only v outcome
  | branch condition result _ ih =>
    rw [evalCase_branch] at outcome ⊢
    obtain ⟨t, known, outcome⟩ := bind_eq_ok.1 outcome
    obtain ⟨t', known', allowed⟩ := condition.truthAt known
    have same : t' = some true ↔ t = some true := by
      rcases allowed with rfl | ⟨_, rfl, rfl⟩ <;> simp
    rw [known', ok_bind]
    by_cases taken : t = some true
    · rw [if_pos taken] at outcome
      rw [if_pos (same.2 taken)]
      exact refines_value.1 result v outcome
    · rw [if_neg taken] at outcome
      rw [if_neg (mt same.1 taken)]
      exact ih outcome

end Expr

end FederatedQuery
