import FederatedQuery.Proofs.Rows.Members
import FederatedQuery.Proofs.Simplify.Sound

/-!
A normalized program makes the same rows of every row on which the assumed predicates are true. An unwind
stays an unwind, since no truth value can take the place of an array.
-/
open FederatedQuery.Expr

namespace FederatedQuery

namespace Expr

def Plain (e : Expr) : Prop := Program.isUnwind e = false

variable {es : List Expr} {ty : SqlType}

theorem plain_call {op : Op} : (call op es ty).Plain ↔ op ≠ .unwind := by
  simp [Plain, Program.isUnwind, op?]

theorem stable_plain : Stable Plain where
  bool _ := rfl
  null := rfl
  castNull _ := rfl
  folded _ _ _ := rfl
  logical is := plain_call.2 (by rintro rfl; cases is)
  rebuilt here _ := plain_call.2 (plain_call.1 here)

theorem anyUnwind_eq_false : anyUnwind es = false ↔ ∀ e ∈ es, e.containsUnwind = false := by
  induction es with
  | nil => simp [anyUnwind]
  | cons _ _ ih => simp [anyUnwind, ih]

theorem everywhere_plain {e : Expr} (without : e.containsUnwind = false) : e.Everywhere Plain := by
  induction e using induction with
  | ref => exact everywhere_ref.2 rfl
  | lit => exact everywhere_lit.2 rfl
  | param => exact everywhere_param.2 rfl
  | call op operands ty ih =>
    rw [containsUnwind, Bool.or_eq_false_iff, decide_eq_false_iff_not, anyUnwind_eq_false] at without
    exact everywhere_call.2 ⟨plain_call.2 without.1, fun e mem => ih e mem (without.2 e mem)⟩

theorem eval_unwind_ne_bool {row : Row} {params : Bindings} (b : Bool) :
    (call .unwind es ty).eval row params ≠ .ok (.bool b) := by
  intro value
  obtain ⟨args, _, applied⟩ := bind_eq_ok.1 value
  rcases args with _ | ⟨v, _ | ⟨_, _⟩⟩
  · cases applied
  · cases v <;> cases applied
  · cases applied

end Expr

namespace Simplifier

variable {row : Row} {params : Bindings} {mode : Mode} {s : Simplifier} {e : Expr} {v : Value}

theorem reduce_unwind (es : List Expr) (ty : SqlType) :
    s.reduce mode (call .unwind es ty) = s.decideByPredicates (call .unwind (s.reduceAll .value es) ty) := by
  rfl

/-- Where an unwind has a value, a pass leaves an unwind. -/
theorem isUnwind_reduce (applies : s.Applies row params) (all : e.Everywhere (Admissible row))
    (value : e.eval row params = .ok v) (unwinds : Program.isUnwind e = true) :
    Program.isUnwind (s.reduce .value e) = true := by
  cases e with
  | call op es ty =>
    rw [Program.isUnwind, op?, decide_eq_true_eq, Option.some.injEq] at unwinds
    subst unwinds
    rcases s.decideByPredicates_cases (call .unwind (s.reduceAll .value es) ty) with kept | ⟨b, decided⟩
    · rw [reduce_unwind, kept]
      rfl
    · have same := refines_value.1 (refines_reduce applies .value all) v value
      rw [reduce_unwind, decided] at same
      exact absurd (same ▸ value) (eval_unwind_ne_bool b)
  | _ => cases unwinds

theorem isUnwind_simplify_eq_false (single : e.containsUnwind = true → Program.isUnwind e = true)
    (unwinds : Program.isUnwind e = false) : Program.isUnwind (s.simplify e) = false := by
  have without : e.containsUnwind = false := by
    by_contra inside
    rw [single (Bool.eq_true_of_not_eq_false inside)] at unwinds
    cases unwinds
  exact (everywhere_iterate stable_plain .value s.passes (everywhere_plain without)).here

theorem isUnwind_simplify (applies : s.Applies row params) (all : e.Everywhere (Admissible row))
    (value : e.eval row params = .ok v) (single : e.containsUnwind = true → Program.isUnwind e = true) :
    Program.isUnwind (s.simplify e) = Program.isUnwind e := by
  cases unwinds : Program.isUnwind e with
  | false => exact isUnwind_simplify_eq_false single unwinds
  | true =>
    refine (iterate_keeps (I := fun e => (e.Everywhere (Admissible row) ∧ e.eval row params = .ok v) ∧
      Program.isUnwind e = true) ?_ s.passes ⟨⟨all, value⟩, unwinds⟩).2
    rintro e ⟨⟨all, value⟩, unwinds⟩
    exact ⟨⟨everywhere_reduce (stable_admissible row) .value all,
      refines_value.1 (refines_reduce applies .value all) v value⟩, isUnwind_reduce applies all value unwinds⟩

theorem test_of_isTrue (literal : e.isTrue = true) : e.test row params = .ok true :=
  test_eq_ok.2 ⟨some true, truthAt_of_isBool (b := true) literal, rfl⟩

theorem test_of_never (never : (e.isFalse || e.isNull) = true) : e.test row params = .ok false := by
  rcases Bool.or_eq_true_iff.1 never with refuted | null
  · exact test_eq_ok.2 ⟨some false, truthAt_of_isBool (b := false) refuted, rfl⟩
  · exact test_eq_ok.2 ⟨none, truthAt_of_isNull null, rfl⟩

theorem Applies.assuming (applies : s.Applies row params) {condition : Expr}
    (free : condition.Everywhere FloatFree) (holds : condition.eval row params = .ok (.bool true)) :
    (s.assuming condition).Applies row params := by
  have one : ∀ c ∈ [condition], c.Everywhere FloatFree := List.forall_mem_singleton.2 free
  have assumed := Predicates.everywhere_foldl_assume (p := .empty) stable_floatFree.toDurable nofun one
  refine ⟨?_, Predicates.everywhere_foldl_assume stable_floatFree.toDurable applies.free assumed, applies.fields⟩
  refine Predicates.holds_foldl_assume applies.holds
    (fun c mem => (assumed c mem).mono fun _ here => here.zeroSigned false) ?_
  exact Predicates.holds_ofList (fun c mem => (one c mem).mono fun _ here => here.zeroSigned false)
    (List.forall_mem_singleton.2 holds)

end Simplifier

namespace Program

variable {program : Program} {s : Simplifier} {row : Row} {params : Bindings}

theorem findIdx?_simplified {f : Expr → Expr} {es : List Expr} (same : ∀ e ∈ es, isUnwind (f e) = isUnwind e) :
    (es.map f).findIdx? isUnwind = es.findIdx? isUnwind := by
  induction es with
  | nil => rfl
  | cons e rest ih =>
    rw [List.map_cons, List.findIdx?_cons, List.findIdx?_cons, same e (.head _), ih fun e mem => same e (.tail _ mem)]

/-- Simplified projections of a row are its projections, and what is unwound is at its place. -/
theorem simplified_projects (applies : s.Applies row params) {projects : List Expr} {r : Row}
    (admissible : ∀ e ∈ projects, e.Everywhere (Admissible row))
    (single : ∀ e ∈ projects, e.containsUnwind = true → isUnwind e = true)
    (evaluated : evalAll row params projects = .ok r) :
    evalAll row params (projects.map s.simplify) = .ok r ∧
      (projects.map s.simplify).findIdx? isUnwind = projects.findIdx? isUnwind := by
  have same : List.Forall₂ (Transfers row params row params) projects (projects.map s.simplify) := by
    rw [List.forall₂_map_right_iff, List.forall₂_same]
    exact fun e mem => refines_value.1 (Simplifier.refines_iterate applies .value s.passes (admissible e mem))
  refine ⟨related_evalAll stepwise_keeps same _ evaluated, ?_⟩
  refine findIdx?_simplified fun e mem => ?_
  obtain ⟨index, located⟩ := List.mem_iff_getElem?.1 mem
  obtain ⟨v, _, value⟩ := exists_getElem?_of_forall₂ (evalAll_eq_ok.1 evaluated) located
  exact Simplifier.isUnwind_simplify applies (admissible e mem) value (single e mem)

/-- The rows that a row contributes to what is ready to run; none is ready when no row can pass. -/
def runReady (ready : Option Program) (params : Bindings) (row : Row) : Except Error (List Row) :=
  match ready with
  | none => .ok []
  | some program => Rows.runRow program params row

/-- What a program is normalized to. -/
inductive Normalizes (s : Simplifier) (program : Program) : Option Program → Prop
  | unconditional (tested : program.condition = none) :
      Normalizes s program (some { program with projects := program.projects.map s.simplify, condition := none })
  | always {condition : Expr} (tested : program.condition = some condition)
      (holds : (s.simplifyCondition condition).isTrue = true) :
      Normalizes s program (some { program with projects := program.projects.map s.simplify, condition := none })
  | never {condition : Expr} (tested : program.condition = some condition)
      (fails : ((s.simplifyCondition condition).isFalse || (s.simplifyCondition condition).isNull) = true) :
      Normalizes s program none
  | narrowed {condition : Expr} (tested : program.condition = some condition) :
      Normalizes s program (some { program with
        projects := program.projects.map (s.assuming (s.simplifyCondition condition)).simplify
        condition := some (s.simplifyCondition condition) })

theorem normalizes (s : Simplifier) (program : Program) : Normalizes s program (program.normalize s) := by
  cases tested : program.condition with
  | none =>
    simp only [normalize, tested]
    exact .unconditional tested
  | some condition =>
    by_cases always : (s.simplifyCondition condition).isTrue = true
    · simp only [normalize, tested, always, if_true]
      exact .always tested always
    · by_cases never : ((s.simplifyCondition condition).isFalse || (s.simplifyCondition condition).isNull) = true
      · simp only [normalize, tested, always, never, if_true, Bool.false_eq_true, if_false]
        exact .never tested never
      · simp only [normalize, tested, always, never, Bool.false_eq_true, if_false]
        exact .narrowed tested

/-- On a row, one program accepts what another does, and its projections are those of the other, simplified under what
may be assumed of the row once it is accepted. -/
structure Remade (row : Row) (params : Bindings) (b : Bool) (program program' : Program) : Prop where
  input : program'.input = program.input
  output : program'.output = program.output
  accepts : program'.accepts row params = .ok b
  projects : ∃ t : Simplifier, program'.projects = program.projects.map t.simplify ∧ (b = true → t.Applies row params)

theorem normalize_outcome {b : Bool} (applies : s.Applies row params)
    (admissible : ∀ c ∈ program.condition, c.Everywhere (Admissible row))
    (accepted : program.accepts row params = .ok b) :
    (program.normalize s).elim (b = false) (Remade row params b program) := by
  have simplified {condition : Expr} (tested : program.condition = some condition) :
      (s.simplifyCondition condition).test row params = .ok b := by
    rw [accepts, tested] at accepted
    exact Simplifier.test_of_refines
      (Simplifier.refines_iterate applies .condition s.passes (admissible condition tested)) accepted
  have made := normalizes s program
  generalize program.normalize s = out at made
  cases made with
  | unconditional tested =>
    rw [accepts, tested] at accepted
    exact ⟨rfl, rfl, accepted, s, rfl, fun _ => applies⟩
  | always tested holds =>
    have passes : b = true := Except.ok.inj ((simplified tested).symm.trans (Simplifier.test_of_isTrue holds))
    exact ⟨rfl, rfl, congrArg Except.ok passes.symm, s, rfl, fun _ => applies⟩
  | never tested fails => exact Except.ok.inj ((simplified tested).symm.trans (Simplifier.test_of_never fails))
  | narrowed tested =>
    refine ⟨rfl, rfl, simplified tested, _, rfl, fun passes => ?_⟩
    refine applies.assuming ?_ (Simplifier.eval_of_test (passes ▸ simplified tested))
    exact Simplifier.everywhere_iterate stable_floatFree .condition s.passes
      ((admissible _ tested).mono fun _ here => here.free)

theorem runRow_normalize {out : List Row} (applies : s.Applies row params) (arity : row.length = program.input.arity)
    (admissible : ∀ e ∈ program.projects ++ program.condition.toList, e.Everywhere (Admissible row))
    (single : ∀ e ∈ program.projects, e.containsUnwind = true → isUnwind e = true)
    (success : Rows.runRow program params row = .ok out) :
    runReady (program.normalize s) params row = .ok out := by
  obtain ⟨b, accepted⟩ : ∃ b, program.accepts row params = .ok b := by
    rcases (Rows.runRow_eq_ok arity).1 success with ⟨outcome, _⟩ | ⟨outcome, _⟩ <;> exact ⟨_, outcome⟩
  have outcome := normalize_outcome applies
    (fun c mem => admissible c (List.mem_append_right _ (Option.mem_toList.2 mem))) accepted
  cases normal : program.normalize s with
  | none =>
    rw [normal] at outcome
    rcases (Rows.runRow_eq_ok arity).1 success with ⟨_, empty⟩ | ⟨passed, _⟩
    · rw [runReady, empty]
    · rw [accepted, outcome] at passed
      cases passed
  | some =>
    rw [normal] at outcome
    obtain ⟨input, -, accepts', t, projects, applies'⟩ := outcome
    rw [runReady, Rows.runRow_eq_ok (input ▸ arity), accepts']
    rcases (Rows.runRow_eq_ok arity).1 success with ⟨refused, rfl⟩ | ⟨passed, r, evaluated, made⟩
    · exact .inl ⟨accepted.symm.trans refused, rfl⟩
    · have passes := accepted.symm.trans passed
      obtain ⟨same, place⟩ := simplified_projects (applies' (Except.ok.inj passes))
        (fun e mem => admissible e (List.mem_append_left _ mem)) single evaluated
      rw [projectRow, unwindPosition, projects, place]
      exact .inr ⟨passes, r, same, made⟩

end Program

end FederatedQuery
