import FederatedQuery.Proofs.Plan.RowTypes
import FederatedQuery.Proofs.Program.Normalize

/-!
A normalized program is equivalent to the program on every row on which the assumed predicates are true. It accepts
the rows that the program accepts, makes the same of them and has the same row type. What is unwound stays where it
is, on every row, when the predicates have no unwind: nothing that is known then decides one.
-/
open FederatedQuery.Expr

namespace FederatedQuery

namespace Expr

theorem isUnwind_of_same {a b : Expr} (equal : a.same b = true) : Program.isUnwind a = Program.isUnwind b :=
  same_induction (R := fun a b => Program.isUnwind a = Program.isUnwind b) (fun _ _ _ => rfl) (fun _ _ _ => rfl)
    (fun _ _ => rfl) (fun _ _ _ _ _ => rfl) equal

theorem negation_unwind (es : List Expr) (ty : SqlType) :
    (call .unwind es ty).negation = call .not [call .unwind es ty] .boolean := rfl

theorem fieldBound?_unwind (es : List Expr) (ty : SqlType) : (call .unwind es ty).fieldBound? = none := by
  unfold fieldBound?
  split
  next same =>
    cases same
    rfl
  next => rfl

end Expr

theorem Predicates.contains_unwind {p : Predicates} (plain : p.Everywhere Plain)
    (es : List Expr) (ty : SqlType) :
    p.contains (call .unwind es ty) = false ∧ p.contains (call .unwind es ty).negation = false := by
  constructor
  · by_contra known
    obtain ⟨c, mem, equal⟩ := List.any_eq_true.1 (Bool.eq_true_of_not_eq_false known)
    have unwinds : Program.isUnwind c = true := (isUnwind_of_same equal).symm
    exact Bool.false_ne_true ((plain c mem).here.symm.trans unwinds)
  · by_contra known
    obtain ⟨c, mem, equal⟩ := List.any_eq_true.1 (Bool.eq_true_of_not_eq_false known)
    rw [negation_unwind] at equal
    cases c with
    | call op operands ty' =>
      simp only [same, Bool.and_eq_true, decide_eq_true_eq] at equal
      obtain ⟨⟨rfl, all⟩, -⟩ := equal
      rcases operands with _ | ⟨c, _ | ⟨_, _⟩⟩
      · simp [sameAll] at all
      · simp only [sameAll, Bool.and_true] at all
        have unwinds : Program.isUnwind c = true := (isUnwind_of_same all).symm
        exact Bool.false_ne_true (((plain _ mem).operands c (.head _)).here.symm.trans unwinds)
      · simp [sameAll] at all
    | _ => simp [same] at equal

namespace Simplifier

variable {s : Simplifier} {e : Expr}

theorem decideByPredicates_unwind (plain : s.predicates.Everywhere Plain)
    (es : List Expr) (ty : SqlType) :
    s.decideByPredicates (call .unwind es ty) = call .unwind es ty := by
  obtain ⟨absent, undenied⟩ := Predicates.contains_unwind plain es ty
  unfold decideByPredicates
  rw [absent, undenied, fieldBound?_unwind]
  split <;> rfl

/-- Simplifying leaves an unwind where one is, and makes none where there is none. -/
theorem isUnwind_simplify_of_plain (plain : s.predicates.Everywhere Plain)
    (single : e.containsUnwind = true → Program.isUnwind e = true) :
    Program.isUnwind (s.simplify e) = Program.isUnwind e := by
  cases unwinds : Program.isUnwind e with
  | false => exact isUnwind_simplify_eq_false single unwinds
  | true =>
    refine iterate_keeps (I := fun e => Program.isUnwind e = true) (fun e unwinds => ?_) s.passes unwinds
    cases e with
    | call op es ty =>
      rw [Program.isUnwind, op?, decide_eq_true_eq, Option.some.injEq] at unwinds
      subst unwinds
      rw [reduce_unwind, decideByPredicates_unwind plain]
      rfl
    | _ => cases unwinds

theorem plain_assuming (plain : s.predicates.Everywhere Plain) {condition : Expr}
    (without : condition.containsUnwind = false) :
    (s.assuming (s.simplifyCondition condition)).predicates.Everywhere Plain := by
  have simplified : (s.simplifyCondition condition).Everywhere Plain :=
    everywhere_iterate stable_plain .condition s.passes (everywhere_plain without)
  refine Predicates.everywhere_foldl_assume stable_plain.toDurable plain ?_
  exact Predicates.everywhere_foldl_assume stable_plain.toDurable nofun (List.forall_mem_singleton.2 simplified)

end Simplifier

namespace Program

variable {program program' : Program} {s : Simplifier}

theorem unwindPosition_normalize (plain : s.predicates.Everywhere Plain)
    (condition : ∀ c ∈ program.condition, c.containsUnwind = false)
    (single : ∀ e ∈ program.projects, e.containsUnwind = true → isUnwind e = true)
    (normal : program.normalize s = some program') : program'.unwindPosition = program.unwindPosition := by
  have kept {t : Simplifier} (plain : t.predicates.Everywhere Plain) :
      (program.projects.map t.simplify).findIdx? isUnwind = program.projects.findIdx? isUnwind :=
    findIdx?_simplified fun e mem => Simplifier.isUnwind_simplify_of_plain plain (single e mem)
  have made := normalizes s program
  rw [normal] at made
  cases made with
  | unconditional | always => exact kept plain
  | narrowed tested => exact kept (Simplifier.plain_assuming plain (condition _ tested))

/-- Normalizing a checked program under predicates that are true on a row keeps whether the row is accepted and, when
it is, what it is projected to. A program that is found to emit nothing accepts no such row. The row type and the
place of the unwind are the same. -/
theorem normalize_equivalent (P : List Expr) (passes : Nat) {input : RowType} {projects : List (Expr × String)}
    {condition : Option Expr} {p : Program} (made : new input projects condition = .ok p) (row : Row)
    (params : Bindings) (known : ∀ e ∈ P, e.eval row params = .ok (.bool true))
    (plain : ∀ e ∈ P, e.containsUnwind = false)
    (reads : ∀ e ∈ p.projects ++ p.condition.toList, e.Everywhere (ReadsPresent row))
    (fields : ∀ w ∈ row, w.floats = []) (free : ∀ e ∈ p.projects ++ p.condition.toList, e.Everywhere FloatFree)
    (freeKnown : ∀ e ∈ P, e.Everywhere FloatFree) {b : Bool} (accepted : p.accepts row params = .ok b) :
    let s := (Simplifier.ofPredicates (.ofList P)).withPasses passes
    (p.normalize s = none → b = false) ∧
      ∀ q, p.normalize s = some q → q.accepts row params = .ok b ∧
        (b = true → ∀ r, p.projectRow row params = .ok r → q.projectRow row params = .ok r) ∧
        q.output = p.output ∧ q.unwindPosition = p.unwindPosition := by
  intro s
  have applies : s.Applies row params := Simplifier.applies_ofList known freeKnown fields
  have admissible : ∀ e ∈ p.projects ++ p.condition.toList, e.Everywhere (Admissible row) :=
    fun e mem x inside => ⟨reads e mem x inside, free e mem x inside⟩
  have outcome := normalize_outcome applies
    (fun c mem => admissible c (List.mem_append_right _ (Option.mem_toList.2 mem))) accepted
  constructor
  · intro never
    rw [never] at outcome
    exact outcome
  · intro q normal
    rw [normal] at outcome
    obtain ⟨-, output, accepts', t, same, applies'⟩ := outcome
    have single := (checked_of_new made).projects
    refine ⟨accepts', fun passes r evaluated => ?_, output, ?_⟩
    · rw [projectRow, same]
      exact (simplified_projects (applies' passes) (fun e mem => admissible e (List.mem_append_left _ mem)) single
        evaluated).1
    · refine unwindPosition_normalize ?_ (condition_of_new made) single normal
      exact Predicates.everywhere_foldl_assume stable_plain.toDurable (fun _ mem => absurd mem List.not_mem_nil)
        fun e mem => everywhere_plain (plain e mem)

/-- A filter and an unwind over the row `(5, [true, null])`, of which it is known that the array is not null. -/
theorem normalize_equivalent_unwound :
    let field := ref 0 .integer false
    let tags := ref 1 (.array .boolean) true
    let input : RowType := ⟨[⟨"id", .integer, false⟩, ⟨"tags", .array .boolean, true⟩]⟩
    let known := call .isNotNull [tags] .boolean
    let bound := call .gt [field, .lit (.int 1)] .boolean
    let projects := [(call .unwind [tags] .boolean, "tag"), (bound, "large")]
    let row : Row := [.int 5, .array [.bool true, .null]]
    let p : Program := ⟨input, projects.map Prod.fst, some (call .and [known, bound] .boolean),
      ⟨[⟨"tag", .boolean, true⟩, ⟨"large", .boolean, false⟩]⟩⟩
    let s := (Simplifier.ofPredicates (.ofList [known])).withPasses 2
    new input projects p.condition = .ok p ∧ known.eval row (fun _ => none) = .ok (.bool true) ∧
      p.accepts row (fun _ => none) = .ok true ∧
      ∃ q, p.normalize s = some q ∧ q.accepts row (fun _ => none) = .ok true ∧
        q.projectRow row (fun _ => none) = .ok [.array [.bool true, .null], .bool true] ∧
        q.unwindPosition = some 0 := by
  intro field tags input known bound projects row p s
  have made : new input projects p.condition = .ok p := rfl
  have accepted : p.accepts row (fun _ => none) = .ok true := rfl
  obtain ⟨refused, kept⟩ := normalize_equivalent [known] 2 made row (fun _ => none)
    (List.forall_mem_singleton.2 rfl) (List.forall_mem_singleton.2 rfl)
    (by simp [p, projects, known, bound, field, tags, row, ReadsPresent])
    (by simp [row, Value.floats, Value.itemFloats])
    (by simp [p, projects, known, bound, field, tags, FloatFree, Value.floats])
    (by simp [known, tags, FloatFree]) accepted
  refine ⟨made, rfl, accepted, ?_⟩
  cases normal : p.normalize s with
  | none => cases refused normal
  | some q =>
    obtain ⟨accepts', projected, -, position⟩ := kept q normal
    exact ⟨q, rfl, accepts', projected rfl _ rfl, position⟩

end Program

end FederatedQuery
