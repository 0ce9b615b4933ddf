import FederatedQuery.Expr.Basic
import FederatedQuery.Proofs.Value.Order

/-!
The subterms of an expression, and what holds at every one of them. Expressions that are the same are
identical where the zeros among their literals have one sign.
-/
namespace FederatedQuery.Expr

/-- Induction with a hypothesis for every operand of a call. -/
@[elab_as_elim]
theorem induction {motive : Expr → Prop} (ref : ∀ index ty nullable, motive (.ref index ty nullable))
    (lit : ∀ v, motive (.lit v)) (param : ∀ index ty, motive (.param index ty))
    (call : ∀ op operands ty, (∀ e ∈ operands, motive e) → motive (.call op operands ty)) (e : Expr) : motive e :=
  @Expr.rec motive (fun exprs => ∀ e ∈ exprs, motive e) ref lit param call
    nofun
    (fun _ _ first rest => List.forall_mem_cons.2 ⟨first, rest⟩) e

mutual

def subterms : Expr → List Expr
  | call op operands ty => call op operands ty :: subtermsOf operands
  | e => [e]

def subtermsOf : List Expr → List Expr
  | [] => []
  | e :: rest => e.subterms ++ subtermsOf rest

end

variable {exprs : List Expr} {R : Expr → Expr → Prop} {a b : Expr} {negative : Bool}

theorem mem_subtermsOf {x : Expr} : x ∈ subtermsOf exprs ↔ ∃ e ∈ exprs, x ∈ e.subterms := by
  induction exprs with
  | nil => simp [subtermsOf]
  | cons _ _ ih => simp [subtermsOf, ih]

/-- Something holds at every subterm. -/
def Everywhere (P : Expr → Prop) (e : Expr) : Prop := ∀ x ∈ e.subterms, P x

section Everywhere

variable {P : Expr → Prop} {ty : SqlType} {index : Nat} {op : Op} {e : Expr}

@[simp]
theorem everywhere_ref {nullable : Bool} : (ref index ty nullable).Everywhere P ↔ P (ref index ty nullable) := by
  simp [Everywhere, subterms]

@[simp]
theorem everywhere_lit {v : Value} : (lit v).Everywhere P ↔ P (lit v) := by
  simp [Everywhere, subterms]

@[simp]
theorem everywhere_param : (param index ty).Everywhere P ↔ P (param index ty) := by
  simp [Everywhere, subterms]

@[simp]
theorem everywhere_call {operands : List Expr} :
    (call op operands ty).Everywhere P ↔
      P (call op operands ty) ∧ ∀ e ∈ operands, e.Everywhere P := by
  simp only [Everywhere, subterms, List.mem_cons, forall_eq_or_imp, mem_subtermsOf]
  constructor
  · rintro ⟨here, below⟩
    exact ⟨here, fun e mem x inside => below x ⟨e, mem, inside⟩⟩
  · rintro ⟨here, below⟩
    exact ⟨here, fun x ⟨e, mem, inside⟩ => below e mem x inside⟩

theorem Everywhere.operands {es : List Expr} (all : (call op es ty).Everywhere P) : ∀ e ∈ es, e.Everywhere P :=
  (everywhere_call.1 all).2

theorem Everywhere.here (all : e.Everywhere P) : P e := by
  cases e with
  | call => exact (everywhere_call.1 all).1
  | _ => simpa using all

theorem Everywhere.mono {Q : Expr → Prop} (implies : ∀ x, P x → Q x) (all : e.Everywhere P) : e.Everywhere Q :=
  fun x mem => implies x (all x mem)

end Everywhere

/-- The literal floats of an expression are not the zero of the other sign. -/
def ZeroSigned (negative : Bool) : Expr → Prop
  | lit v => ∀ x ∈ v.floats, x.ZeroSigned negative
  | _ => True

theorem forall₂_of_sameAll {as bs : List Expr}
    (each : ∀ a ∈ as, ∀ b, a.same b = true → R a b) (same : sameAll as bs = true) : List.Forall₂ R as bs := by
  induction as generalizing bs with
  | nil =>
    cases bs with
    | nil => exact .nil
    | cons => cases same
  | cons _ _ ih =>
    cases bs with
    | nil => cases same
    | cons b bs =>
      rw [sameAll, Bool.and_eq_true] at same
      rw [List.forall_mem_cons] at each
      exact .cons (each.1 b same.1) (ih each.2 same.2)

/-- Expressions that are the same differ in their literals only. -/
theorem same_induction (refs : ∀ index ty nullable, R (ref index ty nullable) (ref index ty nullable))
    (lits : ∀ v w, v.same w = true → R (lit v) (lit w)) (params : ∀ index ty, R (param index ty) (param index ty))
    (calls : ∀ op es es' ty, List.Forall₂ R es es' → R (call op es ty) (call op es' ty))
    (same : a.same b = true) : R a b := by
  induction a using induction generalizing b <;> cases b <;> try cases same
  case ref.ref =>
    simp only [Expr.same, Bool.and_eq_true, beq_iff_eq, decide_eq_true_eq] at same
    obtain ⟨⟨rfl, rfl⟩, rfl⟩ := same
    exact refs ..
  case lit.lit => exact lits _ _ same
  case param.param =>
    simp only [Expr.same, Bool.and_eq_true, beq_iff_eq, decide_eq_true_eq] at same
    obtain ⟨rfl, rfl⟩ := same
    exact params ..
  case call.call ih _ _ _ =>
    simp only [Expr.same, Bool.and_eq_true, decide_eq_true_eq] at same
    obtain ⟨⟨rfl, each⟩, rfl⟩ := same
    exact calls _ _ _ _ (forall₂_of_sameAll (fun a mem _ => ih a mem) each)

/-- Expressions that are the same are identical, unless they hold zeros of both signs. -/
theorem eq_of_same (equal : a.same b = true)
    (left : a.Everywhere (ZeroSigned negative)) (right : b.Everywhere (ZeroSigned negative)) :
    a = b := by
  refine same_induction
    (R := fun a b => a.Everywhere (ZeroSigned negative) → b.Everywhere (ZeroSigned negative) → a = b)
    (fun _ _ _ _ _ => rfl) (fun v w same left right => ?_) (fun _ _ _ _ => rfl)
    (fun op es es' ty each left right => ?_) equal left right
  · exact congrArg lit (Value.eq_of_same same left.here right.here)
  · replace left := left.operands
    replace right := right.operands
    refine congrArg (call op · ty) ?_
    induction each with
    | nil => rfl
    | cons here _ ih =>
      rw [List.forall_mem_cons] at left right
      rw [here left.1 right.1, ih left.2 right.2]

theorem mem_of_isIn {e : Expr} (found : e.isIn exprs = true) (left : e.Everywhere (ZeroSigned negative))
    (right : ∀ x ∈ exprs, x.Everywhere (ZeroSigned negative)) : e ∈ exprs := by
  rw [isIn, List.any_eq_true] at found
  obtain ⟨x, mem, equal⟩ := found
  rwa [eq_of_same equal left (right x mem)]

end FederatedQuery.Expr
