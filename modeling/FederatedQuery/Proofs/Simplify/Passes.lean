import FederatedQuery.Proofs.Simplify.Weight
import Mathlib.Logic.Function.Iterate

/-!
Passes of the simplifier come to an end. A pass that changes an expression makes it lighter, so it can change
the expression only as often as its weight allows, and what enough passes leave is left alone by every further
pass.
-/
open FederatedQuery.Expr

namespace FederatedQuery.Simplifier

variable {s : Simplifier} {mode : Mode}

theorem settles_decideByPredicates (s : Simplifier) (e : Expr) : Settles e (s.decideByPredicates e) := by
  cases literal : e.isLiteral with
  | true => exact .inl (by simp [decideByPredicates, literal])
  | false =>
    rcases s.decideByPredicates_cases e with same | ⟨b, decided⟩
    · exact .inl same
    · refine .inr ⟨literal, ?_⟩
      have := four_le_weight literal
      have := weight_lit_le (.bool b)
      rw [decided]
      omega

theorem settles_reduceCall (s : Simplifier) (mode : Mode) (op : Op) (es : List Expr) (ty : SqlType) :
    Settles (call op es ty) (s.reduceCall mode op es ty) := by
  have rule := s.reduced mode op es ty
  generalize s.reduceCall mode op es ty = e at rule
  cases rule with
  | folded found => exact settles_foldConstant found
  | joined stop => exact settles_simplifyConnective stop mode es ty
  | negation => exact settles_simplifyNot mode _ ty
  | @nullTest _ x =>
    refine .inr ⟨rfl, (weight_lit_le _).trans_lt ?_⟩
    have := weights_add_six_le op [x] ty
    omega
  | @truthTest x =>
    refine .inr ⟨rfl, ?_⟩
    have := weights_add_six_le .isTrue [e] ty
    rw [weights_cons] at this
    omega
  | @falsityTest x =>
    refine .inr ⟨rfl, (weight_simplifyNot_le mode x).trans_lt ?_⟩
    simp only [weight, weights]
    omega
  | comparison comparison => exact settles_simplifyComparison comparison es ty
  | choice => exact settles_simplifyCase es ty
  | alternative => exact settles_simplifyCoalesce es ty
  | unchanged => exact .inl rfl

theorem settles_reduce (s : Simplifier) (mode : Mode) (e : Expr) : Settles e (s.reduce mode e) := by
  induction e using Expr.induction generalizing mode with
  | call op es ty ih =>
    have each : List.Forall₂ Settles es (s.reduceOperands mode op es) := by
      obtain ⟨long, each⟩ := List.forall₂_iff_zip.1 (s.forall₂_reduceOperands mode op es)
      refine List.forall₂_iff_zip.2 ⟨long, fun {e e'} mem => ?_⟩
      obtain ⟨mode, rfl⟩ := each mem
      exact ih e (List.of_mem_zip mem).1 mode
    rw [reduce_call]
    exact ((settles_call op ty each).trans (s.settles_reduceCall mode op _ ty)).trans (s.settles_decideByPredicates _)
  | _ => exact s.settles_decideByPredicates _

theorem reduce_eq_of_same {e : Expr} (same : (s.reduce mode e).same e = true) : s.reduce mode e = e :=
  (s.settles_reduce mode e).eq_of_le (weight_of_same same).ge

theorem iterate_eq (s : Simplifier) (mode : Mode) (passes : Nat) (e : Expr) :
    s.iterate mode passes e = (s.reduce mode)^[passes] e := by
  induction passes generalizing e with
  | zero => rfl
  | succ passes ih =>
    rw [iterate, Function.iterate_succ_apply]
    split
    · next same =>
      rw [reduce_eq_of_same same]
      exact (Function.iterate_fixed (reduce_eq_of_same same) passes).symm
    · exact ih _

/-- Passes change an expression no more often than its weight allows. -/
theorem exists_fixed (s : Simplifier) (mode : Mode) (e : Expr) :
    ∃ n ≤ e.weight, s.reduce mode ((s.reduce mode)^[n] e) = (s.reduce mode)^[n] e := by
  induction size : e.weight using Nat.strong_induction_on generalizing e with
  | _ size' ih =>
    rcases s.settles_reduce mode e with equal | ⟨_, less⟩
    · exact ⟨0, Nat.zero_le _, equal⟩
    · obtain ⟨n, few, fixed⟩ := ih _ (size ▸ less) _ rfl
      exact ⟨n + 1, by omega, fixed⟩

theorem reduce_iterate_of_fixed {n passes : Nat} {e : Expr}
    (fixed : s.reduce mode ((s.reduce mode)^[n] e) = (s.reduce mode)^[n] e) (enough : n ≤ passes) :
    s.reduce mode (s.iterate mode passes e) = s.iterate mode passes e := by
  obtain ⟨more, rfl⟩ := Nat.exists_eq_add_of_le' enough
  rw [iterate_eq, Function.iterate_add_apply, Function.iterate_fixed fixed, fixed]

theorem reduce_withPasses (s : Simplifier) (passes : Nat) (mode : Mode) (e : Expr) :
    (s.withPasses passes).reduce mode e = s.reduce mode e := by
  induction e using Expr.induction generalizing mode with
  | call op es ty ih =>
    have all (mode : Mode) : (s.withPasses passes).reduceAll mode es = s.reduceAll mode es := by
      rw [reduceAll_eq_map, reduceAll_eq_map]
      exact List.map_congr_left fun e mem => ih e mem mode
    have branches : (s.withPasses passes).reduceBranches es = s.reduceBranches es := by
      clear all
      induction es using List.twoStepInduction with
      | nil => rfl
      | singleton e => rw [reduceBranches, reduceBranches, ih e (.head _)]
      | cons_cons c r rest later _ =>
        rw [List.forall_mem_cons, List.forall_mem_cons] at ih
        rw [reduceBranches, reduceBranches, ih.1, ih.2.1, later ih.2.2]
    have operands : (s.withPasses passes).reduceOperands mode op es = s.reduceOperands mode op es := by
      cases op with
      | and | or => exact all mode
      | case => exact branches
      | _ => exact all .value
    rw [reduce_call, reduce_call, operands]
    rfl
  | _ => rfl

/-- Under any predicates, passes over an expression come to one that a further pass leaves alone. From that
number of passes on, what simplifying gives, as a value and as a condition, is left alone by a pass. -/
theorem passes_settle (p : Predicates) (e : Expr) :
    let s := ofPredicates p
    (∃ n ≤ e.weight, s.reduce .value ((s.reduce .value)^[n] e) = (s.reduce .value)^[n] e ∧
      ∀ passes, n + 1 ≤ passes → let simple := (s.withPasses passes).simplify e
        s.reduce .value simple = simple) ∧
    ∃ n ≤ e.weight, s.reduce .condition ((s.reduce .condition)^[n] e) = (s.reduce .condition)^[n] e ∧
      ∀ passes, n + 1 ≤ passes → let simple := (s.withPasses passes).simplifyCondition e
        s.reduce .condition simple = simple := by
  intro s
  have enough (mode : Mode) : ∃ n ≤ e.weight, s.reduce mode ((s.reduce mode)^[n] e) = (s.reduce mode)^[n] e ∧
      ∀ passes, n + 1 ≤ passes → let simple := (s.withPasses passes).iterate mode (s.withPasses passes).passes e
        s.reduce mode simple = simple := by
    obtain ⟨n, few, fixed⟩ := s.exists_fixed mode e
    refine ⟨n, few, fixed, fun passes enough => ?_⟩
    have same : (s.withPasses passes).reduce mode = s.reduce mode := funext (s.reduce_withPasses passes mode)
    rw [← same] at fixed ⊢
    exact reduce_iterate_of_fixed fixed ((Nat.le_of_succ_le enough).trans (Nat.le_max_left passes 1))
  exact ⟨enough .value, enough .condition⟩

end FederatedQuery.Simplifier
