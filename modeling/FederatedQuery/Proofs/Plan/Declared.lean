import FederatedQuery.Proofs.Plan.PullUp
import FederatedQuery.Proofs.Program.Normalize
import FederatedQuery.Proofs.Simplify.Nullability

/-!
Declared row types hold at run time. Every row that a query emits has a value for each field of its row type, and
none is null where the field is declared never null, whether or not programs are simplified.
-/
namespace FederatedQuery

theorem Expr.stable_marked (t : RowType) : Expr.Stable (Expr.Marked t) where
  bool _ := trivial
  logical _ := trivial
  rebuilt _ _ := trivial
  null := trivial
  castNull _ := trivial
  folded _ _ _ := trivial

namespace Program

variable {program program' : Program} {t : RowType} {s : Simplifier}

/-- Simplified projections are never null where a field is declared so. -/
theorem Checked.replaces_simplified (checked : program.Checked)
    (marked : ∀ e ∈ program.projects, e.Everywhere (Expr.Marked t)) (input : program'.input = program.input)
    (projects : program'.projects = program.projects.map s.simplify) : program.Replaces true t program' := by
  refine ⟨input, ?_, fun _ => ?_⟩
  · rw [projects, List.forall₂_map_left_iff]
    refine checked.output.imp ?_
    intro e f same never
    exact s.tightens_simplify e (same.symm.trans never)
  · rw [projects, List.forall_mem_map]
    exact fun e mem => Simplifier.everywhere_iterate (Expr.stable_marked t) .value s.passes (marked e mem)

theorem Checked.replaces_normalize (checked : program.Checked)
    (marked : ∀ e ∈ program.projects, e.Everywhere (Expr.Marked t))
    (normal : program.normalize s = some program') : program.Replaces true t program' := by
  have made := normalizes s program
  rw [normal] at made
  cases made with
  | unconditional | always | narrowed => exact checked.replaces_simplified marked rfl rfl

end Program

namespace Compiler

open Foreign

variable {σ : Type}

/-- Every row of a query has a value for each field, and none is null where the field is never null. An expression
that is never null by its declaration is never null on such a row. -/
theorem emitted_declared (c : Compiler σ) (ctx : Context) (w : World σ) (p : Plan)
    (query : ∀ n ∈ p.nodes, n.isQuery = true) (made : ∀ n ∈ p.nodes, n.Constructed)
    (stocked : ∀ n ∈ p.nodes, n.Stocked true w.store) (marked : ∀ n ∈ p.nodes, n.Marked) :
    (∀ row ∈ c.emitted ctx p w, row.length = p.rowType.arity ∧
      ∀ (index : Nat) (f : Field) (v : Value), p.rowType.fields[index]? = some f → f.nullable = false →
        row[index]? = some v → v.isNull = false) ∧
    ∀ (t : RowType) (row : Row) (e : Expr) (v : Value), t.Fits true row → e.Everywhere (Expr.Marked t) →
      e.nullable = false → e.eval row ctx.params = .ok v → v.isNull = false := by
  constructor
  · intro row mem
    cases compiled : c.compile ctx p with
    | error e =>
      rw [emitted, compiled] at mem
      cases mem
    | ok cursor =>
      rw [emitted_eq_feed query compiled] at mem
      have fits : p.rowType.Fits true row := by
        refine Plan.fits_feed_of_replaces query made stocked ?_ row mem
        intro h program input inside program' ready
        have checked := (made _ inside).calculate.2.2
        have projects : ∀ e ∈ program.projects, e.Everywhere (Expr.Marked input.rowType) :=
          fun e mem => marked _ inside e (List.mem_append_left _ mem)
        unfold program? at ready
        split at ready
        next => exact checked.replaces_normalize projects ready
        next =>
          cases ready
          exact checked.replaces fun _ => projects
      exact ⟨fits.length_eq, fun _ _ _ declared never located => fits.present declared never located⟩
  · intro t row e v fits everywhere never value
    exact Expr.eval_ne_null never (everywhere.mono fun _ here => here.readsPresent fits) value

/-- A left join pads the second field, which is nullable for it, and the filter on the first is seen to pass. -/
theorem emitted_declared_padded :
    let pulled (t : RowType) : Head := ⟨t, { Traits.logical with convention := .pull }⟩
    let left : RowType := ⟨[⟨"id", .integer, false⟩]⟩
    let right : RowType := ⟨[⟨"key", .integer, false⟩]⟩
    let joined : RowType := ⟨[⟨"id", .integer, false⟩, ⟨"key", .integer, true⟩]⟩
    let on := Expr.call .eq [.ref 0 .integer false, .ref 1 .integer false] .boolean
    let join := Plan.join (pulled joined) .left on (.scan (pulled left) { Table.named "t" left with stored := true })
      (.values (pulled right) [[.int 2]])
    let p := Plan.calculate (pulled joined) ⟨joined, [.ref 0 .integer false, .ref 1 .integer true],
      some (.call .isNotNull [.ref 0 .integer false] .boolean), joined⟩ join
    let w : World Unit := ⟨[("t", [[.int 1], [.int 2]])], [], 0, ()⟩
    let c : Compiler Unit := .ofOptions .default
    let ctx : Context := ⟨fun _ => none, none⟩
    c.simplify = true ∧ c.emitted ctx p w = [[.int 1, .null], [.int 2, .int 2]] ∧
      ∀ row ∈ c.emitted ctx p w, row.length = 2 ∧ row[0]? ≠ some .null := by
  intro pulled left right joined on join p w c ctx
  have nodes : p.nodes = [p, join, .scan (pulled left) { Table.named "t" left with stored := true },
    .values (pulled right) [[.int 2]]] := rfl
  have query : ∀ n ∈ p.nodes, n.isQuery = true := by
    rw [nodes]
    decide
  have made : ∀ n ∈ p.nodes, n.Constructed := by
    rw [nodes]
    simp only [List.forall_mem_cons]
    exact ⟨⟨_, rfl, rfl⟩, ⟨_, rfl, rfl⟩, ⟨_, rfl, rfl⟩, ⟨_, rfl, rfl⟩, fun _ mem => absurd mem List.not_mem_nil⟩
  have single (t : RowType) (i : Int64) (one : t.nullability = [false]) : t.Fits true [.int i] := by
    rw [RowType.Fits, one]
    exact .cons (fun _ _ => rfl) .nil
  have stocked : ∀ n ∈ p.nodes, n.Stocked true w.store := by
    rw [nodes]
    simp only [List.forall_mem_cons]
    refine ⟨trivial, trivial, ?_, ?_, fun _ mem => absurd mem List.not_mem_nil⟩
    · change ∀ row ∈ [[.int 1], [.int 2]], left.Fits true row
      simp [single left _ rfl]
    · change ∀ row ∈ [[.int 2]], right.Fits true row
      simp [single right _ rfl]
  have marked : ∀ n ∈ p.nodes, n.Marked := by
    rw [nodes]
    simp only [List.forall_mem_cons]
    refine ⟨?_, trivial, trivial, trivial, fun _ mem => absurd mem List.not_mem_nil⟩
    change ∀ e ∈ [Expr.ref 0 .integer false, .ref 1 .integer true,
      .call .isNotNull [.ref 0 .integer false] .boolean], e.Everywhere (Expr.Marked joined)
    simp [Expr.Marked, joined]
  refine ⟨rfl, ?_, fun row mem => ?_⟩
  · rw [emitted_eq_feed query rfl]
    rfl
  · obtain ⟨long, present⟩ := (emitted_declared c ctx w p query made stocked marked).1 row mem
    refine ⟨long, fun null => ?_⟩
    cases present 0 _ _ rfl rfl null

end Compiler

end FederatedQuery
