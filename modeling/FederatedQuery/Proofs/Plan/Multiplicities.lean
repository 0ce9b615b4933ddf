import FederatedQuery.Proofs.Plan.Feed
import FederatedQuery.Proofs.Rows.Bags

/-!
How often a row comes out of a set operation on several inputs. Cursors combine the inputs two at a time; the numbers
of a row come to the arithmetic of multisets on all inputs at once, and the rows stay in the order of the inputs.
-/
namespace FederatedQuery

namespace Rows

open scoped Classical

/-- How often a row stands in a list. -/
noncomputable def occurrences (row : Row) (rows : List Row) : Nat := Multiset.count row rows

/-- How often a row comes out of a set operation, from how often it stands in the first input and in the others. -/
def multiplicity : SetOp → Bool → Nat → List Nat → Nat
  | .union, true, n, others => n + others.sum
  | .union, false, n, others => if ∃ m ∈ n :: others, 0 < m then 1 else 0
  | .intersect, true, n, others => others.foldl min n
  | .intersect, false, n, others => if ∀ m ∈ n :: others, 0 < m then 1 else 0
  | .minus, true, n, others => n - others.sum
  | .minus, false, n, others => if 0 < n ∧ ∀ m ∈ others, m = 0 then 1 else 0

/-- The numbers of all inputs at once, or of the first two and then of the rest. -/
theorem multiplicity_cons (op : SetOp) (all : Bool) (n m : Nat) (others : List Nat) :
    multiplicity op all (multiplicity op all n [m]) others = multiplicity op all n (m :: others) := by
  cases op <;> cases all <;> simp [multiplicity] <;> grind

theorem count_bagOperation (op : SetOp) (all : Bool) (row : Row) (left right : Multiset Row) :
    (bagOperation op all left right).count row = multiplicity op all (left.count row) [right.count row] := by
  cases op <;> cases all <;>
    simp [bagOperation, multiplicity, Multiset.count_dedup, Multiset.count_pos, Multiset.count_eq_zero]

theorem count_foldl_bagOperation (op : SetOp) (all : Bool) (row : Row) (first : Multiset Row)
    {bags : List (Multiset Row)} (several : bags ≠ []) : (bags.foldl (bagOperation op all) first).count row =
      multiplicity op all (first.count row) (bags.map (Multiset.count row)) := by
  induction bags generalizing first with
  | nil => exact absurd rfl several
  | cons bag bags ih =>
    cases bags with
    | nil => exact count_bagOperation op all row first bag
    | cons =>
      rw [List.foldl_cons, ih _ (List.cons_ne_nil _ _), count_bagOperation, multiplicity_cons]
      rfl

theorem foldl_setOperation_sublist (op : SetOp) (all : Bool) (first : List Row) (lists : List (List Row)) :
    (lists.foldl (setOperation op all) first).Sublist (first ++ lists.flatten) := by
  induction lists generalizing first with
  | nil => exact List.sublist_append_left ..
  | cons list lists ih =>
    have here : (setOperation op all first list).Sublist (first ++ list) := by
      refine (setOperation_sublist op all first list).trans ?_
      split
      · exact .refl _
      · exact List.sublist_append_left ..
    rw [List.flatten_cons, ← List.append_assoc]
    exact (ih _).trans (here.append_right _)

end Rows

namespace Compiler

open Foreign Rows
open scoped Classical

/-- A set operation on several queries, run in process over rows without floats, gives every row as often as the
arithmetic of multisets says. The rows stand in the order of the inputs, and those of a union without repetitions
where they come first. -/
theorem execute_setOp_multiplicity {σ : Type} (c : Compiler σ) (ctx : Context) (w : World σ) (h : Head) (op : SetOp)
    (all : Bool) (first : Plan) (rest : List Plan) (rows : List Row) (lists : List (List Row))
    (pulled : h.traits.convention = .pull) (query : ∀ p ∈ first :: rest, ∀ n ∈ p.nodes, n.isQuery = true)
    (runs : List.Forall₂ (fun p rows => c.execute p ctx w = (.ok rows, w)) (first :: rest) (rows :: lists))
    (several : lists ≠ []) (free : ∀ list ∈ rows :: lists, ∀ r ∈ list, Value.itemFloats r = []) :
    ∃ out, c.execute (.setOp h op all first rest) ctx w = (.ok out, w) ∧
      (∀ row, occurrences row out = multiplicity op all (occurrences row rows) (lists.map (occurrences row))) ∧
      out.Sublist (rows ++ lists.flatten) ∧
      (op = .union → all = false → out = (rows ++ lists.flatten).eraseDupsBy Row.equal) := by
  have fed : List.Forall₂ (fun p rows => (∃ cursor, c.compile ctx p = .ok cursor) ∧
      (p.feed c.program? ctx.params w.store).result = .ok rows) (first :: rest) (rows :: lists) := by
    refine List.forall₂_iff_zip.2 ⟨runs.length_eq, fun {p rows} mem => ?_⟩
    have run : c.execute p ctx w = (.ok rows, w) := (List.forall₂_iff_zip.1 runs).2 mem
    obtain ⟨cursor, compiled⟩ := exists_compile_of_execute run
    rw [execute_of_compile (query p (List.of_mem_zip mem).1) compiled] at run
    exact ⟨⟨cursor, compiled⟩, congrArg Prod.fst run⟩
  obtain ⟨⟨⟨inner, compiled⟩, begun⟩, others⟩ := List.forall₂_cons.1 fed
  obtain ⟨cursor, chain⟩ : ∃ cursor, c.compileChain ctx (.combined op all) inner rest = .ok cursor :=
    exists_compileChain fun q mem => by
      obtain ⟨_, _, found, _⟩ := exists_of_forall₂_right others.flip mem
      exact found
  have compiled : c.compile ctx (.setOp h op all first rest) = .ok cursor := by
    rw [compile]
    exact inProcess_eq_ok.2 ⟨pulled, bind_eq_ok.2 ⟨inner, compiled, chain⟩⟩
  have whole : ∀ n ∈ (Plan.setOp h op all first rest).nodes, n.isQuery = true := by
    intro n mem
    rcases Plan.mem_nodes.1 mem with rfl | ⟨q, input, mem⟩
    · rfl
    · exact query q input n mem
  refine ⟨lists.foldl (setOperation op all) rows, ?_, fun row => ?_, foldl_setOperation_sublist .., ?_⟩
  · rw [execute_of_compile whole compiled, Plan.feed,
      Plan.result_feedChain_foldl begun (others.imp fun _ _ here => here.2)]
  · obtain ⟨here, later⟩ := List.forall_mem_cons.1 free
    rw [occurrences, (coe_foldl_setOperation op all here later).2,
      count_foldl_bagOperation _ _ _ _ (by simpa using several), List.map_map]
    rfl
  · rintro rfl rfl
    rw [foldl_setOperation fun _ _ => free]
    cases lists with
    | nil => exact absurd rfl several
    | cons list lists => rfl

/-- What is left of three rows when two other inputs hold the row once each, and a null as often. -/
theorem execute_setOp_multiplicity_minus :
    let head : Head := ⟨⟨[⟨"x", .integer, true⟩]⟩, { Traits.logical with convention := .pull }⟩
    let rows : List Row := [[.int 1], [.null], [.int 1], [.int 2], [.int 1]]
    let lists : List (List Row) := [[[.int 1], [.int 3]], [[.null], [.int 1], [.null]]]
    let c : Compiler Unit := .ofOptions .default
    let w : World Unit := ⟨[], [], 0, ()⟩
    c.execute (.setOp head .minus true (.values head rows) (lists.map (.values head))) ⟨fun _ => none, none⟩ w =
        (.ok [[.int 2], [.int 1]], w) ∧
      ∀ row, occurrences row [[.int 2], [.int 1]] =
        multiplicity .minus true (occurrences row rows) (lists.map (occurrences row)) := by
  intro head rows lists c w
  have read (list : List Row) : c.execute (.values head list) ⟨fun _ => none, none⟩ w = (.ok list, w) := by
    have query : ∀ n ∈ (Plan.values head list).nodes, n.isQuery = true := List.forall_mem_singleton.2 rfl
    rw [execute_of_compile query rfl]
    exact congrArg (·, w) (Feed.result_ofRows list)
  have query : ∀ p ∈ (rows :: lists).map (Plan.values head), ∀ n ∈ p.nodes, n.isQuery = true := by decide
  obtain ⟨out, run, counts, _⟩ := execute_setOp_multiplicity c ⟨fun _ => none, none⟩ w head .minus true _ _ rows lists
    rfl query (.cons (read _) (.cons (read _) (.cons (read _) .nil))) (List.cons_ne_nil _ _) (by decide)
  have executed : c.execute (.setOp head .minus true (.values head rows) (lists.map (.values head)))
      ⟨fun _ => none, none⟩ w = (.ok [[.int 2], [.int 1]], w) := by
    rw [execute_of_compile (by decide) rfl]
    rfl
  cases executed.symm.trans run
  exact ⟨executed, counts⟩

end Compiler

end FederatedQuery
