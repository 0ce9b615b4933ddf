import FederatedQuery.Proofs.Pipeline.Refusals
import FederatedQuery.Proofs.Plan.Placement
import FederatedQuery.Proofs.Plan.RowTypes
import FederatedQuery.Proofs.Sql.Refusals

/-!
Placement and emission. Placement judges operators one by one, and emission also by where they stand: a fragment that
was placed in a store has an artifact as far as its operators go, unless it changes a table below its root, or expands
an array in the condition of a join or in a value that it assigns.
-/
namespace FederatedQuery

open Plan

namespace Foreign.Emitters

/-- A fragment in one store whose operators the store supports has an artifact unless it has an obstacle, and is never
refused for an operator that is not one. -/
theorem ends_emit (dialects : List Dialect) {source : Convention} {p : Plan}
    (foreign : source.kind = .sql ∨ source.kind = .document) (here : p.convention = source)
    (supported : ∀ n ∈ p.nodes, source.supports n = true) (regular : ∀ n ∈ p.nodes, n.Regular) :
    Ends (fun _ => "Modify" ∉ p.obstacles ∧ (source ≠ .document → p.obstacles = []))
      (Error.Blames (· ∈ p.obstacles)) (emit ⟨some dialects, true⟩ p) := by
  unfold emit
  rw [here]
  cases source with
  | logical | pull => rcases foreign with stored | stored <;> cases stored
  | sql =>
    refine (Sql.ends_emit dialects supported regular).map fun _ clear => ?_
    rw [clear]
    exact ⟨List.not_mem_nil, fun _ => rfl⟩
  | document =>
    cases p with
    | modify h table op input =>
      have below := forall_nodes_of_mem regular (.head _)
      refine (Pipeline.ends_emitWrite (below input (mem_nodes_self input))).map fun _ clear => ?_
      refine ⟨fun mem => ?_, fun elsewhere => absurd rfl elsewhere⟩
      rcases mem_obstacles.1 mem with root | ⟨q, mem, inside⟩
      · exact rootObstacle?_ne_modify _ root
      · rw [List.mem_singleton.1 mem, clear] at inside
        cases inside
    | _ =>
      have emitted := (Pipeline.ends_emitQuery supported regular).blame fun _ => (mem_obstacles_of_query rfl).2
      refine emitted.map fun _ clear => ?_
      rw [(obstacles_eq_nil_of_query rfl).2 clear]
      exact ⟨List.not_mem_nil, fun _ => rfl⟩

end Foreign.Emitters

namespace Plan

variable {p q n : Plan}

theorem Constructed.assignments {h : Head} {table : Table} {columns : List Nat} {sources : List Expr} {input : Plan}
    (made : Constructed (.modify h table (.update columns sources) input)) : columns.length = sources.length := by
  obtain ⟨built, rebuilt, _⟩ := made
  by_contra differ
  rw [rebuild, modifyTable] at rebuilt
  split at rebuilt
  · cases rebuilt
  · obtain ⟨_, checked, _⟩ := bind_eq_ok.1 rebuilt
    rw [checkAssignments, if_pos differ] at checked
    cases checked

theorem Constructed.regular (made : p.Constructed) : p.Regular := by
  cases p with
  | calculate =>
    obtain ⟨fresh, _⟩ := made.new_program
    exact ⟨Program.condition_of_new fresh, (Program.checked_of_new fresh).projects⟩
  | modify h table op input =>
    cases op with
    | update => exact made.assignments
    | _ => trivial
  | _ => trivial

theorem inputs_bare (operator : p.isConverter = false) : p.bare.inputs = p.inputs.map bare := by
  cases p with
  | converter => cases operator
  | setOp | collect =>
    rw [bare, bareAll_eq_map]
    rfl
  | _ => rfl

theorem mem_nodes_bare : n ∈ p.bare.nodes ↔ ∃ m ∈ p.nodes, m.isConverter = false ∧ m.bare = n := by
  induction p using Plan.induction with
  | step p ih =>
    cases operator : p.isConverter with
    | true =>
      cases p with
      | converter h source input =>
        rw [bare, ih input (.head _)]
        constructor
        · rintro ⟨m, inside, found⟩
          exact ⟨m, mem_nodes.2 (.inr ⟨input, .head _, inside⟩), found⟩
        · rintro ⟨m, inside, operator, same⟩
          rcases mem_nodes.1 inside with rfl | ⟨q, mem, inside⟩
          · cases operator
          · rw [List.mem_singleton.1 mem] at inside
            exact ⟨m, inside, operator, same⟩
      | _ => cases operator
    | false =>
      rw [mem_nodes, inputs_bare operator]
      constructor
      · rintro (rfl | ⟨_, mapped, inside⟩)
        · exact ⟨p, mem_nodes_self p, operator, rfl⟩
        · obtain ⟨q, mem, rfl⟩ := List.mem_map.1 mapped
          obtain ⟨m, inside, found⟩ := (ih q mem).1 inside
          exact ⟨m, mem_nodes.2 (.inr ⟨q, mem, inside⟩), found⟩
      · rintro ⟨m, inside, operator, rfl⟩
        rcases mem_nodes.1 inside with rfl | ⟨q, mem, inside⟩
        · exact .inl rfl
        · exact .inr ⟨q.bare, List.mem_map_of_mem mem, (ih q mem).2 ⟨m, inside, operator, rfl⟩⟩

theorem regular_bare (operator : p.isConverter = false) : p.bare.Regular ↔ p.Regular := by
  cases p with
  | converter => cases operator
  | modify h table op input => cases op <;> exact Iff.rfl
  | _ => exact Iff.rfl

theorem regular_of_bare (same : q.bare = p.bare) (regular : ∀ n ∈ p.nodes, n.Regular) :
    ∀ n ∈ q.nodes, n.Regular := by
  intro n mem
  cases operator : n.isConverter with
  | true =>
    cases n with
    | converter => trivial
    | _ => cases operator
  | false =>
    have stripped : n.bare ∈ q.bare.nodes := mem_nodes_bare.2 ⟨n, mem, operator, rfl⟩
    rw [same] at stripped
    obtain ⟨m, inside, operator', same⟩ := mem_nodes_bare.1 stripped
    rw [← regular_bare operator, ← same, regular_bare operator']
    exact regular m inside

/-- Where no converter leads into a convention, a fragment in it has no converter at all. -/
theorem nodes_of_homogeneous {c : Convention} (homogeneous : p.isHomogeneous c = true)
    (elsewhere : ∀ n ∈ p.nodes, n.isConverter = true → n.convention ≠ c) :
    ∀ n ∈ p.nodes, n.convention = c ∧ n.isConverter = false := by
  induction p using Plan.induction with
  | step p ih =>
    obtain ⟨here, below⟩ := isHomogeneous_eq_true.1 homogeneous
    have operator : p.isConverter = false := Bool.eq_false_iff.2 fun converter =>
      elsewhere p (mem_nodes_self p) converter here
    intro n mem
    rcases mem_nodes.1 mem with rfl | ⟨q, input, inside⟩
    · exact ⟨here, operator⟩
    · rcases below with converter | below
      · rw [operator] at converter
        cases converter
      · exact ih q input (below q input) (forall_nodes_of_mem elsewhere input) n inside

end Plan

namespace Planner

/-- The planner's own converters lead from the stores into cursors. -/
theorem stores_of_canConvert {source target : Convention} (apart : source ≠ target)
    (converts : default.canConvert source target = true) :
    target = .pull ∧ (source.kind = .sql ∨ source.kind = .document) := by
  rw [canConvert, decide_eq_false apart, Bool.false_or, decide_eq_true_eq] at converts
  rcases List.mem_cons.1 converts with same | converts
  · exact ⟨(Prod.mk.inj same).2, .inl (Prod.mk.inj same).1⟩
  · have same := List.mem_singleton.1 converts
    exact ⟨(Prod.mk.inj same).2, .inr (Prod.mk.inj same).1⟩

/-- The input of a converter is one fragment of a store, whose operators the store supports. -/
theorem fragment_of_converter {p q input : Plan} {h : Head} {source : Convention}
    (constructed : ∀ n ∈ p.nodes, n.Constructed) (planned : default.plan .pull p = .ok q)
    (boundary : .converter h source input ∈ q.nodes) :
    (source.kind = .sql ∨ source.kind = .document) ∧ input.convention = source ∧
      (∀ n ∈ input.nodes, source.supports n = true) ∧ ∀ n ∈ input.nodes, n.Regular := by
  have bounded : Bounded p := fun h source input mem => by
    obtain ⟨built, rebuilt, same⟩ := constructed _ mem
    cases rebuilt
    exact Constructed.rowType_eq same
  have ends : Ends (fun q => default.Placed .pull q ∧ Computes p q) (default.Refused .pull p)
      (default.plan .pull p) := ends_plan (by decide) bounded
  rw [planned] at ends
  obtain ⟨placed, computes⟩ := ends
  have within (n : Plan) (mem : n ∈ input.nodes) : n ∈ q.nodes :=
    mem_nodes_trans (mem_nodes.2 (.inr ⟨input, .head _, mem⟩)) boundary
  obtain ⟨_, here, homogeneous, apart, converts⟩ := placed.settled _ boundary
  obtain ⟨_, foreign⟩ := stores_of_canConvert apart converts
  -- Converters lead into cursors only, so that the fragment goes on to its leaves.
  have whole := nodes_of_homogeneous homogeneous fun n mem converter same => by
    cases n with
    | converter h' source' input' =>
      obtain ⟨_, _, _, apart', converts'⟩ := placed.settled _ (within _ mem)
      have pull := (stores_of_canConvert apart' converts').1
      rw [← same, show (Plan.converter h' source' input').convention = .pull from pull] at foreign
      rcases foreign with stored | stored <;> cases stored
    | _ => cases converter
  refine ⟨foreign, here.symm, fun n mem => ?_, fun n mem => ?_⟩
  · obtain ⟨lives, operator⟩ := whole n mem
    have stands := placed.settled n (within n mem)
    cases n with
    | converter => cases operator
    | _ => exact lives ▸ stands.2
  · exact regular_of_bare computes.bare (fun m mem => (constructed m mem).regular) n (within n mem)

/-- Below a converter that placement leaves, emission reports an operator only for an obstacle of the fragment: a
change of a table below its root, or an array that is expanded in the condition of a join or in an assigned value. No
fragment that changes a table below its root is emitted, and none with any obstacle as a statement. -/
theorem refused_only_for_obstacles (dialects : List Dialect) {p q input : Plan} {h : Head} {source : Convention}
    (constructed : ∀ n ∈ p.nodes, n.Constructed) (planned : default.plan .pull p = .ok q)
    (boundary : .converter h source input ∈ q.nodes) :
    (∀ e, Foreign.Emitters.emit ⟨some dialects, true⟩ input = .error e → ∀ construct ∈ operatorConstructs,
      e.construct? = some construct → construct ∈ input.obstacles) ∧
    ∀ artifact, Foreign.Emitters.emit ⟨some dialects, true⟩ input = .ok artifact →
      "Modify" ∉ input.obstacles ∧ (source ≠ .document → input.obstacles = []) := by
  obtain ⟨foreign, here, supported, regular⟩ := fragment_of_converter constructed planned boundary
  have ends := Foreign.Emitters.ends_emit dialects foreign here supported regular
  constructor
  · intro e failed
    rw [failed] at ends
    exact ends
  · intro artifact emitted
    rw [emitted] at ends
    exact ends

/-- The count of a deletion, limited to one row. -/
def limitedDeletion : Plan :=
  let table : Table := { Table.named "emp" ⟨[⟨"id", .integer, false⟩]⟩ with convention := .sql "mysql" }
  .sort (logicalHead .rowCount) [] none (some 1) (.modify (logicalHead .rowCount) table .delete (ofTable table))

theorem refused_only_for_obstacles_limitedDeletion : (∀ n ∈ limitedDeletion.nodes, n.Constructed) ∧
    ∃ q h input, default.plan .pull limitedDeletion = .ok q ∧ .converter h (.sql "mysql") input ∈ q.nodes ∧
      Foreign.Emitters.default.emit input =
        .error (.unsupported "mysql" "Modify" "data modification can only be the root of a SQL statement") ∧
      "Modify" ∈ input.obstacles := by
  have constructed : ∀ n ∈ limitedDeletion.nodes, n.Constructed := by
    intro n mem
    simp [limitedDeletion, nodes, ofTable] at mem
    rcases mem with rfl | rfl | rfl <;> exact ⟨_, rfl, rfl⟩
  refine ⟨constructed, _, _, _, rfl, mem_nodes_self _, rfl, ?_⟩
  exact (refused_only_for_obstacles Dialect.presets constructed rfl (mem_nodes_self _)).1 (.unsupported _ "Modify" _)
    rfl "Modify" (by decide) rfl

end Planner

end FederatedQuery
