import FederatedQuery.Proofs.Rows.Bags
import FederatedQuery.Proofs.Sql.Translation

/-!
Trees of set operations over tables. The statement of such a tree splices an operation into the one above it where
the two are alike, and cursors nest them. Read from left to right, what the statement lists comes to the same multiset
of rows.
-/
namespace FederatedQuery

open Foreign

namespace Plan

/-- A set operation, or a table that is stored in process and in a database, without floats. -/
def Combines (db : Sql.Database) (store : Store) : Plan → Prop
  | scan _ table => table.stored = true ∧ db.Holds store table ∧
      ∀ row ∈ store.rows table.name, Value.itemFloats row = []
  | setOp .. => True
  | _ => False

mutual

/-- Set operations and what they start from, run by cursors. -/
def chained : Plan → Plan
  | setOp h op all first rest => setOp (Planner.setConvention h .pull) op all (chained first) (chainedAll rest)
  | p => p.withConvention .pull

def chainedAll : List Plan → List Plan
  | [] => []
  | p :: rest => chained p :: chainedAll rest

end

theorem chainedAll_eq_map (plans : List Plan) : chainedAll plans = plans.map chained := by
  induction plans with
  | nil => rfl
  | cons _ _ ih => rw [chainedAll, ih, List.map_cons]

theorem runs_chained {db : Sql.Database} {store : Store} {p : Plan} (tree : ∀ n ∈ p.nodes, n.Combines db store) :
    ∀ n ∈ p.chained.nodes, n.isQuery = true ∧ n.Runs := by
  apply p.induction_nodes
  intro p node below n mem
  have here := tree p node
  rcases mem_nodes.1 mem with rfl | ⟨q, input, mem⟩
  · cases p with
    | scan => exact ⟨rfl, rfl, if_pos here.1⟩
    | setOp => exact ⟨rfl, rfl⟩
    | _ => exact here.elim
  · cases p with
    | scan => cases input
    | setOp =>
      rw [chained, inputs, chainedAll_eq_map, ← List.map_cons] at input
      obtain ⟨q, inside, rfl⟩ := List.mem_map.1 input
      exact below q inside n mem
    | _ => exact here.elim

theorem isQuery_chained {db : Sql.Database} {store : Store} {p : Plan} (tree : ∀ n ∈ p.nodes, n.Combines db store) :
    ∀ n ∈ p.chained.nodes, n.isQuery = true :=
  fun n mem => (runs_chained tree n mem).1

end Plan

namespace Sql

open Rows

variable {d : Dialect} {db : Database} {params : Bindings}

mutual

/-- The rows of a query, as a multiset. An operation on several queries combines them from left to right. -/
noncomputable def Query.bag (db : Database) (params : Bindings) : Query → Except Error (Multiset Row)
  | .select block => ((Query.select block).meaning db params).map fun r => ↑r.rows
  | .setOp op all inputs => do
    match ← queryBags db params inputs with
    | [] => .error (meaningless op.name)
    | first :: rest => return rest.foldl (bagOperation op all) first

noncomputable def queryBags (db : Database) (params : Bindings) : List Query → Except Error (List (Multiset Row))
  | [] => .ok []
  | q :: rest => return (← q.bag db params) :: (← queryBags db params rest)

end

theorem queryBags_eq_mapM (qs : List Query) : queryBags db params qs = qs.mapM (Query.bag db params) := by
  induction qs with
  | nil => rfl
  | cons _ _ ih => rw [queryBags, List.mapM_cons, ih]

/-- Queries with the multisets of their rows. -/
abbrev Bagged (db : Database) (params : Bindings) (qs : List Query) (bags : List (Multiset Row)) : Prop :=
  List.Forall₂ (fun q m => q.bag db params = .ok m) qs bags

section Flattened

variable {op : SetOp} {all : Bool} {q : Query} {m : Multiset Row} {bags : List (Multiset Row)}

theorem bag_setOp {inputs : List Query} : (Query.setOp op all inputs).bag db params = .ok m ↔
    ∃ first rest, Bagged db params inputs (first :: rest) ∧ rest.foldl (bagOperation op all) first = m := by
  rw [Query.bag, queryBags_eq_mapM]
  constructor
  · intro success
    obtain ⟨bags, each, success⟩ := bind_eq_ok.1 success
    cases bags with
    | nil => cases success
    | cons first rest => exact ⟨first, rest, mapM_eq_ok.1 each, Except.ok.inj success⟩
  · rintro ⟨first, rest, each, rfl⟩
    exact bind_eq_ok.2 ⟨_, mapM_eq_ok.2 each, rfl⟩

/-- The first operand begins the fold, taken apart or not. -/
theorem bagged_flattened_first (op : SetOp) (all : Bool) (means : q.bag db params = .ok m) : ∃ first rest,
    Bagged db params (flattened op all true q) (first :: rest) ∧ rest.foldl (bagOperation op all) first = m := by
  have whole : ∃ first rest, Bagged db params [q] (first :: rest) ∧ rest.foldl (bagOperation op all) first = m :=
    ⟨m, [], .cons means .nil, rfl⟩
  cases q with
  | select => exact whole
  | setOp =>
    rw [flattened]
    split
    · next alike =>
      obtain ⟨rfl, rfl, _⟩ := alike
      exact bag_setOp.1 means
    · exact whole

/-- A later operand continues the fold. It is taken apart only where the operation is associative. -/
theorem bagged_flattened_later (op : SetOp) (all : Bool) (means : q.bag db params = .ok m) : ∃ bags,
    Bagged db params (flattened op all false q) bags ∧
      ∀ before, bags.foldl (bagOperation op all) before = bagOperation op all before m := by
  have whole : ∃ bags, Bagged db params [q] bags ∧
      ∀ before, bags.foldl (bagOperation op all) before = bagOperation op all before m :=
    ⟨[m], .cons means .nil, fun _ => rfl⟩
  cases q with
  | select => exact whole
  | setOp op' all' inputs =>
    rw [flattened]
    split
    · next alike =>
      obtain ⟨rfl, rfl, grouped⟩ := alike
      obtain ⟨first, rest, each, rfl⟩ := bag_setOp.1 means
      have associative : Std.Associative (bagOperation op' all') :=
        ⟨bagOperation_assoc (grouped.resolve_right Bool.false_ne_true) all'⟩
      exact ⟨first :: rest, each, fun before => List.foldl_assoc⟩
    · exact whole

/-- The operands after the first, each taken apart or not, continue the fold as they are. -/
theorem bagged_flatMap (op : SetOp) (all : Bool) {fs : List Fragment}
    (each : Bagged db params (fs.map Fragment.toQuery) bags) : ∃ listed,
      Bagged db params (fs.flatMap fun f => flattened op all false f.toQuery) listed ∧
        ∀ before, listed.foldl (bagOperation op all) before = bags.foldl (bagOperation op all) before := by
  induction fs generalizing bags with
  | nil =>
    cases each
    exact ⟨[], .nil, fun _ => rfl⟩
  | cons _ _ ih =>
    cases each with
    | cons here others =>
      obtain ⟨head, first, taken⟩ := bagged_flattened_later op all here
      obtain ⟨tail, rest, later⟩ := ih others
      refine ⟨head ++ tail, List.rel_append first rest, fun before => ?_⟩
      rw [List.foldl_append, taken, later, List.foldl_cons]

theorem bag_setOpFragment {first : Fragment} {rest : List Fragment} (names : List String)
    (here : first.toQuery.bag db params = .ok m) (each : Bagged db params (rest.map Fragment.toQuery) bags) :
    (setOpFragment op all names first rest).toQuery.bag db params = .ok (bags.foldl (bagOperation op all) m) := by
  cases rest with
  | nil =>
    cases each
    exact here
  | cons =>
    obtain ⟨head, tail, begun, rfl⟩ := bagged_flattened_first op all here
    obtain ⟨listed, continued, same⟩ := bagged_flatMap op all each
    refine bag_setOp.2 ⟨head, tail ++ listed, List.rel_append begun continued, ?_⟩
    rw [List.foldl_append, same]

end Flattened

section Trees

variable {store : Store} {p : Plan} {ready : Program → Plan → Option Program} {table : Table}

/-- The rows of a table without columns are read as they are. -/
theorem meaning_scanned_empty (held : db.Holds store table) (empty : table.rowType.names = []) :
    ∃ names, (scanned table).toQuery.meaning db params = .ok ⟨names, store.rows table.name⟩ := by
  have fields : tableColumns table = [] := by
    refine List.eq_nil_of_length_eq_zero ?_
    rw [length_tableColumns, ← RowType.length_names, empty, List.length_nil]
  have query : (scanned table).toQuery =
      .select { Select.empty with source := some (.table table.path none) } := by
    rw [scanned, fields]
    rfl
  have whole (scope : Scope) : List.Forall₂ (fun r row => Reading.whole r = .ok row)
      ((store.rows table.name).map (.ofRow scope)) (store.rows table.name) := by
    rw [List.forall₂_map_left_iff, List.forall₂_same]
    exact fun _ _ => rfl
  rw [query, Query.meaning, Query.meaningBy, Select.meaningBy, sourceMeaningBy, Source.meaningBy, held.stored]
  exact ⟨_, bind_eq_ok.2 ⟨_, rfl, bind_eq_ok.2 ⟨_, rfl, bind_eq_ok.2 ⟨_, mapM_eq_ok.2 (whole _), rfl⟩⟩⟩⟩

theorem bag_scanned (held : db.Holds store table) :
    (scanned table).toQuery.bag db params = .ok (store.rows table.name) := by
  have means : ∃ names, (scanned table).toQuery.meaning db params = .ok ⟨names, store.rows table.name⟩ := by
    by_cases columns : (scanned table).names = []
    · exact meaning_scanned_empty held columns
    · obtain ⟨scope, denotes⟩ := denotes_scanned held
      exact ⟨_, denotes.meaning columns⟩
  obtain ⟨names, means⟩ := means
  exact map_eq_ok.2 ⟨_, means, rfl⟩

theorem exists_fragments {R : Plan → Fragment → Prop} {plans : List Plan}
    (each : ∀ p ∈ plans, ∀ next, ∃ f after, fragment d p next = .ok (f, after) ∧ R p f) (next : Nat) :
    ∃ fs after, fragments d plans next = .ok (fs, after) ∧ List.Forall₂ R plans fs := by
  induction plans generalizing next with
  | nil => exact ⟨[], next, rfl, .nil⟩
  | cons _ _ ih =>
    obtain ⟨here, later⟩ := List.forall_mem_cons.1 each
    obtain ⟨f, middle, first, related⟩ := here next
    obtain ⟨fs, after, others, all⟩ := ih later middle
    refine ⟨f :: fs, after, ?_, .cons related all⟩
    exact bind_eq_ok.2 ⟨_, first, bind_eq_ok.2 ⟨_, others, rfl⟩⟩

/-- A tree has rows in process, and its fragment means these rows. -/
theorem bag_fragment (d : Dialect) (ready : Program → Plan → Option Program) (params : Bindings)
    (tree : ∀ n ∈ p.nodes, n.Combines db store) :
    ∃ rows : List Row, (p.chained.feed ready params store).result = .ok rows ∧
      (∀ r ∈ rows, Value.itemFloats r = []) ∧
        ∀ next, ∃ f after, fragment d p next = .ok (f, after) ∧ f.toQuery.bag db params = .ok rows := by
  apply p.induction_nodes
  intro n node below
  have here := tree n node
  cases n with
  | scan =>
    obtain ⟨_, held, free⟩ := here
    exact ⟨_, Feed.result_ofRows _, free, fun next => ⟨_, next, rfl, bag_scanned held⟩⟩
  | setOp h op all first rest =>
    obtain ⟨rows, fed, free, each⟩ := below first (.head _)
    obtain ⟨lists, related⟩ := exists_forall₂ fun q mem => below q (.tail _ mem)
    have others : ∀ list ∈ lists, ∀ r ∈ list, Value.itemFloats r = [] := by
      intro list mem
      obtain ⟨q, _, _, free, _⟩ := exists_of_forall₂_right related mem
      exact free
    have chains : List.Forall₂ (fun q rows => (q.feed ready params store).result = .ok rows)
        (Plan.chainedAll rest) lists := by
      rw [Plan.chainedAll_eq_map, List.forall₂_map_left_iff]
      exact related.imp fun _ _ here => here.1
    obtain ⟨kept, same⟩ := coe_foldl_setOperation op all free others
    refine ⟨_, Plan.result_feedChain_foldl fed chains, kept, fun next => ?_⟩
    obtain ⟨f, middle, written, means⟩ := each next
    have later : ∀ q ∈ rest, ∀ next, ∃ f after, fragment d q next = .ok (f, after) ∧
        ∀ rows, (q.chained.feed ready params store).result = .ok rows →
          f.toQuery.bag db params = .ok (Multiset.ofList rows) := by
      intro q mem next
      obtain ⟨rows, fed, _, each⟩ := below q (.tail _ mem)
      obtain ⟨f, after, written, means⟩ := each next
      refine ⟨f, after, written, fun rows' fed' => ?_⟩
      cases fed.symm.trans fed'
      exact means
    obtain ⟨fs, after, written', bags⟩ := exists_fragments later middle
    have bagged : Bagged db params (fs.map Fragment.toQuery) (lists.map Multiset.ofList) := by
      rw [Bagged, List.forall₂_map_left_iff, List.forall₂_map_right_iff]
      exact forall₂_through bags related fun _ _ _ _ means has => means _ has.1
    refine ⟨setOpFragment op all h.rowType.names f fs, after, ?_, ?_⟩
    · exact bind_eq_ok.2 ⟨_, written, bind_eq_ok.2 ⟨_, written', rfl⟩⟩
    · rw [same]
      exact bag_setOpFragment _ means bagged
  | _ => exact here.elim

end Trees

end Sql

namespace Compiler

variable {σ : Type} {c : Compiler σ} {ctx : Context} {w : World σ} {db : Sql.Database} {p : Plan}

theorem exists_compile_chained (c : Compiler σ) (ctx : Context) (tree : ∀ n ∈ p.nodes, n.Combines db w.store) :
    ∃ cursor, c.compile ctx p.chained = .ok cursor := by
  exact exists_compile c ctx (Plan.isQuery_chained tree) fun n mem => (Plan.runs_chained tree n mem).2

end Compiler

namespace Sql

/-- A tree of set operations over tables has a statement in every dialect and runs in process, and the query of the
statement means the multiset of the rows that cursors give. -/
theorem bag_statement {σ : Type} (c : Compiler σ) (d : Dialect) (db : Database) (ctx : Context) (w : World σ)
    (p : Plan) (tree : ∀ n ∈ p.nodes, n.Combines db w.store) :
    ∃ q rows, statement d p = .ok (.query q) ∧ c.execute p.chained ctx w = (.ok rows, w) ∧
      q.bag db ctx.params = .ok rows := by
  obtain ⟨cursor, compiled⟩ := Compiler.exists_compile_chained c ctx tree
  obtain ⟨rows, fed, _, each⟩ := bag_fragment d c.program? ctx.params tree
  obtain ⟨f, after, written, means⟩ := each 0
  refine ⟨f.toQuery, rows, ?_, ?_, means⟩
  · have here := tree p p.mem_nodes_self
    cases p with
    | scan | setOp => exact bind_eq_ok.2 ⟨_, written, rfl⟩
    | _ => exact here.elim
  · rw [Compiler.execute_of_compile (Plan.isQuery_chained tree) compiled, fed]

/-- A difference over a difference and over a union that holds a union of one table. The inner difference and the
inner unions are spliced in, and the union is not. -/
theorem bag_statement_nested :
    let rowType : RowType := ⟨[⟨"x", .integer, false⟩]⟩
    let head : Head := ⟨rowType, .logical⟩
    let table (name : String) : Table := { Table.named name rowType with stored := true }
    let scan (name : String) := Plan.scan head (table name)
    let union (first : Plan) (rest : List Plan) := Plan.setOp head .union false first rest
    let p := Plan.setOp head .minus true (.setOp head .minus true (scan "a") [scan "b"])
      [union (scan "b") [union (scan "c") [union (scan "b") []]]]
    let stored : Store := [("a", [[.int 1], [.int 1], [.int 2], [.int 1], [.int 3]]), ("b", [[.int 1], [.int 1]]),
      ("c", [[.int 2]])]
    let db : Database := fun path => some ⟨["x"], stored.rows (path.head?.getD "")⟩
    let w : World Unit := ⟨stored, [], 0, ()⟩
    let c : Compiler Unit := .ofOptions .default
    let ctx : Context := ⟨fun _ => none, none⟩
    let read (name : String) : Query := .select { Select.empty with source := some (.table [name] none) }
    let q : Query := .setOp .minus true [read "a", read "b", .setOp .union false [read "b", read "c", read "b"]]
    statement .ansi p = .ok (.query q) ∧ c.execute p.chained ctx w = (.ok [[.int 3]], w) ∧
      q.bag db ctx.params = .ok {[.int 3]} := by
  intro rowType head table scan union p stored db w c ctx read q
  have held : ∀ name ∈ ["a", "b", "c"], (scan name).Combines db w.store := by
    intro name known
    have rows : ∀ row ∈ stored.rows name, row.length = 1 ∧ Value.itemFloats row = [] := by
      revert name
      decide
    exact ⟨rfl, ⟨rfl, List.nodup_singleton _, rfl, fun row mem => (rows row mem).1⟩, fun row mem => (rows row mem).2⟩
  have tree : ∀ n ∈ p.nodes, n.Combines db w.store := by
    have nodes : p.nodes = [p, .setOp head .minus true (scan "a") [scan "b"], scan "a", scan "b",
      union (scan "b") [union (scan "c") [union (scan "b") []]], scan "b", union (scan "c") [union (scan "b") []],
      scan "c", union (scan "b") [], scan "b"] := rfl
    rw [nodes]
    simp only [List.forall_mem_cons]
    have a := held "a" (by decide)
    have b := held "b" (by decide)
    have c := held "c" (by decide)
    exact ⟨trivial, trivial, a, b, trivial, b, trivial, c, trivial, b, fun _ mem => absurd mem List.not_mem_nil⟩
  have written : statement .ansi p = .ok (.query q) := rfl
  have executed : c.execute p.chained ctx w = (.ok [[.int 3]], w) := by
    obtain ⟨cursor, compiled⟩ := Compiler.exists_compile_chained c ctx tree
    rw [Compiler.execute_of_compile (Plan.isQuery_chained tree) compiled]
    rfl
  obtain ⟨q', rows, stated, run, means⟩ := bag_statement c .ansi db ctx w p tree
  cases written.symm.trans stated
  cases executed.symm.trans run
  exact ⟨written, executed, means⟩

end Sql

end FederatedQuery
