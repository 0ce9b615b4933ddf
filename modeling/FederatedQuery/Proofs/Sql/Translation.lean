import FederatedQuery.Plan.Placement
import FederatedQuery.Proofs.Plan.RowTypes
import FederatedQuery.Proofs.Sql.Fragments

/-!
The statement of a plan of conditions, projections and groupings over a table. It means the rows that
the plan has when cursors run it.
-/
namespace FederatedQuery

open Foreign

def Table.columns (t : Table) : List String := t.physicalNames.getD t.rowType.names

/-- The rows of a table are in a database, under its columns. -/
structure Sql.Database.Holds (db : Database) (store : Store) (table : Table) : Prop where
  one : table.columns.length = table.rowType.arity
  distinct : table.columns.Nodup
  stored : db table.path = some ⟨table.columns, store.rows table.name⟩
  full : ∀ row ∈ store.rows table.name, row.length = table.columns.length

namespace Plan

/-- The operators over one input, and what they start from, run by cursors. -/
def pulled : Plan → Plan
  | calculate h program input => calculate (Planner.setConvention h .pull) program (pulled input)
  | aggregate h group calls input => aggregate (Planner.setConvention h .pull) group calls (pulled input)
  | p => p.withConvention .pull

/-- A table, a filter or projection, or a grouping by keys, in expressions that have a standard meaning. -/
def Selects : Plan → Prop
  | scan .. => True
  | calculate _ program _ => program.unwindPosition = none ∧
      ∀ e ∈ program.projects ++ program.condition.toList, e.Everywhere Expr.Standard
  | aggregate _ group _ _ => group ≠ []
  | _ => False

/-- The literals of an operator that selects can be written. -/
def Spelled (d : Dialect) : Plan → Prop
  | calculate _ program _ => ∀ e ∈ program.projects ++ program.condition.toList, e.Everywhere (Expr.Spelled d)
  | _ => True

/-- The table that an operator reads, if it reads one, is held by a database. -/
def Held (db : Sql.Database) (store : Store) : Plan → Prop
  | scan _ table => db.Holds store table
  | _ => True

/-- An operator of a select, over a table that a database holds. -/
structure Selected (db : Sql.Database) (store : Store) (n : Plan) : Prop where
  made : n.Constructed
  selects : n.Selects
  columns : n.rowType.names ≠ []
  distinct : n.rowType.names.Nodup
  held : n.Held db store

variable {params : Bindings} {store : Store} {p : Plan}

theorem feed_pulled (selects : ∀ n ∈ p.nodes, n.Selects) :
    p.pulled.feed asWritten params store = p.feed asWritten params store := by
  apply p.induction_nodes
  intro n node below
  cases n with
  | scan => rfl
  | calculate h program input => simp only [pulled, feed, below input (.head _), asWritten]
  | aggregate h group calls input => simp only [pulled, feed, below input (.head _)]
  | _ => exact (selects _ node).elim

theorem isQuery_pulled (selects : ∀ n ∈ p.nodes, n.Selects) : ∀ n ∈ p.pulled.nodes, n.isQuery = true := by
  apply p.induction_nodes
  intro p node below n mem
  cases p with
  | scan =>
    rw [List.mem_singleton.1 mem]
    rfl
  | calculate h program input | aggregate h group calls input =>
    rcases List.mem_cons.1 mem with rfl | mem
    · rfl
    · exact below input (.head _) n mem
  | _ => exact (selects _ node).elim

end Plan

namespace Sql

variable {d : Dialect} {db : Database} {params : Bindings} {store : Store} {p : Plan} {rows : List Row} {f : Fragment}
  {next after : Nat} {table : Table}

theorem length_tableColumns (table : Table) : (tableColumns table).length = table.rowType.arity := by
  rw [tableColumns, List.length_map, List.length_range]

theorem tableColumns_eq (one : table.columns.length = table.rowType.arity) : tableColumns table = table.columns := by
  have named (i : Nat) : table.physicalName? i = table.columns[i]? := by
    rw [Table.physicalName?, Table.columns]
    cases table.physicalNames with
    | some => rfl
    | none => exact (List.getElem?_map ..).symm
  refine List.ext_getElem ((length_tableColumns table).trans one.symm) fun i _ inside => ?_
  simp only [tableColumns, List.getElem_map, List.getElem_range, named, List.getElem?_eq_getElem inside,
    Option.getD_some]

theorem denotes_scanned (held : db.Holds store table) :
    ∃ scope, (scanned table).Denotes db params scope (store.rows table.name) (store.rows table.name) := by
  refine ⟨table.columns.map (table.path.getLast?.getD "", ·), ?_⟩
  have names := Scope.names_map (table.path.getLast?.getD "") table.columns
  have meaning : (Source.table table.path none).meaningBy Select.isGrouped db params =
      .ok (table.columns.map (table.path.getLast?.getD "", ·), store.rows table.name) := by
    simp only [Source.meaningBy, held.stored, Option.getD_none]
  rw [scanned, tableColumns_eq held.one]
  have named : table.rowType.names.length = (table.columns.map (table.path.getLast?.getD "", ·)).length := by
    rw [RowType.length_names, List.length_map, held.one]
  have denotes := Block.denotes_ofSource [table.physicalTable] meaning (names.symm ▸ held.distinct)
    (by simpa using held.full) named
  rwa [names] at denotes

theorem denotes_fragment (selected : ∀ n ∈ p.nodes, n.Selected db store) (written : fragment d p next = .ok (f, after))
    (success : (p.feed Plan.asWritten params store).result = .ok rows) :
    ∃ b scope base, f = .block b ∧ b.Denotes db params scope base rows ∧ b.names = p.rowType.names ∧
      ((groupKeys? p).isSome = true → .groupBy ∈ b.clauses) := by
  revert f next after rows
  apply p.induction_nodes
  intro n node ih f next after rows written success
  have here := selected n node
  cases n with
  | scan =>
    cases written
    rw [Plan.feed, Feed.result_ofRows] at success
    cases success
    obtain ⟨scope, denotes⟩ := denotes_scanned here.held
    exact ⟨_, scope, _, rfl, denotes, congrArg RowType.names here.made.scan.symm, fun keyed => by cases keyed⟩
  | calculate h program input =>
    have mem := List.mem_singleton_self input
    obtain ⟨same, arity, checked⟩ := here.made.calculate
    obtain ⟨⟨inner, middle⟩, before, written⟩ := bind_eq_ok.1 written
    obtain ⟨source, made, found, each, rfl⟩ := Feed.result_expand_eq_ok.1 success
    obtain ⟨b, scope, base, rfl, denotes, names, groups⟩ := ih input mem before found
    have one := selected input (Plan.mem_nodes_trans (Plan.mem_nodes_of_input (.head _)) node)
    have read : b.names.length = program.input.arity := by rw [names, RowType.length_names, arity]
    have given : h.rowType.names.length = program.projects.length := by
      rw [same, RowType.length_names]
      exact checked.output.length_eq.symm
    obtain ⟨b', scope', base', rfl, denotes', names'⟩ :=
      denotes_programFragment denotes (names ▸ one.columns) (names ▸ one.distinct) groups read given
        here.selects.1 here.selects.2 written each
    exact ⟨b', scope', base', rfl, denotes', names', fun keyed => by cases keyed⟩
  | aggregate h group calls input =>
    have mem := List.mem_singleton_self input
    obtain ⟨⟨inner, middle⟩, before, written⟩ := bind_eq_ok.1 written
    rw [Plan.feed, Feed.result_ofResult] at success
    obtain ⟨source, found, aggregated⟩ := bind_eq_ok.1 success
    obtain ⟨b, scope, base, rfl, denotes, names, _⟩ := ih input mem before found
    have one := selected input (Plan.mem_nodes_trans (Plan.mem_nodes_of_input (.head _)) node)
    obtain ⟨b', scope', base', rfl, denotes', names', grouped⟩ :=
      denotes_aggregateFragment denotes (names ▸ one.columns) (names ▸ one.distinct) here.selects
        (by rw [RowType.length_names, here.made.arity_aggregate]) written aggregated
    exact ⟨b', scope', base', rfl, denotes', names', fun _ => grouped⟩
  | _ => exact here.selects.elim

theorem exists_fragment (made : ∀ n ∈ p.nodes, n.Constructed) (selects : ∀ n ∈ p.nodes, n.Selects)
    (spelled : ∀ n ∈ p.nodes, n.Spelled d) (next : Nat) :
    ∃ b after, fragment d p next = .ok (.block b, after) ∧ b.Wide p.rowType.arity := by
  revert next
  apply p.induction_nodes
  intro n node below next
  have here := made n node
  have selected := selects n node
  cases n with
  | scan h table =>
    have same : table.rowType.arity = h.rowType.arity := congrArg RowType.arity here.scan.symm
    exact ⟨scanned table, next, rfl, ((List.length_map _).trans (length_tableColumns table)).trans same,
      (RowType.length_names _).trans same⟩
  | calculate h program input =>
    obtain ⟨b, middle, written, wide⟩ := below input (.head _) next
    obtain ⟨same, arity, checked⟩ := here.calculate
    have columns : h.rowType.arity = program.projects.length := same ▸ checked.output.length_eq.symm
    rw [fragment, written, Plan.rowType, Plan.head, columns]
    have writable := spelled _ node
    exact exists_programFragment (arity ▸ wide) _ selected.1
      (fun e mem => ⟨checked.refs e mem, selected.2 e mem, writable e mem⟩)
      ((RowType.length_names _).trans columns) middle
  | aggregate h group calls input =>
    obtain ⟨b, middle, written, wide⟩ := below input (.head _) next
    obtain ⟨keyFields, callFields, keyed, called, _⟩ := here.aggregate
    have columns := h.rowType.length_names.trans here.arity_aggregate
    rw [fragment, written, ← RowType.length_names]
    refine exists_aggregateFragment wide _ selected (fun i mem => ?_) (fun call mem => ?_) columns middle
    · obtain ⟨field, _, found⟩ := exists_of_forall₂_right (mapM_eq_ok.1 keyed).flip mem
      exact Plan.index_of_groupField found
    · obtain ⟨field, _, found⟩ := exists_of_forall₂_right (mapM_eq_ok.1 called).flip mem
      exact Plan.args_of_callField found
  | _ => exact selected.elim

theorem statement_of_selects (selects : p.Selects) :
    statement d p = (fragment d p 0).map fun written => .query written.1.toQuery := by
  cases p with
  | scan | calculate | aggregate =>
    rw [statement]
    · cases fragment d _ 0 <;> rfl
    · simp
  | _ => exact selects.elim

/-- Where a plan of a select gives rows, its statement, in any dialect, means these rows under the names of its
columns; and there is a statement unless a literal cannot be written. -/
theorem meaning_statement {σ : Type} (c : Compiler σ) (d : Dialect) (db : Database) (ctx : Context)
    (w after : World σ) (p : Plan) (selected : ∀ n ∈ p.nodes, n.Selected db w.store) (rows : List Row)
    (success : { c with simplify := false }.execute p.pulled ctx w = (.ok rows, after)) :
    (∀ s, statement d p = .ok s → ∃ q, s = .query q ∧ q.meaning db ctx.params = .ok ⟨p.rowType.names, rows⟩) ∧
      ((∀ n ∈ p.nodes, n.Spelled d) → ∃ s, statement d p = .ok s) := by
  have selects : ∀ n ∈ p.nodes, n.Selects := fun n mem => (selected n mem).selects
  have here := selected p p.mem_nodes_self
  rw [statement_of_selects here.selects]
  constructor
  · intro s stated
    obtain ⟨⟨f, next⟩, written, rfl⟩ := map_eq_ok.1 stated
    obtain ⟨cursor, compiled⟩ := Compiler.exists_compile_of_execute success
    rw [Compiler.execute_of_compile (Plan.isQuery_pulled selects) compiled, Compiler.program?_of_plain rfl,
      Plan.feed_pulled selects, Prod.mk.injEq] at success
    obtain ⟨b, scope, base, rfl, denotes, names, _⟩ := denotes_fragment selected written success.1
    rw [← names]
    exact ⟨_, rfl, denotes.meaning (names ▸ here.columns)⟩
  · intro spelled
    obtain ⟨b, next, written, _⟩ := exists_fragment (fun n mem => (selected n mem).made) selects spelled 0
    exact ⟨_, map_eq_ok.2 ⟨_, written, rfl⟩⟩

/-- A filter, a grouping, a condition on the groups and a projection, over a table whose columns have other names
in the store. -/
theorem meaning_statement_having :
    let rowType : RowType := ⟨[⟨"x", .integer, false⟩, ⟨"y", .integer, true⟩]⟩
    let totals : RowType := ⟨[⟨"y", .integer, true⟩, ⟨"s", .bigInt, false⟩]⟩
    let x := Expr.ref 0 .integer false
    let y := Expr.ref 1 .integer true
    let s := Expr.ref 1 .bigInt false
    let large (e : Expr) := Expr.call .gt [e, .lit (.int 3)] .boolean
    let table : Table := { Table.named "t" rowType with
      path := ["shop", "T"], physicalNames := some ["a", "b"], stored := true }
    let scan := Plan.ofTable table
    let filtered := Plan.calculate ⟨rowType, .logical⟩ ⟨rowType, [x, y], some (large x), rowType⟩ scan
    let grouped := Plan.aggregate ⟨totals, .logical⟩ [1] [⟨.sum, [0], false, "s"⟩] filtered
    let sums : RowType := ⟨[⟨"z", .bigInt, false⟩]⟩
    let p := Plan.calculate ⟨sums, .logical⟩
      ⟨totals, [.call .plus [s, .lit (.int 1)] .bigInt], some (.call .isNotNull [.ref 0 .integer true] .boolean), sums⟩
      grouped
    let stored : List Row := [[.int 5, .int 1], [.int 2, .int 1], [.int 7, .null], [.int 4, .int 1]]
    let db : Database := fun path => if path = ["shop", "T"] then some ⟨["a", "b"], stored⟩ else none
    let w : World Unit := ⟨[("t", stored)], [], 0, ()⟩
    let c : Compiler Unit := .ofOptions .default
    let ctx : Context := ⟨fun _ => none, none⟩
    { c with simplify := false }.execute p.pulled ctx w = (.ok [[.int 10]], w) ∧
      ∃ q, statement .ansi p = .ok (.query q) ∧ q.meaning db ctx.params = .ok ⟨["z"], [[.int 10]]⟩ := by
  intro rowType totals x y s large table scan filtered grouped sums p stored db w c ctx
  have nodes : p.nodes = [p, grouped, filtered, scan] := rfl
  have held : db.Holds w.store table := by
    refine ⟨rfl, by decide, rfl, ?_⟩
    have found : w.store.rows table.name = stored := rfl
    rw [found]
    decide
  have selected : ∀ n ∈ p.nodes, n.Selected db w.store := by
    rw [nodes]
    simp only [List.forall_mem_cons]
    refine ⟨⟨⟨p, rfl, rfl⟩, ?_, by decide, by decide, trivial⟩,
      ⟨⟨grouped, rfl, rfl⟩, List.cons_ne_nil _ _, by decide, by decide, trivial⟩,
      ⟨⟨filtered, rfl, rfl⟩, ?_, by decide, by decide, trivial⟩,
      ⟨⟨scan, rfl, rfl⟩, trivial, by decide, by decide, held⟩, fun _ mem => absurd mem List.not_mem_nil⟩
    · refine ⟨rfl, ?_⟩
      simp [s, Expr.Standard, Op.isStandard]
    · refine ⟨rfl, ?_⟩
      simp [x, y, large, Expr.Standard, Op.isStandard]
  have spelled : ∀ n ∈ p.nodes, n.Spelled .ansi := by
    rw [nodes]
    simp only [List.forall_mem_cons]
    refine ⟨?_, trivial, ?_, trivial, fun _ mem => absurd mem List.not_mem_nil⟩
    · simp [p, Plan.Spelled, s, Expr.Spelled]
    · simp [filtered, Plan.Spelled, x, y, large, Expr.Spelled]
  have success : { c with simplify := false }.execute p.pulled ctx w = (.ok [[.int 10]], w) := by
    rw [Compiler.execute_of_compile (Plan.isQuery_pulled fun n mem => (selected n mem).selects) rfl]
    rfl
  obtain ⟨means, written⟩ := meaning_statement c .ansi db ctx w w p selected _ success
  obtain ⟨stated, found⟩ := written spelled
  obtain ⟨q, rfl, meaning⟩ := means stated found
  exact ⟨success, q, found, meaning⟩

end Sql

end FederatedQuery
