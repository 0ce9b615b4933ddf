import FederatedQuery.Proofs.Sql.Steps
import FederatedQuery.Proofs.Sql.Translation

/-!
Columns of derived sources. A block over a derived source refers only to names of the plan behind the source. These are
columns of its query, except for names that a program gives to the fields of a finished query: such a query takes no
more clauses, and the new names are written nowhere. They are lost wherever the columns of the finished query come
through as they are.
-/
namespace FederatedQuery

namespace Plan

/-- The operators over at most one source at a time. -/
def isUnjoined : Plan → Bool
  | scan .. | values .. | calculate .. | aggregate .. | setOp .. | sort .. => true
  | _ => false

/-- Whether a plan becomes a query that takes no more clauses. -/
def isFinished (d : Dialect) : Plan → Bool
  | values _ rows => rows.isEmpty || !d.valuesInFrom
  | calculate _ program input => program.isTrivial && isFinished d input
  | setOp _ _ _ first rest => !rest.isEmpty || isFinished d first
  | _ => false

/-- A program that gives a new name to a field of a finished query. -/
def Renames (d : Dialect) (name : String) : Plan → Prop
  | calculate h program input => program.isTrivial = true ∧ input.isFinished d = true ∧
      name ∈ h.rowType.names ∧ name ∉ input.rowType.names
  | _ => False

/-- The columns of the table that is read, if one is, are in the store. -/
def Listed (schema : List String → List String) : Plan → Prop
  | scan _ table => Sql.tableColumns table ⊆ schema table.path
  | _ => True

/-- An operator that was built, over at most one source at a time. -/
structure Unjoined (schema : List String → List String) (n : Plan) : Prop where
  made : n.Constructed
  kind : n.isUnjoined = true
  listed : n.Listed schema

theorem names_foldl_widen {all : List (List Field)} {fields : List Field}
    (same : ∀ others ∈ all, others.length = fields.length) :
    (all.foldl widen fields).map Field.name = fields.map Field.name := by
  induction all generalizing fields with
  | nil => rfl
  | cons others all ih =>
    have here := same others (.head _)
    have kept : (widen fields others).map Field.name = fields.map Field.name := calc
      _ = ((fields.zip others).map Prod.fst).map Field.name := by
        rw [widen, List.map_map, List.map_map]
        rfl
      _ = fields.map Field.name := by rw [List.map_fst_zip (Nat.le_of_eq here.symm)]
    rw [List.foldl_cons, ih fun g mem => (same g (.tail _ mem)).trans (length_widen here).symm, kept]

theorem Constructed.names_setOp {h : Head} {op : SetOp} {all : Bool} {first : Plan} {rest : List Plan}
    (made : Constructed (.setOp h op all first rest)) : h.rowType.names = first.rowType.names := by
  obtain ⟨same, rowType⟩ := made.setOp
  rw [rowType]
  refine names_foldl_widen fun others mem => ?_
  obtain ⟨q, inside, rfl⟩ := List.mem_map.1 mem
  exact same q inside

end Plan

namespace Sql

mutual

/-- The names of the columns of a query; those of a set operation are those of its first operand. -/
def Query.outputs (schema : List String → List String) : Query → List String
  | .select s => Select.outputs schema s
  | .setOp _ _ inputs => firstOutputs schema inputs

def Select.outputs (schema : List String → List String) : Select → List String
  | ⟨projection, source, _, _, _, _, _, _⟩ =>
    if projection.isEmpty then sourceOutputs schema source else projection.map Select.columnName

def sourceOutputs (schema : List String → List String) : Option Source → List String
  | none => []
  | some source => Source.outputs schema source

def Source.outputs (schema : List String → List String) : Source → List String
  | .table path _ => schema path
  | .derived query _ => Query.outputs schema query
  | .values _ _ columns => columns
  | .join _ left right _ => Source.outputs schema left ++ Source.outputs schema right

def firstOutputs (schema : List String → List String) : List Query → List String
  | [] => []
  | q :: _ => Query.outputs schema q

end

/-- The query that writes the columns of a query. It stands behind sources of which all columns are selected at once and
behind first operands. -/
def Query.writer : Query → Query
  | .select ⟨[], some (.derived q _), _, _, _, _, _, _⟩ => q.writer
  | .setOp _ _ (q :: _) => q.writer
  | q => q

/-- A program that gives a new name to a field of a finished query, which has no column of that name and has its columns
from where another query has them. -/
def Loses (d : Dialect) (schema : List String → List String) (q : Query) (name : String) (n : Plan) : Prop :=
  n.Renames d name ∧ ∃ next f after, fragment d n next = .ok (f, after) ∧ f.toQuery.writer = q.writer ∧
    name ∉ f.toQuery.outputs schema

/-- Over a derived source, a block refers to unqualified names of a node of the plan. They are columns of the derived
query except where a program below the node loses them. -/
def Resolved (d : Dialect) (schema : List String → List String) (p : Plan) (s : Select) : Prop :=
  ∀ q label, s.source = some (.derived q label) → ∃ m ∈ p.nodes,
    (∃ next f after, fragment d m next = .ok (f, after) ∧ q = f.toQuery) ∧
      ∀ qualifier name, (qualifier, name) ∈ s.references → qualifier = none ∧ name ∈ m.rowType.names ∧
        (name ∈ q.outputs schema ↔ ¬∃ n ∈ m.nodes, Loses d schema q name n)

section Blocks

variable {d : Dialect} {schema : List String → List String} {p m : Plan} {f : Fragment} {b b' : Block}
  {next after : Nat} {names : List String} {source : Source} {q q' : Query} {name : String}

/-- The columns that a source of a plan is read by. -/
inductive Provides (d : Dialect) (schema : List String → List String) (p : Plan) : Source → List String → Prop
  | table {path : List String} {label : Option String} {columns : List String} (stored : columns ⊆ schema path) :
    Provides d schema p (.table path label) columns
  | values {rows : List (List Term)} {label : String} {columns : List String}
    (literal : ∀ t ∈ rows.flatten, t.leaves = []) : Provides d schema p (.values rows label columns) columns
  | derived {m : Plan} {next after : Nat} {f : Fragment} {label : String} (mem : m ∈ p.nodes)
    (made : fragment d m next = .ok (f, after)) (inside : ∀ s ∈ f.toQuery.selects, Resolved d schema p s)
    (exist : ∀ name ∈ m.rowType.names, name ∈ f.toQuery.outputs schema ∨
      ∃ n ∈ m.nodes, Loses d schema f.toQuery name n) :
    Provides d schema p (.derived f.toQuery label) m.rowType.names

/-- A column is an unqualified one of a list, and in a subquery all blocks are resolved. -/
def Legible (d : Dialect) (schema : List String → List String) (p : Plan) (columns : List String) (l : Term) : Prop :=
  (∀ c, l.column? = some c → c.1 = none ∧ c.2 ∈ columns) ∧
    ∀ q, l.query? = some q → ∀ s ∈ q.selects, Resolved d schema p s

/-- A block refers to columns of its source. -/
def Block.Reads (d : Dialect) (schema : List String → List String) (p : Plan) (b : Block) : Prop :=
  ∃ columns, Provides d schema p b.source columns ∧
    (∀ t ∈ b.fields, ∀ l ∈ t.leaves, Legible d schema p columns l) ∧
    ∀ t ∈ b.others, ∀ l ∈ t.leaves, Legible d schema p columns l

theorem outputs_writer (q : Query) : q.writer.outputs schema = q.outputs schema := by
  induction q using Query.writer.induct with
  | case1 q _ _ _ _ _ _ _ ih =>
    rw [Query.writer, ih]
    rfl
  | case2 _ _ q _ ih =>
    rw [Query.writer, ih]
    rfl
  | case3 q unselected unlisted => rw [Query.writer] <;> assumption

theorem Loses.not_mem (loses : Loses d schema q name m) : name ∉ q.outputs schema := by
  obtain ⟨_, _, f, _, _, same, absent⟩ := loses
  rwa [← outputs_writer q, ← same, outputs_writer]

theorem exists_loses_mono (mem : m ∈ p.nodes) (same : q.writer = q'.writer)
    (lost : ∃ n ∈ m.nodes, Loses d schema q name n) : ∃ n ∈ p.nodes, Loses d schema q' name n := by
  obtain ⟨n, below, renames, next, f, after, made, here, absent⟩ := lost
  exact ⟨n, Plan.mem_nodes_trans below mem, renames, next, f, after, made, here.trans same, absent⟩

theorem Resolved.mono {s : Select} (resolved : Resolved d schema m s) (mem : m ∈ p.nodes) : Resolved d schema p s := by
  intro q label source
  obtain ⟨n, inside, found⟩ := resolved q label source
  exact ⟨n, Plan.mem_nodes_trans inside mem, found⟩

variable {columns : List String}

theorem Provides.mono (provides : Provides d schema m source columns) (mem : m ∈ p.nodes) :
    Provides d schema p source columns := by
  cases provides with
  | table stored => exact .table stored
  | values literal => exact .values literal
  | derived inside made resolved exist =>
    exact .derived (Plan.mem_nodes_trans inside mem) made (fun s here => (resolved s here).mono mem) exist

theorem Legible.mono {l : Term} (legible : Legible d schema m columns l) (mem : m ∈ p.nodes) :
    Legible d schema p columns l :=
  ⟨legible.1, fun q found s inside => (legible.2 q found s inside).mono mem⟩

theorem Block.Reads.mono (reads : b.Reads d schema m) (mem : m ∈ p.nodes) : b.Reads d schema p := by
  obtain ⟨columns, provides, fields, others⟩ := reads
  exact ⟨columns, provides.mono mem, fun t inside l leaf => (fields t inside l leaf).mono mem,
    fun t inside l leaf => (others t inside l leaf).mono mem⟩

theorem legible_anyOrder : ∀ l ∈ anyOrder.1.leaves, Legible d schema p columns l := by
  intro l mem
  rw [anyOrder, Term.leaves, List.mem_singleton] at mem
  subst mem
  refine ⟨nofun, fun q found s inside => ?_⟩
  cases found
  rw [selects_single rfl rfl, List.mem_singleton] at inside
  subst inside
  nofun

theorem Block.Reads.follows (reads : b.Reads d schema p) (follows : b.Follows d b') : b'.Reads d schema p := by
  obtain ⟨columns, provides, fields, others⟩ := reads
  refine ⟨columns, ?_, follows.terms (inherited_leaves _) legible_anyOrder fields others⟩
  rw [follows.source]
  exact provides

theorem legible_plainColumns : ∀ t ∈ plainColumns columns, ∀ l ∈ t.leaves, Legible d schema p columns l := by
  intro t inside l leaf
  obtain ⟨name, known, rfl⟩ := List.mem_map.1 inside
  rw [Term.leaves, List.mem_singleton] at leaf
  subst leaf
  refine ⟨fun c found => ?_, nofun⟩
  cases found
  exact ⟨rfl, known⟩

theorem reads_ofSource {qualifiers : List String} (provides : Provides d schema p source columns) :
    (Block.ofSource source qualifiers (plainColumns columns) names).Reads d schema p :=
  ⟨columns, provides, legible_plainColumns, nofun⟩

/-- The fragment of a plan has its names, and refers to what is there. -/
def Fragment.Named (d : Dialect) (schema : List String → List String) (p : Plan) : Fragment → Prop
  | .block b => p.isFinished d = false ∧ b.names = p.rowType.names ∧ b.fields.length = b.names.length ∧
      b.Reads d schema p
  | .finished q names => p.isFinished d = true ∧ names = p.rowType.names ∧ (∀ op all, q ≠ .setOp op all []) ∧
      (∀ s ∈ q.selects, Resolved d schema p s) ∧
      ∀ name ∈ p.rowType.names, name ∈ q.outputs schema ∨ ∃ n ∈ p.nodes, Loses d schema q name n

theorem Fragment.Named.names_eq (named : f.Named d schema p) : f.names = p.rowType.names := by
  cases f with
  | block | finished => exact named.2.1

theorem Provides.references {projection : List (Term × Option String)} (provides : Provides d schema p b.source columns)
    (fields : ∀ t ∈ b.fields, ∀ l ∈ t.leaves, Legible d schema p columns l)
    (others : ∀ t ∈ b.others, ∀ l ∈ t.leaves, Legible d schema p columns l)
    (among : ∀ item ∈ projection, item.1 ∈ b.fields) :
    ∀ t ∈ (b.toSelect projection).terms, ∀ l ∈ t.leaves, Legible d schema p columns l := by
  have literal : ∀ t ∈ b.source.terms, t.leaves = [] := by
    cases source : b.source with
    | table | derived => exact nofun
    | values =>
      rw [source] at provides
      cases provides with
      | values literal => exact literal
    | join =>
      rw [source] at provides
      cases provides
  intro t mem l leaf
  simp only [Select.terms, Block.toSelect, List.mem_append, List.mem_map, Option.elim_some, Option.mem_toList] at mem
  simp only [Block.others, List.mem_append, List.mem_map, Option.mem_toList] at others
  rcases mem with ((((⟨item, inside, rfl⟩ | mem) | mem) | mem) | mem) | mem
  · exact fields item.1 (among item inside) l leaf
  · rw [literal t mem] at leaf
    cases leaf
  · exact others t (.inl (.inl (.inl mem))) l leaf
  · exact others t (.inl (.inl (.inr mem))) l leaf
  · exact others t (.inl (.inr mem)) l leaf
  · exact others t (.inr mem) l leaf

/-- All blocks of a query are resolved when its outermost block refers to what its source provides. -/
theorem Block.Reads.resolved (reads : b.Reads d schema p) : ∀ s ∈ b.toQuery.selects, Resolved d schema p s := by
  obtain ⟨columns, provides, fields, others⟩ := reads
  obtain ⟨projection, same, among⟩ := exists_toSelect b
  have legible := provides.references fields others among
  rw [same, selects_select]
  refine List.forall_mem_cons.2 ⟨?_, List.forall_mem_append.2 ⟨fun s mem => ?_, fun s mem => ?_⟩⟩
  · intro q label source
    have source : b.source = .derived q label := Option.some.inj source
    rw [source] at provides
    cases provides with
    | derived mem made inside exist =>
      refine ⟨_, mem, ⟨_, _, _, made, rfl⟩, fun qualifier name found => ?_⟩
      obtain ⟨t, inside, found⟩ := List.mem_flatMap.1 found
      obtain ⟨l, leaf, column⟩ := List.mem_filterMap.1 found
      obtain ⟨unqualified, known⟩ := (legible t inside l leaf).1 _ column
      refine ⟨unqualified, known, fun present => ?_, (exist name known).resolve_right⟩
      rintro ⟨n, _, loses⟩
      exact loses.not_mem present
  · obtain ⟨q, inside, mem⟩ := List.mem_flatMap.1 mem
    have inside : q ∈ b.source.queries := inside
    cases source : b.source with
    | derived =>
      rw [source] at provides inside
      cases List.mem_singleton.1 inside
      cases provides with
      | derived _ _ resolved _ => exact resolved s mem
    | table | values =>
      rw [source] at inside
      cases inside
    | join =>
      rw [source] at provides
      cases provides
  · obtain ⟨q, inside, mem⟩ := List.mem_flatMap.1 mem
    obtain ⟨t, among, inside⟩ := List.mem_flatMap.1 inside
    obtain ⟨l, leaf, found⟩ := List.mem_filterMap.1 inside
    exact (legible t among l leaf).2 q found s mem

theorem Provides.outputs (provides : Provides d schema p source columns) (known : name ∈ columns)
    (passed : ∀ inner label, source = .derived inner label → inner.writer = q.writer) :
    name ∈ source.outputs schema ∨ ∃ n ∈ p.nodes, Loses d schema q name n := by
  cases provides with
  | table stored => exact .inl (stored known)
  | values =>
    rw [Source.outputs]
    exact .inl known
  | derived mem made inside exist => exact (exist name known).imp_right (exists_loses_mono mem (passed _ _ rfl))

theorem Block.Reads.outputs (reads : b.Reads d schema p) (wide : b.fields.length = b.names.length) :
    ∀ name ∈ b.names, name ∈ b.toQuery.outputs schema ∨ ∃ n ∈ p.nodes, Loses d schema b.toQuery name n := by
  obtain ⟨columns, provides, fields, _⟩ := reads
  intro name mem
  by_cases all : b.selectsAll = true
  · -- All columns are selected at once only where each field is the column of its name.
    rw [Block.toQuery, if_pos all]
    rw [← List.map_snd_zip wide.ge] at mem
    obtain ⟨⟨field, name⟩, paired, rfl⟩ := List.mem_map.1 mem
    rw [Block.selectsAll, Bool.and_eq_true, List.all_eq_true] at all
    have column : field.columnName? = some name := of_decide_eq_true (all.2 _ paired)
    cases field with
    | column =>
      cases column
      have legible := fields _ (List.of_mem_zip paired).1 _ (.head _)
      refine provides.outputs (legible.1 _ rfl).2 fun inner label derived => ?_
      rw [derived, Query.writer]
    | _ => cases column
  · have projection := Block.selected_ne_nil wide.symm (List.ne_nil_of_mem mem)
    rw [Block.toQuery, Query.outputs, Select.outputs, if_neg all, if_neg (by simpa using projection),
      Block.map_columnName_selected wide.symm]
    exact .inl mem

theorem Fragment.Named.resolved (named : f.Named d schema p) : ∀ s ∈ f.toQuery.selects, Resolved d schema p s := by
  cases f with
  | block => exact named.2.2.2.resolved
  | finished => exact named.2.2.2.1

theorem Fragment.Named.outputs (named : f.Named d schema p) :
    ∀ name ∈ p.rowType.names, name ∈ f.toQuery.outputs schema ∨ ∃ n ∈ p.nodes, Loses d schema f.toQuery name n := by
  cases f with
  | block =>
    obtain ⟨_, same, wide, reads⟩ := named
    rw [← same]
    exact reads.outputs wide
  | finished => exact named.2.2.2.2

/-- A block in which the fragment of a plan is continued refers to what is there. -/
theorem Fragment.Named.offered {start : Nat} (named : f.Named d schema p) (made : fragment d p start = .ok (f, next))
    (offers : f.Offers next b after) :
    b.names = p.rowType.names ∧ b.fields.length = b.names.length ∧ b.Reads d schema p := by
  cases offers with
  | own => exact named.2
  | derived =>
    refine ⟨named.names_eq, List.length_map _, ?_⟩
    rw [Fragment.derived, named.names_eq]
    exact reads_ofSource (.derived p.mem_nodes_self made named.resolved named.outputs)

end Blocks

section Plans

variable {d : Dialect} {schema : List String → List String} {p m : Plan} {f made : Fragment} {next after : Nat}
  {names : List String} {h : Head} {filter : Option Term} {row : List Term}

theorem Fragment.Named.mono (named : f.Named d schema m) (mem : m ∈ p.nodes)
    (finished : p.isFinished d = m.isFinished d) (same : p.rowType.names = m.rowType.names) :
    f.Named d schema p := by
  cases f with
  | block =>
    obtain ⟨unfinished, names, wide, reads⟩ := named
    exact ⟨finished.trans unfinished, names.trans same.symm, wide, reads.mono mem⟩
  | finished q names =>
    obtain ⟨ended, names, nonempty, resolved, exist⟩ := named
    refine ⟨finished.trans ended, names.trans same.symm, nonempty, fun s inside => (resolved s inside).mono mem, ?_⟩
    rw [same]
    exact fun name known => (exist name known).imp_right (exists_loses_mono mem rfl)

theorem outputs_literalSelect (wide : row.length = names.length) :
    ∀ name ∈ names, name ∈ (literalSelect d names filter row).outputs schema := by
  have all : (List.zipWith (fun t name => (t, some name)) row names).map Select.columnName = names := by
    rw [← List.map_uncurry_zip_eq_zipWith, List.map_map]
    exact List.map_snd_zip wide.ge
  intro name mem
  have nonempty : List.zipWith (fun t name => (t, some name)) row names ≠ [] := by
    intro empty
    rw [← all, empty] at mem
    cases mem
  rw [literalSelect, Query.outputs, Select.outputs, if_neg (by simpa using nonempty), all]
  exact mem

theorem resolved_literalSelect (plain : ∀ t ∈ row, t.leaves = []) (tests : ∀ t ∈ filter, t.leaves = []) :
    ∀ s ∈ (literalSelect d names filter row).selects, Resolved d schema p s := by
  obtain ⟨projection, alone⟩ := selects_literalSelect plain tests
  rw [alone]
  intro s mem q label source
  rw [List.mem_singleton.1 mem] at source
  cases dual : d.dualTable with
  | none | some =>
    rw [dual] at source
    cases source

theorem named_valuesFragment {rows : List Row} (built : (Plan.values h rows).Constructed)
    (written : valuesFragment d h.rowType rows next = .ok (f, after)) : f.Named d schema (.values h rows) := by
  obtain ⟨terms, literal, written⟩ := bind_eq_ok.1 written
  have plain := leaves_literalRows literal
  have each := mapM_eq_ok.1 literal
  have wide : ∀ row ∈ terms, row.length = h.rowType.names.length := by
    intro row mem
    obtain ⟨values, inside, here⟩ := exists_of_forall₂_right each mem
    rw [← (mapM_eq_ok.1 here).length_eq, built.values values inside, RowType.length_names]
  cases terms with
  | nil =>
    cases written
    cases each
    refine ⟨rfl, rfl, nofun, resolved_literalSelect ?_ ?_, fun name mem => .inl (outputs_literalSelect ?_ name mem)⟩
    · exact List.forall_mem_map.2 fun _ _ => rfl
    · rintro t ⟨⟩
      rfl
    · rw [List.length_map, RowType.length_names]
      rfl
  | cons row rest =>
    have nonempty : rows.isEmpty = false := by
      cases each
      rfl
    simp only at written
    split at written
    · next inFrom =>
      cases written
      refine ⟨?_, rfl, List.length_map _, reads_ofSource (.values fun t mem => ?_)⟩
      · rw [Plan.isFinished, nonempty, inFrom]
        rfl
      · obtain ⟨row, inside, mem⟩ := List.mem_flatten.1 mem
        exact plain row inside t mem
    · next apart =>
      have finished : (Plan.values h rows).isFinished d = true := by
        rw [Plan.isFinished, Bool.eq_false_iff.2 apart, Bool.not_false, Bool.or_true]
      split at written <;> cases written
      · refine ⟨finished, rfl, nofun, resolved_literalSelect (plain row (.head _)) nofun, ?_⟩
        exact fun name mem => .inl (outputs_literalSelect (wide row (.head _)) name mem)
      · refine ⟨finished, rfl, fun _ _ empty => List.cons_ne_nil _ _ (Query.setOp.inj empty).2.2, ?_,
          fun name mem => .inl ?_⟩
        · rw [selects_setOp, List.flatMap_map]
          intro s mem
          obtain ⟨row, inside, mem⟩ := List.mem_flatMap.1 mem
          have unconditional : ∀ t ∈ (none : Option Term), t.leaves = [] := nofun
          exact resolved_literalSelect (plain row inside) unconditional s mem
        · rw [Query.outputs, List.map_cons, firstOutputs]
          exact outputs_literalSelect (wide row (.head _)) name mem

theorem Fragment.Named.toQuery_ne (named : f.Named d schema p) (op : SetOp) (all : Bool) :
    f.toQuery ≠ .setOp op all [] := by
  cases f with
  | block => nofun
  | finished => exact named.2.2.1 op all

theorem writer_flattened {q : Query} (nonempty : ∀ op all, q ≠ .setOp op all []) (op : SetOp) (all first : Bool)
    (rest : List Query) : (Query.setOp op all (flattened op all first q ++ rest)).writer = q.writer ∧
      flattened op all first q ++ rest ≠ [] := by
  have alone (q : Query) : (Query.setOp op all (q :: rest)).writer = q.writer ∧ q :: rest ≠ [] :=
    ⟨by rw [Query.writer], List.cons_ne_nil _ _⟩
  cases q with
  | select => exact alone _
  | setOp op' all' inputs =>
    rw [flattened]
    split
    · cases inputs with
      | nil => exact absurd rfl (nonempty op' all')
      | cons => exact ⟨by rw [List.cons_append, Query.writer, Query.writer], List.cons_ne_nil _ _⟩
    · exact alone _

theorem named_setOpFragment {op : SetOp} {all : Bool} {first : Plan} {rest : List Plan} {fs : List Fragment}
    (built : (Plan.setOp h op all first rest).Constructed) (named : f.Named d schema first)
    (each : List.Forall₂ (fun q f => f.Named d schema q) rest fs) :
    (setOpFragment op all h.rowType.names f fs).Named d schema (.setOp h op all first rest) := by
  have input {q : Plan} (mem : q ∈ first :: rest) : q ∈ (Plan.setOp h op all first rest).nodes :=
    Plan.mem_nodes_of_input mem
  have same : (Plan.setOp h op all first rest).rowType.names = first.rowType.names := built.names_setOp
  cases each with
  | nil =>
    refine named.mono (input (.head _)) ?_ same
    rw [Plan.isFinished, List.isEmpty_nil, Bool.not_true, Bool.false_or]
  | @cons q g rest fs here later =>
    obtain ⟨writer, several⟩ := writer_flattened named.toQuery_ne op all true
      ((g :: fs).flatMap fun f => flattened op all false f.toQuery)
    refine ⟨rfl, rfl, fun op' all' empty => several (Query.setOp.inj empty).2.2, ?_, ?_⟩
    · rw [selects_setOp, List.flatMap_append, List.flatMap_assoc]
      simp only [selects_flattened]
      refine List.forall_mem_append.2 ⟨fun s mem => (named.resolved s mem).mono (input (.head _)), ?_⟩
      intro s mem
      obtain ⟨f, inside, mem⟩ := List.mem_flatMap.1 mem
      obtain ⟨m, among, named⟩ := exists_of_forall₂_right (.cons here later) inside
      exact (named.resolved s mem).mono (input (.tail _ among))
    · rw [same, ← outputs_writer, writer, outputs_writer]
      exact fun name known => (named.outputs name known).imp_right (exists_loses_mono (input (.head _)) writer.symm)

theorem named_renamed {program : Program} {input : Plan} (built : (Plan.calculate h program input).Constructed)
    (trivial : program.isTrivial = true) (named : f.Named d schema input)
    (written : fragment d (.calculate h program input) next = .ok (f.renamed h.rowType.names, after)) :
    (f.renamed h.rowType.names).Named d schema (.calculate h program input) := by
  obtain ⟨rowType, arity, checked⟩ := built.calculate
  have below : input ∈ (Plan.calculate h program input).nodes := Plan.mem_nodes_of_input (.head _)
  cases f with
  | block =>
    obtain ⟨unfinished, same, wide, reads⟩ := named
    have long : h.rowType.names.length = input.rowType.names.length := by
      rw [Program.isTrivial, Program.isIdentity, Bool.and_eq_true, Bool.and_eq_true, decide_eq_true_eq] at trivial
      rw [RowType.length_names, RowType.length_names, rowType, ← arity, ← trivial.2.1]
      exact checked.output.length_eq.symm
    refine ⟨?_, rfl, ?_, reads.mono below⟩
    · rw [Plan.isFinished, unfinished, Bool.and_false]
    · rw [wide, same]
      exact long.symm
  | finished q names =>
    obtain ⟨finished, same, nonempty, resolved, exist⟩ := named
    refine ⟨?_, rfl, nonempty, fun s mem => (resolved s mem).mono below, fun name known => ?_⟩
    · rw [Plan.isFinished, trivial, finished, Bool.and_true]
    · by_cases old : name ∈ input.rowType.names
      · exact (exist name old).imp_right (exists_loses_mono below rfl)
      · refine or_iff_not_imp_left.2 fun absent => ?_
        exact ⟨_, Plan.mem_nodes_self _, ⟨trivial, finished, known, old⟩, _, _, _, written, rfl, absent⟩

theorem named_fragment (each : ∀ n ∈ p.nodes, n.Unjoined schema) (written : fragment d p next = .ok (f, after)) :
    f.Named d schema p := by
  induction p using Plan.induction generalizing next f after with
  | step p ih =>
    have built := (each p p.mem_nodes_self).made
    have inputs {input : Plan} (mem : input ∈ p.inputs) {start next : Nat} {f : Fragment}
        (made : fragment d input start = .ok (f, next)) : f.Named d schema input :=
      ih input mem (Plan.forall_nodes_of_mem each mem) made
    -- An operator that writes one block over its input.
    have block {input : Plan} (mem : input ∈ p.inputs) {start next after : Nat} {f : Fragment} {b b' : Block}
        (made : fragment d input start = .ok (f, next)) (offers : f.Offers next b after) (follows : b.Follows d b')
        (unfinished : p.isFinished d = false) (names : b'.names = p.rowType.names)
        (wide : b.names = input.rowType.names → b.fields.length = b.names.length →
          b'.fields.length = b'.names.length) : (Fragment.block b').Named d schema p := by
      obtain ⟨same, long, reads⟩ := (inputs mem made).offered made offers
      exact ⟨unfinished, names, wide same long, (reads.mono (Plan.mem_nodes_of_input mem)).follows follows⟩
    cases p with
    | scan h table =>
      cases written
      refine ⟨rfl, congrArg RowType.names built.scan.symm, ?_, reads_ofSource (.table ?_)⟩
      · rw [scanned, Block.ofSource, plainColumns, List.length_map, length_tableColumns, RowType.length_names]
      · exact (each _ (Plan.mem_nodes_self _)).listed
    | values => exact named_valuesFragment built written
    | calculate h program input =>
      obtain ⟨⟨f, middle⟩, made, continued⟩ := bind_eq_ok.1 written
      rcases programFragment_follows continued with ⟨trivial, rfl, rfl⟩ |
        ⟨other, b, b', offers, rfl, follows, named, wide⟩
      · exact named_renamed built trivial (inputs (.head _) made) written
      · obtain ⟨rowType, arity, checked⟩ := built.calculate
        refine block (.head _) made offers follows ?_ named fun same long => ?_
        · rw [Plan.isFinished, other, Bool.false_and]
        · have columns : h.rowType.names.length = program.projects.length := by
            rw [RowType.length_names, rowType]
            exact checked.output.length_eq.symm
          rw [named, columns]
          rcases wide with ⟨identity, fields⟩ | wide
          · rw [Program.isIdentity, Bool.and_eq_true, decide_eq_true_eq] at identity
            rw [fields, long, same, identity.1, arity, RowType.length_names]
          · exact wide
    | aggregate =>
      obtain ⟨⟨f, middle⟩, made, written⟩ := bind_eq_ok.1 written
      obtain ⟨b, b', offers, rfl, follows, named, wide⟩ := aggregateFragment_follows written
      refine block (.head _) made offers follows rfl named fun _ _ => ?_
      rw [wide, named, RowType.length_names, built.arity_aggregate]
    | setOp =>
      obtain ⟨⟨f, middle⟩, one, written⟩ := bind_eq_ok.1 written
      obtain ⟨⟨fs, last⟩, others, written⟩ := bind_eq_ok.1 written
      cases written
      exact named_setOpFragment built (inputs (.head _) one)
        (forall₂_fragments (fun q mem next f after => inputs (.tail _ mem)) others)
    | sort =>
      obtain ⟨⟨f, middle⟩, made, written⟩ := bind_eq_ok.1 written
      obtain ⟨b, b', offers, rfl, follows, fields, names⟩ := sortFragment_follows written
      have same := ((inputs (.head _) made).offered made offers).1
      refine block (.head _) made offers follows rfl ?_ fun _ long => ?_
      · rw [names, same]
        exact congrArg RowType.names built.sort.symm
      · rw [fields, names, long]
    | join h kind on left right => cases (each _ (Plan.mem_nodes_self _)).kind
    | modify | collect | converter => cases written

end Plans

/-- Where a block of a statement reads from a derived source, each column that it refers to is an unqualified name of
the plan behind the source. It is a column of the derived query exactly where no program there loses it: one that gives
the name to a finished query without such a column, where the columns of that query come through to the derived one. -/
theorem derived_columns_exist (d : Dialect) (schema : List String → List String) (p : Plan)
    (each : ∀ n ∈ p.nodes, n.Unjoined schema) (s : Statement) (written : statement d p = .ok s) :
    ∀ block ∈ s.selects, Resolved d schema p block := by
  rcases statement_cases written with ⟨f, after, made, rfl⟩ | ⟨h, table, op, input, rfl, _⟩
  · exact (named_fragment each made).resolved
  · cases (each _ (Plan.mem_nodes_self _)).kind

/-- A condition over a renamed union. The condition is on the new name, which the union does not have. -/
theorem derived_columns_exist_renamed :
    let x : RowType := ⟨[⟨"x", .integer, false⟩]⟩
    let y : RowType := ⟨[⟨"y", .integer, false⟩]⟩
    let field := Expr.ref 0 .integer false
    let scan (name : String) := Plan.ofTable (Table.named name x)
    let union := Plan.setOp ⟨x, .logical⟩ .union true (scan "a") [scan "b"]
    let renamed := Plan.calculate ⟨y, .logical⟩ ⟨x, [field], none, y⟩ union
    let p := Plan.calculate ⟨y, .logical⟩ ⟨y, [field], some (.call .gt [field, .lit (.int 1)] .boolean), y⟩ renamed
    let schema : List String → List String := fun _ => ["x"]
    let rows (name : String) := Query.select { Select.empty with source := some (.table [name] none) }
    let q := Query.setOp .union true [rows "a", rows "b"]
    let block := { Select.empty with
      source := some (.derived q "t0"), filter := some (.binary ">" (.column none "y") (.literal (.int 1))) }
    statement .ansi p = .ok (.query (.select block)) ∧ Resolved .ansi schema p block ∧
      (none, "y") ∈ block.references ∧ q.outputs schema = ["x"] := by
  intro x y field scan union renamed p schema rows q block
  have each : ∀ n ∈ p.nodes, n.Unjoined schema := by
    have nodes : p.nodes = [p, renamed, union, scan "a", scan "b"] := rfl
    rw [nodes]
    simp only [List.forall_mem_cons]
    exact ⟨⟨⟨p, rfl, rfl⟩, rfl, trivial⟩, ⟨⟨renamed, rfl, rfl⟩, rfl, trivial⟩, ⟨⟨union, rfl, rfl⟩, rfl, trivial⟩,
      ⟨⟨scan "a", rfl, rfl⟩, rfl, List.Subset.refl ["x"]⟩, ⟨⟨scan "b", rfl, rfl⟩, rfl, List.Subset.refl ["x"]⟩,
      fun _ mem => absurd mem List.not_mem_nil⟩
  have outermost : block ∈ (Statement.query (.select block)).selects := by
    change block ∈ (Query.select block).selects
    rw [selects_select]
    exact List.mem_cons_self
  exact ⟨rfl, derived_columns_exist .ansi schema p each _ rfl block outermost, List.mem_cons_self, rfl⟩

end Sql

end FederatedQuery
