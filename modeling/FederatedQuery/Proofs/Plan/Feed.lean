import FederatedQuery.Execution.Compile
import FederatedQuery.Proofs.Cursor.Feed

/-!
The rows of a query, operator by operator. A query that runs in process delivers the feed that its
operators make of one another's feeds, and leaves the world as it is.
-/
namespace FederatedQuery

namespace Plan

/-- Induction with a hypothesis for every input. -/
theorem induction {motive : Plan → Prop} (step : ∀ p : Plan, (∀ q ∈ p.inputs, motive q) → motive p)
    (p : Plan) : motive p :=
  @Plan.rec motive (fun plans => ∀ p ∈ plans, motive p)
    (fun h table => step (.scan h table) nofun)
    (fun h rows => step (.values h rows) nofun)
    (fun h program input below => step (.calculate h program input) (by simpa [inputs] using below))
    (fun h group calls input below => step (.aggregate h group calls input) (by simpa [inputs] using below))
    (fun h kind on left right first second =>
      step (.join h kind on left right) (by simpa [inputs] using ⟨first, second⟩))
    (fun h op all first rest here others => step (.setOp h op all first rest) (List.forall_mem_cons.2 ⟨here, others⟩))
    (fun h collation offset fetch input below =>
      step (.sort h collation offset fetch input) (by simpa [inputs] using below))
    (fun h table op input below => step (.modify h table op input) (by simpa [inputs] using below))
    (fun h all first rest here others => step (.collect h all first rest) (List.forall_mem_cons.2 ⟨here, others⟩))
    (fun h source input below => step (.converter h source input) (by simpa [inputs] using below))
    nofun
    (fun _ _ first rest => List.forall_mem_cons.2 ⟨first, rest⟩) p

mutual

/-- A plan and all that is below it. -/
def nodes : Plan → List Plan
  | p@(scan ..) | p@(values ..) => [p]
  | p@(calculate _ _ input) | p@(aggregate _ _ _ input) | p@(sort _ _ _ _ input) | p@(modify _ _ _ input)
  | p@(converter _ _ input) => p :: nodes input
  | p@(join _ _ _ left right) => p :: (nodes left ++ nodes right)
  | p@(setOp _ _ _ first rest) | p@(collect _ _ first rest) => p :: (nodes first ++ nodesOf rest)

def nodesOf : List Plan → List Plan
  | [] => []
  | p :: rest => nodes p ++ nodesOf rest

end

variable {n : Plan} {p : Plan} {P : Plan → Prop}

theorem mem_nodesOf {plans : List Plan} : n ∈ nodesOf plans ↔ ∃ p ∈ plans, n ∈ p.nodes := by
  induction plans with
  | nil => simp [nodesOf]
  | cons _ _ ih => simp [nodesOf, ih]

theorem mem_nodes : n ∈ p.nodes ↔ n = p ∨ ∃ q ∈ p.inputs, n ∈ q.nodes := by
  cases p <;> simp [nodes, inputs, mem_nodesOf]

theorem mem_nodes_self (p : Plan) : p ∈ p.nodes := mem_nodes.2 (.inl rfl)

theorem mem_nodes_of_input {q : Plan} (mem : q ∈ p.inputs) : q ∈ p.nodes :=
  mem_nodes.2 (.inr ⟨q, mem, q.mem_nodes_self⟩)

theorem mem_nodes_trans {m : Plan} (inside : m ∈ n.nodes) (mem : n ∈ p.nodes) : m ∈ p.nodes := by
  induction p using induction with
  | step p ih =>
    rcases mem_nodes.1 mem with rfl | ⟨q, input, mem⟩
    · exact inside
    · exact mem_nodes.2 (.inr ⟨q, input, ih q input mem⟩)

theorem forall_nodes_of_mem {q : Plan} (all : ∀ n ∈ p.nodes, P n) (mem : q ∈ p.inputs) : ∀ n ∈ q.nodes, P n :=
  fun n inside => all n (mem_nodes.2 (.inr ⟨q, mem, inside⟩))

theorem forall_nodes_of_node (all : ∀ m ∈ p.nodes, P m) (mem : n ∈ p.nodes) : ∀ m ∈ n.nodes, P m :=
  fun m inside => all m (mem_nodes_trans inside mem)

/-- Induction over the nodes of a plan, at each of which what is known of all of them is known. -/
theorem induction_nodes {motive : Plan → Prop} (p : Plan)
    (step : ∀ n ∈ p.nodes, (∀ q ∈ n.inputs, motive q) → motive n) : motive p := by
  induction p using induction with
  | step p ih => exact step p p.mem_nodes_self fun q mem => ih q mem (forall_nodes_of_mem step mem)

/-- An operator that reads: it changes no table and stays in its convention. -/
def isQuery : Plan → Bool
  | modify .. | collect .. | converter .. => false
  | _ => true

/-- What an operator needs to run in process: its convention, and a table that is stored. -/
def Runs : Plan → Prop
  | p@(scan _ table) => p.convention = .pull ∧ table.checkStored = .ok ()
  | p => p.convention = .pull

mutual

/-- The feed of a query. What is ready to run over an input, in place of a program, is given; nothing
when no row can pass. -/
def feed (ready : Program → Plan → Option Program) (params : Bindings) (store : Store) : Plan → Feed
  | scan _ table => .ofRows (store.rows table.name)
  | values _ rows => .ofRows rows
  | calculate _ program input => match ready program input with
    | none => .done
    | some program => (feed ready params store input).expand (Rows.runRow program params)
  | aggregate _ group calls input => .ofResult ((feed ready params store input).result >>= Rows.aggregate group calls)
  | join _ kind on left right => .ofResult (do
      Rows.join kind on left.rowType.arity right.rowType.arity params
        (← (feed ready params store left).result) (← (feed ready params store right).result))
  | setOp _ op all first rest => feedChain ready params store op all (feed ready params store first) rest
  | sort _ collation offset fetch input =>
    .ofResult ((feed ready params store input).result >>= Rows.sort collation offset fetch)
  | modify .. | collect .. | converter .. => .done

def feedChain (ready : Program → Plan → Option Program) (params : Bindings) (store : Store) (op : SetOp)
    (all : Bool) (chain : Feed) : List Plan → Feed
  | [] => chain
  | p :: rest => feedChain ready params store op all (.combine op all chain (feed ready params store p)) rest

end

/-- Programs run as they are. -/
def asWritten (program : Program) (_ : Plan) : Option Program := some program

section Membership

variable {ready : Program → Plan → Option Program} {params : Bindings} {store : Store} {row : Row} {h : Head}
  {all : Bool} {chain : FederatedQuery.Feed} {op : SetOp} {rest : List Plan} {input : Plan}

theorem mem_feedChain (mem : row ∈ (feedChain ready params store op all chain rest).rows) :
    row ∈ chain.rows ∨ op = .union ∧ ∃ q ∈ rest, row ∈ (q.feed ready params store).rows := by
  induction rest generalizing chain with
  | nil => exact .inl mem
  | cons p rest ih =>
    rcases ih mem with combined | ⟨union, q, inside, found⟩
    · rcases Feed.mem_rows_combine combined with first | ⟨union, second⟩
      · exact .inl first
      · exact .inr ⟨union, p, .head _, second⟩
    · exact .inr ⟨union, q, .tail _ inside, found⟩

theorem mem_feed_aggregate {group : List Nat} {calls : List AggCall}
    (mem : row ∈ (feed ready params store (.aggregate h group calls input)).rows) :
    ∃ rows out, (input.feed ready params store).result = .ok rows ∧ Rows.aggregate group calls rows = .ok out ∧
      row ∈ out := by
  obtain ⟨out, success, mem⟩ := Feed.mem_rows_ofResult.1 mem
  obtain ⟨rows, found, success⟩ := bind_eq_ok.1 success
  exact ⟨rows, out, found, success, mem⟩

theorem mem_feed_sort {collation : Collation} {offset fetch : Option Nat}
    (mem : row ∈ (feed ready params store (.sort h collation offset fetch input)).rows) :
    row ∈ (input.feed ready params store).rows := by
  obtain ⟨out, success, mem⟩ := Feed.mem_rows_ofResult.1 mem
  obtain ⟨rows, found, success⟩ := bind_eq_ok.1 success
  exact Feed.rows_of_result found ▸ Rows.mem_of_sort success mem

theorem mem_feed_join {kind : JoinKind} {on : Expr} {left right : Plan}
    (mem : row ∈ (feed ready params store (.join h kind on left right)).rows) :
    Rows.Joined kind on left.rowType.arity right.rowType.arity params (left.feed ready params store).rows
      (right.feed ready params store).rows row := by
  obtain ⟨out, success, mem⟩ := Feed.mem_rows_ofResult.1 mem
  obtain ⟨first, found, success⟩ := bind_eq_ok.1 success
  obtain ⟨second, found', success⟩ := bind_eq_ok.1 success
  rw [Feed.rows_of_result found, Feed.rows_of_result found']
  exact Rows.mem_join success mem

theorem result_feedChain_foldl {rows : List Row} {lists : List (List Row)} (here : chain.result = .ok rows)
    (each : List.Forall₂ (fun p rows => (p.feed ready params store).result = .ok rows) rest lists) :
    (feedChain ready params store op all chain rest).result = .ok (lists.foldl (Rows.setOperation op all) rows) := by
  induction each generalizing chain rows with
  | nil => exact here
  | cons first _ ih => exact ih (Feed.result_combine_eq_ok.2 ⟨_, _, here, first, rfl⟩)

end Membership

end Plan

namespace Compiler

open Foreign Cursor

variable {σ : Type} {c : Compiler σ} {ctx : Context} {w : World σ} {p : Plan} {cursor chain : Cursor (World σ)}
  {F : Feed} {rest : List Plan} {pair : Cursor (World σ) → Cursor (World σ) → Cursor (World σ)}

theorem inProcess_eq_ok {compiled : Except Error (Cursor (World σ))} :
    inProcess p compiled = .ok cursor ↔ p.convention = .pull ∧ compiled = .ok cursor := by
  unfold inProcess
  split <;> simp_all

theorem expand_trivial {program : Program} {params : Bindings} (trivial : program.isTrivial = true) :
    F.expand (Rows.runRow program params) = F := by
  induction F with
  | done | fail => rfl
  | row r rest ih =>
    rw [Feed.expand, ih, Rows.runRow, if_pos trivial]
    rfl

theorem delivers_stored (table : Table) :
    (stored table : Cursor (World σ)).Delivers w (.ofRows (w.store.rows table.name)) := by
  have yields : Yields (stored table) w (.unbuilt ()) (.ofResult (.ok (w.store.rows table.name))) :=
    yields_buffered ⟨(), rfl⟩
  exact ⟨yields, quiet_buffered fun _ _ => ⟨rfl, rfl⟩⟩

theorem delivers_running {input : Cursor (World σ)} (delivers : input.Delivers w F) (program : Program)
    (params : Bindings) : (running input program params).Delivers w (F.expand (Rows.runRow program params)) := by
  unfold running
  split
  · next trivial =>
    rw [expand_trivial trivial]
    exact delivers
  · next varied =>
    cases found : program.unwindPosition with
    | some position =>
      have unfolded : Rows.runRow program params = Rows.unwindRow program position params := by
        funext row
        rw [Rows.runRow, if_neg varied, found]
      rw [unfolded]
      exact ⟨yields_unwound delivers.1, quiet_unwound delivers.2⟩
    | none =>
      have unfolded : Rows.runRow program params = Rows.calculateRow program params := by
        funext row
        rw [Rows.runRow, if_neg varied, found]
      rw [unfolded]
      exact ⟨yields_calculated delivers.1 nofun, quiet_calculated delivers.2⟩

theorem delivers_combined (op : SetOp) (all : Bool) {first second : Cursor (World σ)} {G : Feed}
    (left : first.Delivers w F) (right : second.Delivers w G) :
    (combined op all first second).Delivers w (.combine op all F G) :=
  ⟨yields_combined op all left.1 right.1, quiet_combined op all left.2 right.2⟩

theorem delivers_compileChain {op : SetOp} {all : Bool} (each : ∀ p ∈ rest, ∀ cursor, c.compile ctx p = .ok cursor →
      cursor.Delivers w (p.feed c.program? ctx.params w.store))
    (delivers : chain.Delivers w F) (compiled : c.compileChain ctx (.combined op all) chain rest = .ok cursor) :
    cursor.Delivers w (Plan.feedChain c.program? ctx.params w.store op all F rest) := by
  induction rest generalizing chain F with
  | nil =>
    cases compiled
    exact delivers
  | cons p rest ih =>
    obtain ⟨next, here, compiled⟩ := bind_eq_ok.1 compiled
    exact ih (fun q mem => each q (.tail _ mem))
      (delivers_combined op all delivers (each p (.head _) next here)) compiled

theorem delivers_compile (query : ∀ n ∈ p.nodes, n.isQuery = true) (compiled : c.compile ctx p = .ok cursor) :
    cursor.Delivers w (p.feed c.program? ctx.params w.store) := by
  revert cursor
  apply p.induction_nodes
  intro n node below cursor compiled
  cases n with
  | scan h table =>
    have compiled := (inProcess_eq_ok.1 compiled).2
    split at compiled
    · cases compiled
    · cases compiled
      exact delivers_stored table
  | values h rows =>
    rw [compile] at compiled
    cases (inProcess_eq_ok.1 compiled).2
    exact ⟨yields_ofRows rows, quiet_ofRows rows⟩
  | calculate h program input =>
    have compiled := (inProcess_eq_ok.1 compiled).2
    rw [Plan.feed]
    cases ready : c.program? program input with
    | none =>
      simp only [ready] at compiled ⊢
      cases compiled
      exact ⟨yields_ofRows [], quiet_ofRows []⟩
    | some program =>
      simp only [ready] at compiled ⊢
      obtain ⟨inner, found, compiled⟩ := bind_eq_ok.1 compiled
      cases compiled
      exact delivers_running (below input (.head _) found) program ctx.params
  | aggregate h group calls input | sort h collation offset fetch input =>
    rw [compile] at compiled
    obtain ⟨inner, found, compiled⟩ := bind_eq_ok.1 (inProcess_eq_ok.1 compiled).2
    cases compiled
    obtain ⟨yields, quiet⟩ := below input (.head _) found
    exact ⟨yields_transformed _ yields, quiet_transformed _ quiet⟩
  | join h kind on left right =>
    obtain ⟨first, found, compiled⟩ := bind_eq_ok.1 (inProcess_eq_ok.1 compiled).2
    obtain ⟨second, found', compiled⟩ := bind_eq_ok.1 compiled
    cases compiled
    obtain ⟨yields, quiet⟩ := below left (.head _) found
    obtain ⟨yields', quiet'⟩ := below right (.tail _ (.head _)) found'
    exact ⟨yields_merged _ yields yields', quiet_merged _ quiet quiet'⟩
  | setOp h op all first rest =>
    rw [compile] at compiled
    obtain ⟨inner, found, compiled⟩ := bind_eq_ok.1 (inProcess_eq_ok.1 compiled).2
    exact delivers_compileChain (fun q mem _ => below q (.tail _ mem)) (below first (.head _) found) compiled
  | modify | collect | converter => cases query _ node

theorem program?_of_plain (plain : c.simplify = false) : c.program? = Plan.asWritten := by
  funext program input
  rw [program?, plain]
  rfl

theorem exists_compile_of_chain (compiled : c.compileChain ctx pair chain rest = .ok cursor) :
    ∀ q ∈ rest, ∃ inner, c.compile ctx q = .ok inner := by
  induction rest generalizing chain with
  | nil => exact nofun
  | cons _ _ ih =>
    obtain ⟨next, here, compiled⟩ := bind_eq_ok.1 compiled
    exact List.forall_mem_cons.2 ⟨⟨next, here⟩, ih compiled⟩

theorem exists_compileChain (each : ∀ q ∈ rest, ∃ inner, c.compile ctx q = .ok inner) :
    ∃ cursor, c.compileChain ctx pair chain rest = .ok cursor := by
  induction rest generalizing chain with
  | nil => exact ⟨chain, by rw [compileChain]⟩
  | cons q rest ih =>
    obtain ⟨next, here⟩ := each q (.head _)
    rw [compileChain, here]
    exact ih fun q mem => each q (.tail _ mem)

theorem exists_compile (c : Compiler σ) (ctx : Context) (query : ∀ n ∈ p.nodes, n.isQuery = true)
    (runs : ∀ n ∈ p.nodes, n.Runs) : ∃ cursor, c.compile ctx p = .ok cursor := by
  apply p.induction_nodes
  intro n node below
  have here := runs n node
  cases n with
  | scan =>
    rw [compile, here.2]
    exact ⟨_, if_pos here.1⟩
  | values =>
    rw [compile]
    exact ⟨_, if_pos here⟩
  | calculate h program input =>
    obtain ⟨inner, found⟩ := below input (.head _)
    rw [compile, found]
    cases c.program? program input <;> exact ⟨_, if_pos here⟩
  | aggregate h group calls input | sort h collation offset fetch input =>
    obtain ⟨inner, found⟩ := below input (.head _)
    rw [compile, found]
    exact ⟨_, if_pos here⟩
  | join h kind on left right =>
    obtain ⟨first, found⟩ := below left (.head _)
    obtain ⟨second, found'⟩ := below right (.tail _ (.head _))
    rw [compile, found, found']
    exact ⟨_, if_pos here⟩
  | setOp h op all first rest =>
    obtain ⟨inner, found⟩ := below first (.head _)
    obtain ⟨chain, chained⟩ : ∃ chain, c.compileChain ctx (.combined op all) inner rest = .ok chain :=
      exists_compileChain fun q mem => below q (.tail _ mem)
    rw [compile, found]
    exact ⟨chain, inProcess_eq_ok.2 ⟨here, chained⟩⟩
  | modify | collect | converter => cases query _ node

theorem runs_of_compile (compiled : c.compile ctx p = .ok cursor) : p.Runs := by
  cases p with
  | scan =>
    obtain ⟨inside, compiled⟩ := inProcess_eq_ok.1 compiled
    split at compiled
    · cases compiled
    · exact ⟨inside, ‹_›⟩
  | _ => exact (inProcess_eq_ok.1 compiled).1

theorem exists_compile_of_input (plain : c.simplify = false) {q : Plan} (query : p.isQuery = true)
    (compiled : c.compile ctx p = .ok cursor) (mem : q ∈ p.inputs) : ∃ inner, c.compile ctx q = .ok inner := by
  cases p with
  | scan | values => cases mem
  | calculate h program input =>
    rw [compile, program?_of_plain plain] at compiled
    obtain ⟨inner, found, _⟩ := bind_eq_ok.1 (inProcess_eq_ok.1 compiled).2
    cases List.mem_singleton.1 mem
    exact ⟨inner, found⟩
  | aggregate | sort =>
    obtain ⟨inner, found, _⟩ := bind_eq_ok.1 (inProcess_eq_ok.1 compiled).2
    cases List.mem_singleton.1 mem
    exact ⟨inner, found⟩
  | join =>
    rw [compile] at compiled
    obtain ⟨first, found, compiled⟩ := bind_eq_ok.1 (inProcess_eq_ok.1 compiled).2
    obtain ⟨second, found', _⟩ := bind_eq_ok.1 compiled
    rcases List.mem_cons.1 mem with rfl | mem
    · exact ⟨first, found⟩
    · cases List.mem_singleton.1 mem
      exact ⟨second, found'⟩
  | setOp =>
    obtain ⟨inner, found, compiled⟩ := bind_eq_ok.1 (inProcess_eq_ok.1 compiled).2
    rcases List.mem_cons.1 mem with rfl | mem
    · exact ⟨inner, found⟩
    · exact exists_compile_of_chain compiled q mem
  | modify | collect | converter => cases query

theorem exists_compile_of_node (plain : c.simplify = false) (query : ∀ n ∈ p.nodes, n.isQuery = true)
    (compiled : c.compile ctx p = .ok cursor) : ∀ n ∈ p.nodes, ∃ inner, c.compile ctx n = .ok inner := by
  induction p using Plan.induction generalizing cursor with
  | step p ih =>
    intro n mem
    rcases Plan.mem_nodes.1 mem with rfl | ⟨q, inside, mem⟩
    · exact ⟨cursor, compiled⟩
    · obtain ⟨inner, found⟩ := exists_compile_of_input plain (query p p.mem_nodes_self) compiled inside
      exact ih q inside (Plan.forall_nodes_of_mem query inside) found n mem

theorem execute_of_compile (query : ∀ n ∈ p.nodes, n.isQuery = true) (compiled : c.compile ctx p = .ok cursor) :
    c.execute p ctx w = ((p.feed c.program? ctx.params w.store).result, w) := by
  rw [execute, compiled]
  exact (delivers_compile query compiled).collect

theorem exists_compile_of_execute {rows : List Row} {after : World σ}
    (success : c.execute p ctx w = (.ok rows, after)) :
    ∃ cursor, c.compile ctx p = .ok cursor := by
  rw [execute] at success
  split at success
  · cases success
  · next cursor compiled => exact ⟨cursor, compiled⟩

end Compiler

end FederatedQuery
