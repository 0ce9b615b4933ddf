import FederatedQuery.Proofs.Plan.Predicates
import FederatedQuery.Proofs.Program.Normalize

/-!
Simplifying the programs of a query under what is known of their inputs changes no row, and no success into
a failure. What is known of an input is true on its rows, and its rows fit its row type.
-/
namespace FederatedQuery

namespace Plan

/-- No float is stored, written in a row or made by an expression. -/
def FloatFree (store : Store) : Plan → Prop
  | scan _ table => ∀ row ∈ store.rows table.name, ∀ v ∈ row, v.floats = []
  | values _ rows => ∀ row ∈ rows, ∀ v ∈ row, v.floats = []
  | calculate _ program _ => ∀ e ∈ program.projects ++ program.condition.toList, e.Everywhere Expr.FloatFree
  | join _ _ on _ _ => on.Everywhere Expr.FloatFree
  | _ => True

/-- An aggregation has group fields, and no mean, which is a float. -/
def Grouped : Plan → Prop
  | aggregate _ group calls _ => group ≠ [] ∧ ∀ call ∈ calls, call.function ≠ .avg
  | _ => True

/-- An operator of a query without floats, over rows as they are declared. -/
structure Exact (store : Store) (n : Plan) : Prop where
  query : n.isQuery = true
  made : n.Constructed
  stocked : n.Stocked true store
  marked : n.Marked
  free : n.FloatFree store
  grouped : n.Grouped

section Rows

variable {params : Bindings} {row made : Row}

theorem floats_item {items : List Value} {item : Value} (free : (Value.array items).floats = [])
    (mem : item ∈ items) : item.floats = [] := by
  rw [List.eq_nil_iff_forall_not_mem] at free ⊢
  exact fun x inside => free x (Value.mem_itemFloats.2 ⟨item, mem, inside⟩)

theorem floats_nulls {count : Nat} : ∀ v ∈ Rows.nulls count, v.floats = [] := by
  intro v mem
  rw [List.eq_of_mem_replicate mem]
  rfl

theorem floats_made {program : Program} (bound : ∀ i w, params i = some w → w.floats = [])
    (free : ∀ e ∈ program.projects, e.Everywhere Expr.FloatFree) (fields : ∀ v ∈ row, v.floats = [])
    (outcome : Rows.Made program params row made) : ∀ v ∈ made, v.floats = [] := by
  have projected {r : Row} (evaluated : program.projectRow row params = .ok r) : ∀ v ∈ r, v.floats = [] := by
    intro v mem
    obtain ⟨e, inside, value⟩ := exists_of_forall₂_right (Expr.evalAll_eq_ok.1 evaluated) mem
    exact Expr.eval_floats (free e inside) fields bound value
  cases outcome with
  | projected _ evaluated => exact projected evaluated
  | unwound _ evaluated array inside =>
    intro v mem
    rcases List.mem_or_eq_of_mem_set mem with old | rfl
    · exact projected evaluated v old
    · exact floats_item (projected evaluated _ (List.mem_of_getElem? array)) inside

theorem floats_joined {kind : JoinKind} {on : Expr} {leftArity rightArity : Nat} {left right : List Row}
    (first : ∀ l ∈ left, ∀ v ∈ l, v.floats = []) (second : ∀ r ∈ right, ∀ v ∈ r, v.floats = [])
    (joined : Rows.Joined kind on leftArity rightArity params left right row) : ∀ v ∈ row, v.floats = [] := by
  cases joined with
  | pair _ mem mem' => exact List.forall_mem_append.2 ⟨first _ mem, second _ mem'⟩
  | padded _ mem => exact List.forall_mem_append.2 ⟨first _ mem, floats_nulls⟩
  | orphan _ mem => exact List.forall_mem_append.2 ⟨floats_nulls, second _ mem⟩
  | kept _ mem => exact first _ mem

theorem floats_aggregate {group : List Nat} {calls : List AggCall} {rows out : List Row}
    (each : ∀ r ∈ rows, ∀ v ∈ r, v.floats = []) (present : group ≠ []) (whole : ∀ call ∈ calls, call.function ≠ .avg)
    (success : Rows.aggregate group calls rows = .ok out) (mem : row ∈ out) : ∀ v ∈ row, v.floats = [] := by
  rcases Rows.mem_aggregate success mem with ⟨first, rest, key, states, members, keyed, folded, rfl⟩ | ⟨_, ungrouped, _⟩
  · refine List.forall_mem_append.2 ⟨fun v inside => ?_, fun v inside => ?_⟩
    · obtain ⟨index, _, read⟩ := exists_of_forall₂_right (mapM_eq_ok.1 keyed) inside
      rw [Rows.groupKeyOf] at read
      split at read
      · next located =>
        cases read
        exact each first (members first (.head _)) v (List.mem_of_getElem? located)
      · cases read
    · obtain ⟨s, held, rfl⟩ := List.mem_map.1 inside
      obtain ⟨call, called, state⟩ := exists_of_forall₂_right folded held
      exact Rows.floats_callState (fun r mem => each r (members r mem)) (whole call called) state
  · exact absurd ungrouped present

end Rows

section Query

variable {params : Bindings} {store : Store} {p : Plan}

theorem Exact.fits (exactly : ∀ n ∈ p.nodes, n.Exact store) :
    ∀ row ∈ (p.feed asWritten params store).rows, p.rowType.Fits true row :=
  fits_feed (fun n mem => (exactly n mem).query) (fun n mem => (exactly n mem).made)
    (fun n mem => (exactly n mem).stocked) fun _ n mem => (exactly n mem).marked

theorem Exact.floats (bound : ∀ i v, params i = some v → v.floats = []) (exactly : ∀ n ∈ p.nodes, n.Exact store) :
    ∀ row ∈ (p.feed asWritten params store).rows, ∀ v ∈ row, v.floats = [] := by
  apply p.induction_nodes
  intro n node below row mem
  have fits : ∀ q ∈ n.inputs, ∀ row ∈ (q.feed asWritten params store).rows, q.rowType.Fits true row :=
    fun q mem => Exact.fits (forall_nodes_of_node exactly (mem_nodes_trans (mem_nodes_of_input mem) node))
  obtain ⟨query, made, -, -, free, grouped⟩ := exactly n node
  cases n with
  | scan | values =>
    rw [feed, Feed.rows_ofRows] at mem
    exact free row mem
  | calculate h program input =>
    obtain ⟨r, inside, out, success, mem⟩ := Feed.mem_rows_expand mem
    have arity := (fits input (.head _) r inside).length_eq.trans made.calculate.2.1.symm
    exact floats_made bound (fun e mem => free e (List.mem_append_left _ mem))
      (below input (.head _) r inside) (Rows.mem_runRow arity success mem).2
  | aggregate h group calls input =>
    obtain ⟨rows, out, found, success, mem⟩ := mem_feed_aggregate mem
    have each := below input (.head _)
    rw [Feed.rows_of_result found] at each
    exact floats_aggregate each grouped.1 grouped.2 success mem
  | join h kind on left right =>
    exact floats_joined (below left (.head _)) (below right (.tail _ (.head _))) (mem_feed_join mem)
  | setOp h op all first rest =>
    rcases mem_feedChain mem with here | ⟨_, q, inside, found⟩
    · exact below first (.head _) row here
    · exact below q (.tail _ inside) row found
  | sort h collation offset fetch input => exact below input (.head _) row (mem_feed_sort mem)
  | modify | collect | converter => cases query

theorem Exact.conditions (exactly : ∀ n ∈ p.nodes, n.Exact store) :
    ∀ n ∈ p.nodes, ∀ e ∈ n.condition?, e.Everywhere Expr.FloatFree := by
  intro n mem e condition
  have free := (exactly n mem).free
  cases n with
  | calculate => exact free e (List.mem_append_right _ (Option.mem_toList.2 condition))
  | join =>
    cases condition
    exact free
  | _ => cases condition

/-- What is known of a query may be assumed of its rows. -/
theorem Exact.applies (bound : ∀ i v, params i = some v → v.floats = []) (exactly : ∀ n ∈ p.nodes, n.Exact store)
    (passes : Nat) : ∀ row ∈ (p.feed asWritten params store).rows,
      ((Simplifier.ofPredicates p.predicates).withPasses passes).Applies row params := by
  intro row mem
  have conditions := Exact.conditions exactly
  refine ⟨?_, everywhere_predicates Expr.stable_floatFree.toDurable (fun _ _ _ => trivial) conditions,
    Exact.floats bound exactly row mem⟩
  have signed : ∀ n ∈ p.nodes, ∀ e ∈ n.condition?, e.Everywhere (Expr.ZeroSigned false) :=
    fun n inside e found => (conditions n inside e found).mono fun _ here => here.zeroSigned false
  refine holds_feed (fun n mem => (exactly n mem).query) (fun n mem => (exactly n mem).made)
    (fun h table inside => (exactly _ inside).stocked) signed ?_ row mem
  intro n inside
  have grouped := (exactly n inside).grouped
  cases n with
  | aggregate => exact fun ungrouped => absurd ungrouped grouped.1
  | _ => trivial

end Query

end Plan

namespace Compiler

open Foreign Plan

variable {σ : Type} {c : Compiler σ} {ctx : Context} {params : Bindings} {store : Store} {rows : List Row} {h : Head}
  {input p : Plan} {program : Program}

/-- What a program of the query makes of a row, it makes of the row as it is ready to run. -/
theorem runRow_program? (bound : ∀ i v, params i = some v → v.floats = [])
    (exactly : ∀ n ∈ (Plan.calculate h program input).nodes, n.Exact store) {row : Row} {out : List Row}
    (mem : row ∈ (input.feed asWritten params store).rows) (success : Rows.runRow program params row = .ok out) :
    Program.runReady (c.program? program input) params row = .ok out := by
  have below : ∀ n ∈ input.nodes, n.Exact store := forall_nodes_of_mem exactly (.head _)
  obtain ⟨-, made, -, marked, free, -⟩ := exactly _ (mem_nodes_self _)
  obtain ⟨_, arity, checked⟩ := made.calculate
  have fits := Exact.fits below row mem
  rw [program?]
  split
  · next simplify =>
    refine Program.runRow_normalize (Exact.applies bound below c.passes row mem)
      (fits.length_eq.trans arity.symm) (fun e inside x sub => ?_) checked.projects success
    exact ⟨(marked e inside x sub).readsPresent fits, free e inside x sub⟩
  · exact success

theorem result_feedChain {op : SetOp} {all : Bool} {rest : List Plan} {chain chain' : Feed}
    (first : ∀ rows, chain.result = .ok rows → chain'.result = .ok rows)
    (each : ∀ q ∈ rest, ∀ rows, (q.feed asWritten params store).result = .ok rows →
      (q.feed c.program? params store).result = .ok rows)
    (success : (feedChain asWritten params store op all chain rest).result = .ok rows) :
    (feedChain c.program? params store op all chain' rest).result = .ok rows := by
  induction rest generalizing chain chain' with
  | nil => exact first rows success
  | cons q rest ih =>
    refine ih (fun rows success => ?_) (fun q mem => each q (.tail _ mem)) success
    obtain ⟨left, right, here, next, rfl⟩ := Feed.result_combine_eq_ok.1 success
    exact Feed.result_combine_eq_ok.2 ⟨left, right, first left here, each q (.head _) right next, rfl⟩

/-- A program over an input that keeps its rows makes the rows that it makes as it is written. -/
theorem result_calculate (bound : ∀ i v, params i = some v → v.floats = [])
    (exactly : ∀ n ∈ (Plan.calculate h program input).nodes, n.Exact store)
    (below : ∀ rows, (input.feed asWritten params store).result = .ok rows →
      (input.feed c.program? params store).result = .ok rows)
    (success : (feed asWritten params store (.calculate h program input)).result = .ok rows) :
    (feed c.program? params store (.calculate h program input)).result = .ok rows := by
  obtain ⟨inner, made, found, each, rfl⟩ := Feed.result_expand_eq_ok.1 success
  have ready : List.Forall₂ (fun r m => Program.runReady (c.program? program input) params r = .ok m) inner made := by
    obtain ⟨long, each⟩ := List.forall₂_iff_zip.1 each
    refine List.forall₂_iff_zip.2 ⟨long, fun mem => runRow_program? bound exactly ?_ (each mem)⟩
    rw [Feed.rows_of_result found]
    exact (List.of_mem_zip mem).1
  rw [feed]
  cases run : c.program? program input with
  | none =>
    rw [run] at ready
    have empty : ∀ m ∈ made, m = [] := by
      intro m mem
      obtain ⟨_, _, here⟩ := exists_of_forall₂_right ready mem
      exact (Except.ok.inj here).symm
    rw [List.flatten_eq_nil_iff.2 empty]
    rfl
  | some =>
    rw [run] at ready
    exact Feed.result_expand_eq_ok.2 ⟨inner, made, below inner found, ready, rfl⟩

theorem result_feed (bound : ∀ i v, params i = some v → v.floats = [])
    (exactly : ∀ n ∈ p.nodes, n.Exact store) (success : (p.feed asWritten params store).result = .ok rows) :
    (p.feed c.program? params store).result = .ok rows := by
  revert rows
  apply p.induction_nodes
  intro n node below rows success
  cases n with
  | scan | values => exact success
  | calculate h program input =>
    exact result_calculate bound (forall_nodes_of_node exactly node) (fun _ => below input (.head _)) success
  | aggregate h group calls input | sort h collation offset fetch input =>
    rw [feed, Feed.result_ofResult] at success ⊢
    obtain ⟨inner, found, success⟩ := bind_eq_ok.1 success
    rw [below input (.head _) found]
    exact success
  | join h kind on left right =>
    rw [feed, Feed.result_ofResult] at success ⊢
    obtain ⟨first, found, success⟩ := bind_eq_ok.1 success
    obtain ⟨second, found', success⟩ := bind_eq_ok.1 success
    rw [below left (.head _) found, below right (.tail _ (.head _)) found']
    exact success
  | setOp h op all first rest =>
    exact result_feedChain (fun _ => below first (.head _)) (fun q mem _ => below q (.tail _ mem)) success
  | modify | collect | converter => cases (exactly _ node).query

theorem exists_compile_ready {plain : Compiler σ} (asIs : plain.simplify = false)
    (query : ∀ n ∈ p.nodes, n.isQuery = true) {cursor : Cursor (World σ)}
    (compiled : plain.compile ctx p = .ok cursor) : ∃ cursor, c.compile ctx p = .ok cursor := by
  refine exists_compile c ctx query fun n mem => ?_
  obtain ⟨_, compiled⟩ := exists_compile_of_node asIs query compiled n mem
  exact runs_of_compile compiled

/-- Where a query as it is written gives rows, simplifying its programs, with any number of passes, gives the
same rows in the same order. -/
theorem execute_simplified (c : Compiler σ) (passes : Nat) (ctx : Context) (w after : World σ) (p : Plan)
    (exactly : ∀ n ∈ p.nodes, n.Exact w.store) (bound : ∀ i v, ctx.params i = some v → v.floats = [])
    (rows : List Row) (plain : { c with simplify := false }.execute p ctx w = (.ok rows, after)) :
    { c with simplify := true, passes := passes }.execute p ctx w = (.ok rows, after) := by
  have query : ∀ n ∈ p.nodes, n.isQuery = true := fun n mem => (exactly n mem).query
  obtain ⟨cursor, compiled⟩ := exists_compile_of_execute plain
  obtain ⟨cursor', compiled'⟩ := exists_compile_ready (c := { c with simplify := true, passes := passes })
    rfl query compiled
  rw [execute_of_compile query compiled, program?_of_plain rfl, Prod.mk.injEq] at plain
  rw [execute_of_compile query compiled', result_feed bound exactly plain.1, plain.2]

/-- Of two rows one passes a filter, and the filter above it is seen to pass whatever comes. -/
theorem execute_simplified_filters :
    let rowType : RowType := ⟨[⟨"id", .integer, false⟩, ⟨"x", .integer, true⟩]⟩
    let pulled (t : RowType) : Head := ⟨t, { Traits.logical with convention := .pull }⟩
    let field := Expr.ref 1 .integer true
    let filter (condition : Expr) (input : Plan) := Plan.calculate (pulled rowType)
      ⟨rowType, [.ref 0 .integer false, field], some condition, rowType⟩ input
    let scan := Plan.scan (pulled rowType) { Table.named "t" rowType with stored := true }
    let p := filter (.call .isNotNull [field] .boolean) (filter (.call .gt [field, .lit (.int 3)] .boolean) scan)
    let w : World Unit := ⟨[("t", [[.int 1, .int 5], [.int 2, .null]])], [], 0, ()⟩
    let c : Compiler Unit := .ofOptions .default
    let ctx : Context := ⟨fun _ => none, none⟩
    { c with simplify := false }.execute p ctx w = (.ok [[.int 1, .int 5]], w) ∧
      { c with simplify := true, passes := 3 }.execute p ctx w = (.ok [[.int 1, .int 5]], w) := by
  intro rowType pulled field filter scan p w c ctx
  have nodes : p.nodes = [p, filter (.call .gt [field, .lit (.int 3)] .boolean) scan, scan] := rfl
  have query : ∀ n ∈ p.nodes, n.isQuery = true := by
    rw [nodes]
    decide
  have plain : { c with simplify := false }.execute p ctx w = (.ok [[.int 1, .int 5]], w) := by
    rw [execute_of_compile query rfl]
    rfl
  have filtered (condition : Expr) (input : Plan) (typed : input.rowType = rowType)
      (made : (filter condition input).Constructed) (marked : condition.Everywhere (Expr.Marked rowType))
      (free : condition.Everywhere Expr.FloatFree) : (filter condition input).Exact w.store :=
    ⟨rfl, made, trivial, by simp [filter, Plan.Marked, typed, marked, field, Expr.Marked, rowType],
      by simp [filter, Plan.FloatFree, free, field, Expr.FloatFree], trivial⟩
  have scanned : scan.Exact w.store := by
    have found : w.store.rows "t" = [[.int 1, .int 5], [.int 2, .null]] := rfl
    refine ⟨rfl, ⟨_, rfl, rfl⟩, ?_, trivial, ?_, trivial⟩
    · simp [scan, Plan.Stocked, Table.named, found, RowType.Fits, RowType.nullability, rowType, Value.Suits,
        Value.isNull]
    · simp [scan, Plan.FloatFree, Table.named, found, Value.floats]
  refine ⟨plain, execute_simplified c 3 ctx w w p (fun n mem => ?_) (fun i v bound => by cases bound) _ plain⟩
  rw [nodes] at mem
  simp only [List.mem_cons, List.not_mem_nil, or_false] at mem
  rcases mem with rfl | rfl | rfl
  · exact filtered _ _ rfl ⟨_, rfl, rfl⟩ (by simp [field, Expr.Marked]) (by simp [field, Expr.FloatFree])
  · exact filtered _ _ rfl ⟨_, rfl, rfl⟩ (by simp [field, Expr.Marked])
      (by simp [field, Expr.FloatFree, Value.floats])
  · exact scanned

/-- On a row with a value more than is declared the two differ: a filter that is seen to pass whatever comes
is left out, and with it the projection to the declared columns. -/
theorem execute_simplified_surplus :
    let rowType : RowType := ⟨[⟨"id", .integer, false⟩]⟩
    let pulled (t : RowType) : Head := ⟨t, { Traits.logical with convention := .pull }⟩
    let field := Expr.ref 0 .integer false
    let p := Plan.calculate (pulled rowType) ⟨rowType, [field], some (.call .isNotNull [field] .boolean), rowType⟩
      (.scan (pulled rowType) { Table.named "t" rowType with stored := true })
    let w : World Unit := ⟨[("t", [[.int 1, .int 2]])], [], 0, ()⟩
    let c : Compiler Unit := .ofOptions .default
    let ctx : Context := ⟨fun _ => none, none⟩
    { c with simplify := false }.execute p ctx w = (.ok [[.int 1]], w) ∧
      { c with simplify := true }.execute p ctx w = (.ok [[.int 1, .int 2]], w) := by
  intro rowType pulled field p w c ctx
  have query : ∀ n ∈ p.nodes, n.isQuery = true := by decide
  constructor
  · rw [execute_of_compile query rfl]
    rfl
  · rw [execute_of_compile query rfl]
    rfl

end Compiler

end FederatedQuery
