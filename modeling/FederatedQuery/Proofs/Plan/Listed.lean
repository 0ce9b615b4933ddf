import FederatedQuery.Proofs.Cursor.Follows
import FederatedQuery.Proofs.Plan.Feed

/-!
A compiled query is a cursor over a list of rows. The list is composed, operator by operator, of the lists of the
inputs. No sequence of calls, in which a reader may go back at any time or go on past the end, tells the compiled
query from a cursor over that list.
-/
namespace FederatedQuery

/-- The rows that a program makes of rows. A trivial program passes them on as they are. -/
def Rows.run (program : Program) (params : Bindings) (rows : List Row) : Except Error (List Row) :=
  if program.isTrivial then .ok rows else return (← rows.mapM (selectRow program params)).flatten

namespace Plan

mutual

/-- The rows of a query, where each operator is applied to the rows of its inputs. -/
def listed (params : Bindings) (store : Store) : Plan → Except Error (List Row)
  | scan _ table => .ok (store.rows table.name)
  | values _ rows => .ok rows
  | calculate _ program input => do Rows.run program params (← listed params store input)
  | aggregate _ group calls input => do Rows.aggregate group calls (← listed params store input)
  | join _ kind on left right => do
    Rows.join kind on left.rowType.arity right.rowType.arity params (← listed params store left)
      (← listed params store right)
  | setOp _ op all first rest => do
    return Rows.combineAll op all (← listed params store first) (← listedAll params store rest)
  | sort _ collation offset fetch input => do Rows.sort collation offset fetch (← listed params store input)
  | converter _ _ input => listed params store input
  | modify .. | collect .. => .ok []

def listedAll (params : Bindings) (store : Store) : List Plan → Except Error (List (List Row))
  | [] => .ok []
  | p :: rest => return (← listed params store p) :: (← listedAll params store rest)

end

theorem listedAll_eq_mapM (params : Bindings) (store : Store) (plans : List Plan) :
    listedAll params store plans = plans.mapM (listed params store) := by
  induction plans with
  | nil => rfl
  | cons _ _ ih => rw [listedAll, List.mapM_cons, ih]

/-- A table that is read has stored rows, rows that a union may leave out have no floats, nothing comes from another
convention, and nothing is modified. -/
def Listable (params : Bindings) (store : Store) : Plan → Prop
  | scan _ table => table.checkStored = .ok ()
  | setOp _ .union false first rest =>
    ∀ q ∈ first :: rest, ∀ rows, q.listed params store = .ok rows → ∀ r ∈ rows, Value.itemFloats r = []
  | converter _ source _ => source = .pull
  | modify .. | collect .. => False
  | _ => True

end Plan

namespace Compiler

open Foreign Cursor

variable {σ : Type} {c : Compiler σ} {ctx : Context} {w : World σ} {rows : List Row}

theorem follows_stored (table : Table) :
    (stored table : Cursor (World σ)).Follows w (w.store.rows table.name) :=
  follows_buffered ⟨(), rfl⟩

theorem follows_running {input : Cursor (World σ)} {out : List Row} {program : Program} {params : Bindings}
    (follows : input.Follows w rows) (made : Rows.run program params rows = .ok out) :
    (running input program params).Follows w out := by
  unfold Rows.run at made
  unfold running
  split at made
  · next trivial =>
    cases made
    rwa [if_pos trivial]
  · next varied =>
    obtain ⟨lists, selected, made⟩ := bind_eq_ok.1 made
    cases made
    obtain ⟨expanded, each, rfl⟩ := exists_map_of_mapM selected
    rw [if_neg varied]
    simp only [Rows.selectRow] at each
    split
    · next position found =>
      rw [found] at each
      exact follows.unwound each
    · next found =>
      rw [found] at each
      exact follows.calculated each

theorem follows_compileChain {op : SetOp} {all : Bool} {rest : List Plan} {lists : List (List Row)}
    {chain : Cursor (World σ)} (follows : chain.Follows w rows)
    (each : List.Forall₂ (fun p rows => ∃ cursor, c.compile ctx p = .ok cursor ∧ cursor.Follows w rows) rest lists) :
    ∃ cursor, c.compileChain ctx (.combined op all) chain rest = .ok cursor ∧
      cursor.Follows w (lists.foldl (Rows.setOperation op all) rows) := by
  induction each generalizing chain rows with
  | nil => exact ⟨chain, rfl, follows⟩
  | cons here _ ih =>
    obtain ⟨next, compiled, second⟩ := here
    rw [compileChain, compiled]
    exact ih (follows.combined op all second)

theorem follows_compile (plain : c.simplify = false) {p : Plan} (pulled : ∀ n ∈ p.nodes, n.convention = .pull)
    (listable : ∀ n ∈ p.nodes, n.Listable ctx.params w.store) (composed : p.listed ctx.params w.store = .ok rows) :
    ∃ cursor, c.compile ctx p = .ok cursor ∧ cursor.Follows w rows := by
  revert rows
  apply p.induction_nodes
  intro n node below rows composed
  have here := listable n node
  have inside {compiled : Except Error (Cursor (World σ))} : inProcess n compiled = compiled := if_pos (pulled n node)
  cases n with
  | scan h table =>
    cases composed
    rw [compile, inside, here]
    exact ⟨_, rfl, follows_stored table⟩
  | values h rows =>
    cases composed
    rw [compile, inside]
    exact ⟨_, rfl, follows_ofRows w rows⟩
  | calculate h program input =>
    obtain ⟨given, found, composed⟩ := bind_eq_ok.1 composed
    obtain ⟨inner, compiled, follows⟩ := below _ (.head _) found
    rw [compile, inside, program?_of_plain plain, compiled]
    exact ⟨_, rfl, follows_running follows composed⟩
  | aggregate | sort =>
    rw [Plan.listed] at composed
    obtain ⟨given, found, composed⟩ := bind_eq_ok.1 composed
    obtain ⟨inner, compiled, follows⟩ := below _ (.head _) found
    rw [compile, inside, compiled]
    exact ⟨_, rfl, follows.transformed composed⟩
  | join =>
    obtain ⟨given, found, composed⟩ := bind_eq_ok.1 composed
    obtain ⟨given', found', composed⟩ := bind_eq_ok.1 composed
    obtain ⟨first, compiled, follows⟩ := below _ (.head _) found
    obtain ⟨second, compiled', follows'⟩ := below _ (.tail _ (.head _)) found'
    rw [compile, inside, compiled, compiled']
    exact ⟨_, rfl, follows.merged follows' composed⟩
  | setOp h op all first rest =>
    rw [Plan.listed] at composed
    obtain ⟨given, found, composed⟩ := bind_eq_ok.1 composed
    obtain ⟨lists, others, composed⟩ := bind_eq_ok.1 composed
    cases composed
    obtain ⟨inner, compiled, follows⟩ := below _ (.head _) found
    rw [Plan.listedAll_eq_mapM] at others
    have related := mapM_eq_ok.1 others
    have each : List.Forall₂ (fun q rows => ∃ cursor, c.compile ctx q = .ok cursor ∧ cursor.Follows w rows)
        rest lists :=
      List.forall₂_iff_zip.2 ⟨related.length_eq, fun mem =>
        below _ (.tail _ (List.of_mem_zip mem).1) ((List.forall₂_iff_zip.1 related).2 mem)⟩
    -- Cursors are combined two at a time, and the lists of all inputs at once.
    rw [compile, inside, compiled, ← Rows.foldl_setOperation]
    · exact follows_compileChain follows each
    · rintro rfl rfl rows mem
      have whole : List.Forall₂ (fun q rows => q.listed ctx.params w.store = .ok rows) (first :: rest)
        (given :: lists) := .cons found related
      obtain ⟨q, inside, listed⟩ := exists_of_forall₂_right whole mem
      exact here q inside rows listed
  | converter h source input =>
    obtain rfl : source = .pull := here
    rw [compile, inside]
    exact below _ (.head _) composed
  | modify | collect => exact here.elim

/-- A query that runs in process as it is written compiles to a cursor that answers every sequence of calls as a
cursor over its list of rows does. -/
theorem transcript_compile (c : Compiler σ) (ctx : Context) (w : World σ) (p : Plan) (rows : List Row)
    (plain : c.simplify = false) (pulled : ∀ n ∈ p.nodes, n.convention = .pull)
    (listable : ∀ n ∈ p.nodes, n.Listable ctx.params w.store)
    (composed : p.listed ctx.params w.store = .ok rows) :
    ∃ cursor, c.compile ctx p = .ok cursor ∧
      ∀ calls, cursor.transcript w calls = (Cursor.ofRows rows).transcript w calls := by
  obtain ⟨cursor, compiled, follows⟩ := follows_compile plain pulled listable composed
  exact ⟨cursor, compiled, follows.transcript⟩

/-- A union of the items of stored arrays with literal rows is read past its second row, started again and read past
its end. -/
theorem transcript_compile_unwound :
    let pulled (t : RowType) : Head := ⟨t, { Traits.logical with convention := .pull }⟩
    let arrays : RowType := ⟨[⟨"tags", .array .integer, true⟩]⟩
    let items : RowType := ⟨[⟨"tag", .integer, true⟩]⟩
    let unwound := Plan.calculate (pulled items)
      ⟨arrays, [.call .unwind [.ref 0 (.array .integer) true] .integer], none, items⟩
      (.scan (pulled arrays) { Table.named "t" arrays with stored := true })
    let p := Plan.setOp (pulled items) .union false unwound [.values (pulled items) [[.int 2], [.int 3]]]
    let w : World Unit := ⟨[("t", [[.array [.int 1, .int 2]], [.array []], [.null], [.array [.int 1]]])], [], 0, ()⟩
    let c : Compiler Unit := { Compiler.ofOptions .default with simplify := false }
    let ctx : Context := ⟨fun _ => none, none⟩
    ∃ cursor, c.compile ctx p = .ok cursor ∧
      (cursor.transcript w [.next, .next, .current, .reset, .next, .next, .next, .current, .next, .next]).1 =
        [.advanced (.ok true), .advanced (.ok true), .read (.ok [.int 2]), .rewound (.ok ()), .advanced (.ok true),
          .advanced (.ok true), .advanced (.ok true), .read (.ok [.int 3]), .advanced (.ok false),
          .advanced (.ok false)] := by
  intro pulled arrays items unwound p w c ctx
  have nodes : p.nodes = [p, unwound, .scan (pulled arrays) { Table.named "t" arrays with stored := true },
    .values (pulled items) [[.int 2], [.int 3]]] := rfl
  have listable : ∀ n ∈ p.nodes, n.Listable ctx.params w.store := by
    rw [nodes]
    simp only [List.forall_mem_cons]
    refine ⟨List.forall_mem_cons.2 ⟨?_, List.forall_mem_singleton.2 ?_⟩, trivial, rfl, trivial,
      fun _ mem => absurd mem List.not_mem_nil⟩
    · rintro _ ⟨⟩
      decide
    · rintro _ ⟨⟩
      decide
  obtain ⟨cursor, compiled, answers⟩ := transcript_compile c ctx w p [[.int 1], [.int 2], [.int 3]] rfl
    (by rw [nodes]; decide) listable rfl
  exact ⟨cursor, compiled, by rw [answers]; rfl⟩

/-- A union of one input does not come to the first occurrences among its rows, nor a projection of all fields in
their order to the projected rows where a row has a value more. -/
theorem transcript_compile_single :
    let rowType : RowType := ⟨[⟨"id", .integer, false⟩]⟩
    let pulled : Head := ⟨rowType, { Traits.logical with convention := .pull }⟩
    let program : Program := ⟨rowType, [.ref 0 .integer false], none, rowType⟩
    let single := Plan.setOp pulled .union false (.values pulled [[.int 1], [.int 1]]) []
    let identity := Plan.calculate pulled program (.scan pulled { Table.named "t" rowType with stored := true })
    let w : World Unit := ⟨[("t", [[.int 1, .int 2]])], [], 0, ()⟩
    let c : Compiler Unit := { Compiler.ofOptions .default with simplify := false }
    let ctx : Context := ⟨fun _ => none, none⟩
    List.eraseDupsBy Row.equal [[.int 1], [.int 1]] = [[.int 1]] ∧
      Rows.selectRow program ctx.params [.int 1, .int 2] = .ok [[.int 1]] ∧
      (∃ cursor, c.compile ctx single = .ok cursor ∧
        cursor.transcript w [.next, .next] ≠ (Cursor.ofRows [[.int 1]]).transcript w [.next, .next]) ∧
      ∃ cursor, c.compile ctx identity = .ok cursor ∧
        cursor.transcript w [.next, .current] ≠ (Cursor.ofRows [[.int 1]]).transcript w [.next, .current] := by
  intro rowType pulled program single identity w c ctx
  refine ⟨rfl, rfl, ⟨_, rfl, fun same => ?_⟩, ⟨_, rfl, fun same => ?_⟩⟩
  · cases congrArg Prod.fst same
  · cases congrArg Prod.fst same

end Compiler

end FederatedQuery
