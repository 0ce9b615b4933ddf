import FederatedQuery.Cursor.Combine
import FederatedQuery.Cursor.Program
import FederatedQuery.Foreign.Executor
import FederatedQuery.Plan.Predicates
import FederatedQuery.Rows.Aggregate
import FederatedQuery.Rows.Join
import FederatedQuery.Rows.Sort

/-!
Plans become cursors. What is to run in process is built from the cursors of its inputs. Below a
converter from another convention the plan becomes an artifact, opened by the executor of that
convention.
-/
namespace FederatedQuery

open Foreign

structure Compiler (σ : Type) where
  emitters : Emitters
  executors : ConventionKind → Option (Executor (World σ))
  /-- Whether programs are simplified under what is known of their input. -/
  simplify : Bool
  passes : Nat

namespace Compiler

variable {σ : Type}

def ofOptions (o : Config.Options) : Compiler σ := ⟨.ofOptions o, fun _ => none, o.simplify, o.passes⟩

def withExecutor (c : Compiler σ) (kind : ConventionKind) (e : Executor (World σ)) : Compiler σ :=
  { c with executors := fun k => if k = kind then some e else c.executors k }

def simplifier (c : Compiler σ) (input : Plan) : Simplifier :=
  (Simplifier.ofPredicates input.predicates).withPasses c.passes

/-- A program as it is run over its input, if any row can pass. -/
def program? (c : Compiler σ) (program : Program) (input : Plan) : Option Program :=
  if c.simplify then program.normalize (c.simplifier input) else some program

/-- The rows of a table when the first of them is asked for. -/
def stored (table : Table) : Cursor (World σ) :=
  .buffered () (fun s w => ⟨.ok (w.store.rows table.name), s, w⟩) fun s w => ⟨.ok (), s, w⟩

def running (input : Cursor (World σ)) (program : Program) (params : Bindings) : Cursor (World σ) :=
  if program.isTrivial then input
  else match program.unwindPosition with
    | some position => input.unwound program position params
    | none => input.calculated program params

/-- Changes a table by rows, and gives the row that counts them. A failure changes nothing. -/
def change (table : Table) (op : ModifyOp) (params : Bindings) (rows : List Row) (w : World σ) :
    Except Error (List Row) × World σ :=
  match table.checkStored with
  | .error e => (.error e, w)
  | .ok _ => match Rows.change op params rows (w.store.rows table.name) with
    | .error e => (.error e, w)
    | .ok (after, n) => (.ok [Rows.countRow n], { w with store := w.store.put table.name after })

def collecting (all : Bool) (left right : Cursor (World σ)) : Cursor (World σ) :=
  if all then left.concatenated right else .combined .union false left right

def opening (c : Compiler σ) (ctx : Context) (source : Convention) (input : Plan) :
    Except Error (Cursor (World σ)) :=
  match c.executors source.kind with
  | none => .error (.unsupported source.text "Converter"
      s!"no executor registered for convention {source.text}")
  | some executor => match c.emitters.emit input with
    | .error e => .error e
    | .ok artifact => .ok (executor.open artifact ctx)

/-- Refuses what is not to run in process. -/
def inProcess (p : Plan) (compiled : Except Error (Cursor (World σ))) : Except Error (Cursor (World σ)) :=
  if p.convention = .pull then compiled else .error (.contract (.notExecutable p.name p.convention))

mutual

def compile (c : Compiler σ) (ctx : Context) : Plan → Except Error (Cursor (World σ))
  | p@(.scan _ table) => inProcess p (match table.checkStored with
      | .error e => .error e
      | .ok _ => .ok (stored table))
  | p@(.values _ rows) => inProcess p (.ok (.ofRows rows))
  | p@(.calculate _ program input) => inProcess p (match c.program? program input with
      | none => .ok (.ofRows [])
      | some program => do
        let input ← compile c ctx input
        return running input program ctx.params)
  | p@(.aggregate _ group calls input) => inProcess p do
      let input ← compile c ctx input
      return input.transformed fun rows w => (Rows.aggregate group calls rows, w)
  | p@(.join _ kind on left right) => inProcess p do
      let l ← compile c ctx left
      let r ← compile c ctx right
      return l.merged r (Rows.join kind on left.rowType.arity right.rowType.arity ctx.params)
  | p@(.setOp _ op all first rest) => inProcess p do
      let first ← compile c ctx first
      compileChain c ctx (.combined op all) first rest
  | p@(.sort _ collation offset fetch input) => inProcess p do
      let input ← compile c ctx input
      return input.transformed fun rows w => (Rows.sort collation offset fetch rows, w)
  | p@(.modify _ table op input) => inProcess p do
      let input ← compile c ctx input
      return input.transformed (change table op ctx.params)
  | p@(.collect _ all first rest) => inProcess p do
      let first ← compile c ctx first
      compileChain c ctx (collecting all) first rest
  | p@(.converter _ source input) => inProcess p (match source with
      | .pull => compile c ctx input
      | .logical => .error (.contract .logicalConverter)
      | _ => c.opening ctx source input)

/-- Joins a cursor with those of more plans, from left to right. -/
def compileChain (c : Compiler σ) (ctx : Context)
    (pair : Cursor (World σ) → Cursor (World σ) → Cursor (World σ)) (chain : Cursor (World σ)) :
    List Plan → Except Error (Cursor (World σ))
  | [] => .ok chain
  | p :: rest => do
    let next ← compile c ctx p
    compileChain c ctx pair (pair chain next) rest

end

/-- The rows of a plan. The cursor is closed whether or not they can be had. -/
def execute (c : Compiler σ) (p : Plan) (ctx : Context) (w : World σ) : Except Error (List Row) × World σ :=
  match c.compile ctx p with
  | .error e => (.error e, w)
  | .ok cursor => cursor.collect cursor.start w

end Compiler

end FederatedQuery
