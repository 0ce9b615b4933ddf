import FederatedQuery.Execution.Compile
import FederatedQuery.Plan.Placement

/-!
How often each kind of work is done. A profile is read off the input of the work, so the work itself
need not count.
-/
namespace FederatedQuery

structure Profile where
  simplify : Nat := 0
  convert : Nat := 0
  compile : Nat := 0
  /-- Queries put into words, also those that cannot be. -/
  sqlEmit : Nat := 0
  /-- Pipelines and writes made, also those that cannot be. -/
  pipelineEmit : Nat := 0
  /-- Sets of parameters bound into pipelines. -/
  bind : Nat := 0
deriving DecidableEq

namespace Profile

protected def add (a b : Profile) : Profile :=
  ⟨a.simplify + b.simplify, a.convert + b.convert, a.compile + b.compile, a.sqlEmit + b.sqlEmit,
    a.pipelineEmit + b.pipelineEmit, a.bind + b.bind⟩

instance : Add Profile := ⟨Profile.add⟩

end Profile

/-- The work of making a program ready under a simplifier. When no row can pass, the projections are
not looked at. -/
def Program.normalizing (p : Program) (s : Simplifier) : Profile :=
  match p.condition, p.normalize s with
  | some _, none => { simplify := 1 }
  | some _, some _ => { simplify := 1 + p.projects.length }
  | none, _ => { simplify := p.projects.length }

def Planner.planning (target : Convention) : Profile := if target = .logical then {} else { convert := 1 }

namespace Sql

def emitting (dialects : List Dialect) (p : Plan) : Profile :=
  match planDialect dialects p with
  | .ok _ => { sqlEmit := 1 }
  | .error _ => {}

end Sql

namespace Pipeline

def queryEmitting (p : Plan) : Profile := if p.convention = .document then { pipelineEmit := 1 } else {}

def writeEmitting (p : Plan) : Profile :=
  match p with
  | .modify .. => queryEmitting p
  | _ => {}

def Prepared.binding (q : Prepared) : Profile :=
  match q.mode with
  | .direct => {}
  | .prepared => { bind := 1 }

/-- The work of binding one set of parameters after the other, up to one that is refused. -/
def Prepared.bindingAll (q : Prepared) : List Bindings → Profile
  | [] => {}
  | set :: sets => match q.bind set with
    | .ok _ => q.binding + q.bindingAll sets
    | .error _ => q.binding

end Pipeline

def Foreign.Emitters.emitting (e : Emitters) (p : Plan) : Profile :=
  match p.convention.kind with
  | .sql => match e.dialects with
    | some dialects => Sql.emitting dialects p
    | none => {}
  | .document => if e.pipelines then Pipeline.queryEmitting p else {}
  | .logical | .pull => {}

namespace Compiler

variable {σ : Type}

open Foreign

def opensWork (c : Compiler σ) (source : Convention) (input : Plan) : Profile :=
  match c.executors source.kind with
  | none => {}
  | some _ => c.emitters.emitting input

/-- Work that goes on when a plan compiles. -/
def continued (compiled : Except Error (Cursor (World σ))) (work further : Profile) : Profile :=
  match compiled with
  | .ok _ => work + further
  | .error _ => work

def inProcessWork (p : Plan) (work : Profile) : Profile := if p.convention = .pull then work else {}

mutual

/-- The work below a plan while it is compiled. It ends with the first part that does not compile. -/
def work (c : Compiler σ) (ctx : Context) : Plan → Profile
  | .scan .. | .values .. => {}
  | p@(.calculate _ program input) => inProcessWork p
      ((if c.simplify then program.normalizing (c.simplifier input) else {}) +
        match c.program? program input with
        | none => {}
        | some _ => work c ctx input)
  | p@(.aggregate _ _ _ input) | p@(.sort _ _ _ _ input) | p@(.modify _ _ _ input) =>
    inProcessWork p (work c ctx input)
  | p@(.join _ _ _ left right) =>
    inProcessWork p (continued (c.compile ctx left) (work c ctx left) (work c ctx right))
  | p@(.setOp _ _ _ first rest) | p@(.collect _ _ first rest) =>
    inProcessWork p (continued (c.compile ctx first) (work c ctx first) (chainWork c ctx rest))
  | p@(.converter _ source input) => inProcessWork p (match source with
      | .pull => work c ctx input
      | .logical => {}
      | _ => c.opensWork source input)

def chainWork (c : Compiler σ) (ctx : Context) : List Plan → Profile
  | [] => {}
  | p :: rest => continued (c.compile ctx p) (work c ctx p) (chainWork c ctx rest)

end

def compiling (c : Compiler σ) (ctx : Context) (p : Plan) : Profile := { compile := 1 } + c.work ctx p

end Compiler

end FederatedQuery
