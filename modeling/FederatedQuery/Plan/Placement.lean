import FederatedQuery.Plan.Build

/-!
Placement: every operator gets a convention that can run it, with converters where conventions meet. An
operator stays with its inputs when they agree on a convention that can run it, and else goes to the
target.
-/
namespace FederatedQuery

namespace Plan

def unwinds : Plan → Bool
  | calculate _ program _ => program.unwindPosition.isSome
  | _ => false

end Plan

def Convention.read (s : String) : Except Error Convention :=
  match Convention.read? s with
  | some c => .ok c
  | none => .error (.unsupported "planner" s s!"unknown calling convention '{s}'")

def Convention.supports (c : Convention) (p : Plan) : Bool :=
  match c, p with
  | .logical, _ => false
  | .pull, _ => true
  | .sql _, .converter .. | .sql _, .collect .. => false
  | .sql _, p => !p.unwinds
  | .document, .join .. | .document, .setOp .. | .document, .collect ..
  | .document, .converter .. => false
  | .document, p => !p.unwinds

/-- The converters there are: from every convention of a kind into a convention. -/
structure Planner where
  converters : List (ConventionKind × Convention)

namespace Planner

/-- Query text and document pipelines can feed cursors. -/
def default : Planner := ⟨[(.sql, .pull), (.document, .pull)]⟩

def canConvert (planner : Planner) (source target : Convention) : Bool :=
  decide (source = target) || decide ((source.kind, target) ∈ planner.converters)

def cannotRun (c : Convention) (p : Plan) : Error :=
  .unsupported c.text p.name s!"convention {c.text} cannot implement {p.name}"

def setConvention (h : Head) (convention : Convention) : Head :=
  { h with traits := { h.traits with convention } }

/-- An operator in a convention, over inputs that take the place of its own. -/
def recast (p : Plan) (c : Convention) (inputs : List Plan) : Except Error Plan :=
  p.copy (setConvention p.head c).traits inputs

def bridge (target : Convention) (p : Plan) : Except Error Plan := do
  let converter := p.convert target
  let input ← converter.input 0
  if !converter.rowType.compatible input.rowType then
    .error (.contract (.convertedRows input.rowType converter.rowType))
  return converter

/-- Brings a placed plan into a convention: as it is, by choosing for an operator that has none, or by
a converter. -/
def ensure (planner : Planner) (target : Convention) (p : Plan) : Except Error Plan :=
  if p.convention = target then .ok p
  else if p.convention = .logical then
    if target.supports p then recast p target p.inputs else .error (cannotRun target p)
  else if planner.canConvert p.convention target then bridge target p
  else .error (.unsupportedConversion p.convention.text target.text)

/-- The convention of an operator over placed inputs. -/
def choose (target : Convention) (p : Plan) (inputs : List Plan) : Except Error Convention :=
  let fallback := if target.supports p then .ok target else .error (cannotRun target p)
  match (inputs.map Plan.convention).filter (· ≠ .logical) with
  | first :: others => if others.all (· = first) && first.supports p then .ok first else fallback
  | [] => fallback

/-- An operator over placed inputs, in the convention that is chosen for it. -/
def settle (planner : Planner) (target : Convention) (p : Plan) (placed : List Plan) : Except Error Plan := do
  let c ← choose target p placed
  recast p c (← placed.mapM (planner.ensure c))

mutual

def place (planner : Planner) (target : Convention) : Plan → Except Error Plan
  | .scan h table => recast (.scan h table) table.convention []
  | .values h rows => .ok (.values h rows)
  | .modify h table op input => do
    if !table.convention.supports (.modify h table op input) then
      .error (cannotRun table.convention (.modify h table op input))
    let placed ← planner.place target input
    recast (.modify h table op input) table.convention [← planner.ensure table.convention placed]
  | .converter h _ input => do
    let placed ← planner.place target input
    planner.ensure (if h.traits.convention = .logical then target else h.traits.convention) placed
  | .calculate h program input => do
    planner.settle target (.calculate h program input) [← planner.place target input]
  | .aggregate h group calls input => do
    planner.settle target (.aggregate h group calls input) [← planner.place target input]
  | .sort h collation offset fetch input => do
    planner.settle target (.sort h collation offset fetch input) [← planner.place target input]
  | .join h kind on left right => do
    planner.settle target (.join h kind on left right)
      [← planner.place target left, ← planner.place target right]
  | .setOp h op all first rest => do
    planner.settle target (.setOp h op all first rest)
      ((← planner.place target first) :: (← planner.placeAll target rest))
  | .collect h all first rest => do
    planner.settle target (.collect h all first rest)
      ((← planner.place target first) :: (← planner.placeAll target rest))

def placeAll (planner : Planner) (target : Convention) : List Plan → Except Error (List Plan)
  | [] => .ok []
  | p :: rest => do
    let placed ← planner.place target p
    return placed :: (← planner.placeAll target rest)

end

def plan (planner : Planner) (target : Convention) (p : Plan) : Except Error Plan := do
  if target = .logical then .error (.contract .logicalTarget)
  planner.ensure target (← planner.place target p)

end Planner

end FederatedQuery
