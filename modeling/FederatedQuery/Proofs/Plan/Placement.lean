import FederatedQuery.Plan.Placement
import FederatedQuery.Proofs.Plan.Feed

/-!
What placement makes of a plan. A placed plan lives in the target down to its converters, every operator in a
convention that can run it, and every converter between two conventions that have one. It computes what the plan
computes. A plan is refused only for an operator or a conversion that is not there, never for a broken contract.
-/
namespace FederatedQuery

theorem RowType.compatible_self (r : RowType) : r.compatible r = true := by
  rw [RowType.compatible, Bool.and_eq_true, decide_eq_true_eq]
  refine ⟨rfl, List.all_eq_true.2 fun pair mem => decide_eq_true (.inl ?_)⟩
  rw [List.zip_eq_zipWith, List.zipWith_self] at mem
  obtain ⟨f, -, rfl⟩ := List.mem_map.1 mem
  rfl

namespace Plan

def isConverter : Plan → Bool
  | converter .. => true
  | _ => false

/-- An operator that runs where its inputs are, if it can. -/
def isMovable : Plan → Bool
  | calculate .. | aggregate .. | join .. | setOp .. | sort .. | collect .. => true
  | _ => false

mutual

/-- What a plan computes: the plan without its converters and conventions. -/
def bare : Plan → Plan
  | scan h table => scan (Planner.setConvention h .logical) table
  | values h rows => values (Planner.setConvention h .logical) rows
  | calculate h program input => calculate (Planner.setConvention h .logical) program (bare input)
  | aggregate h group calls input => aggregate (Planner.setConvention h .logical) group calls (bare input)
  | join h kind on left right => join (Planner.setConvention h .logical) kind on (bare left) (bare right)
  | setOp h op all first rest => setOp (Planner.setConvention h .logical) op all (bare first) (bareAll rest)
  | sort h collation offset fetch input => sort (Planner.setConvention h .logical) collation offset fetch (bare input)
  | modify h table op input => modify (Planner.setConvention h .logical) table op (bare input)
  | collect h all first rest => collect (Planner.setConvention h .logical) all (bare first) (bareAll rest)
  | converter _ _ input => bare input

def bareAll : List Plan → List Plan
  | [] => []
  | p :: rest => bare p :: bareAll rest

end

theorem bareAll_eq_map (plans : List Plan) : bareAll plans = plans.map bare := by
  induction plans with
  | nil => rfl
  | cons _ _ ih => rw [bareAll, ih, List.map_cons]

variable {c : Convention} {p q : Plan} {below : List Plan}

theorem areHomogeneous_eq_true {plans : List Plan} :
    areHomogeneous c plans = true ↔ ∀ p ∈ plans, p.isHomogeneous c = true := by
  induction plans with
  | nil => simp [areHomogeneous]
  | cons _ _ ih => simp [areHomogeneous, ih]

theorem isHomogeneous_eq_true : p.isHomogeneous c = true ↔
    p.convention = c ∧ (p.isConverter = true ∨ ∀ q ∈ p.inputs, q.isHomogeneous c = true) := by
  cases p <;> simp [isHomogeneous, areHomogeneous_eq_true, convention, traits, head, isConverter, inputs, and_assoc]

/-- An operator in another convention and over other inputs. It is supported where it was, and computes what it
did when its inputs do. -/
structure Recast (p : Plan) (c : Convention) (below : List Plan) (q : Plan) : Prop where
  head : q.head = Planner.setConvention p.head c
  inputs : q.inputs = below
  isConverter : q.isConverter = p.isConverter
  isMovable : q.isMovable = p.isMovable
  supports (d : Convention) : d.supports q = d.supports p
  bare : p.isConverter = false → below.map Plan.bare = p.inputs.map Plan.bare → q.bare = p.bare

/-- One plan computes what another does. -/
structure Computes (p q : Plan) : Prop where
  rowType : q.rowType = p.rowType
  bare : q.bare = p.bare

theorem Computes.trans {r : Plan} (first : Computes p q) (second : Computes q r) : Computes p r :=
  ⟨second.rowType.trans first.rowType, second.bare.trans first.bare⟩

theorem map_bare {ps qs : List Plan} (each : List.Forall₂ Computes ps qs) : qs.map bare = ps.map bare := by
  induction each with
  | nil => rfl
  | cons first _ ih => rw [List.map_cons, List.map_cons, first.bare, ih]

theorem Recast.computes (made : p.Recast c below q) (operator : p.isConverter = false)
    (each : List.Forall₂ Computes p.inputs below) : Computes p q := by
  refine ⟨?_, made.bare operator (map_bare each)⟩
  rw [rowType, made.head]
  rfl

theorem exists_withInputs? (lengths : below.length = p.inputs.length) :
    ∃ q, (p.withHead (Planner.setConvention p.head c)).withInputs? below = some q ∧ p.Recast c below q := by
  cases p with
  | scan | values =>
    rw [List.length_eq_zero_iff.1 lengths]
    exact ⟨_, rfl, rfl, rfl, rfl, rfl, fun d => by cases d <;> rfl, fun _ _ => rfl⟩
  | calculate | aggregate | sort | modify =>
    obtain ⟨q, rfl⟩ := List.length_eq_one_iff.1 lengths
    refine ⟨_, rfl, rfl, rfl, rfl, rfl, fun d => by cases d <;> rfl, fun _ same => ?_⟩
    rw [Plan.bare, (List.cons.inj same).1]
    rfl
  | join =>
    obtain ⟨q, q', rfl⟩ := List.length_eq_two.1 lengths
    refine ⟨_, rfl, rfl, rfl, rfl, rfl, fun d => by cases d <;> rfl, fun _ same => ?_⟩
    obtain ⟨first, second⟩ := List.cons.inj same
    rw [Plan.bare, first, (List.cons.inj second).1]
    rfl
  | setOp | collect =>
    cases below with
    | nil => cases lengths
    | cons =>
      refine ⟨_, if_pos (Nat.succ.inj lengths), rfl, rfl, rfl, rfl, fun d => by cases d <;> rfl, fun _ same => ?_⟩
      rw [Plan.bare, Plan.bare, bareAll_eq_map, bareAll_eq_map, (List.cons.inj same).1, (List.cons.inj same).2]
      rfl
  | converter =>
    obtain ⟨q, rfl⟩ := List.length_eq_one_iff.1 lengths
    exact ⟨_, rfl, rfl, rfl, rfl, rfl, fun d => by cases d <;> rfl, nofun⟩

theorem isConverter_of_isMovable (movable : p.isMovable = true) : p.isConverter = false := by
  cases p with
  | converter => cases movable
  | _ => rfl

theorem copy_eq_ok {traits : Traits} (made : (p.withTraits traits).withInputs? below = some q)
    (types : List.Forall₂ (fun old new => new.rowType = old.rowType) p.inputs below) : p.copy traits below = .ok q := by
  rw [copy, made]
  dsimp only
  rw [List.find?_eq_none.2]
  intro pair mem
  rw [List.forall₂_zip types mem, RowType.compatible_self]
  decide

end Plan

namespace Planner

open Plan

variable {planner : Planner} {target : Convention} {p q : Plan}

theorem exists_recast (p : Plan) (c : Convention) {below : List Plan}
    (types : List.Forall₂ (fun old new => new.rowType = old.rowType) p.inputs below) :
    ∃ q, recast p c below = .ok q ∧ p.Recast c below q := by
  obtain ⟨q, made, kept⟩ := exists_withInputs? (c := c) types.length_eq.symm
  exact ⟨q, copy_eq_ok made types, kept⟩

theorem bridge_eq_ok (c : Convention) (p : Plan) : bridge c p = .ok (p.convert c) := by
  have same : (p.convert c).rowType.compatible p.rowType = true := RowType.compatible_self p.rowType
  change (if !(p.convert c).rowType.compatible p.rowType then _ else _) = _
  rw [same]
  rfl

/-- A node stands where it can run. A converter stands between the convention of its input and its own, and its
input is one fragment of the convention that it is converted from. -/
def Settled (planner : Planner) : Plan → Prop
  | .converter h source input =>
    h.traits.convention ≠ .logical ∧ source = input.convention ∧ input.isHomogeneous source = true ∧
      source ≠ h.traits.convention ∧ planner.canConvert source h.traits.convention = true
  | n => n.convention ≠ .logical ∧ n.convention.supports n = true

/-- A plan that is placed as a whole, its root in the given convention. -/
structure Placed (planner : Planner) (c : Convention) (q : Plan) : Prop where
  homogeneous : q.isHomogeneous c = true
  settled : ∀ n ∈ q.nodes, planner.Settled n

/-- A leaf without a convention, which runs wherever its rows are needed. -/
structure Floating (q : Plan) : Prop where
  logical : q.convention = .logical
  leaf : q.inputs = []
  supports : ∀ c : Convention, c ≠ .logical → c.supports q = true

/-- The convention that an operator has to run in, when its inputs do not decide it. -/
def demanded (target : Convention) : Plan → Convention
  | .modify _ table _ _ => table.convention
  | _ => target

/-- Why a plan is not placed: an operator that its convention cannot run, or a conversion that is not there. -/
def Refused (planner : Planner) (target : Convention) (p : Plan) (e : Error) : Prop :=
  (∃ n ∈ p.nodes, (demanded target n).supports n = false ∧ e = cannotRun (demanded target n) n) ∨
    ∃ source goal, planner.canConvert source goal = false ∧ e = .unsupportedConversion source.text goal.text

theorem Refused.of_input {e : Error} (mem : q ∈ p.inputs) (refused : planner.Refused target q e) :
    planner.Refused target p e := by
  rcases refused with ⟨n, inside, unsupported⟩ | missing
  · exact .inl ⟨n, mem_nodes.2 (.inr ⟨q, mem, inside⟩), unsupported⟩
  · exact .inr missing

theorem settled_of_supports {n : Plan} (operator : n.isConverter = false) (physical : n.convention ≠ .logical)
    (supported : n.convention.supports n = true) : planner.Settled n := by
  cases n with
  | converter => cases operator
  | _ => exact ⟨physical, supported⟩

variable {c : Convention}

theorem placed_of_inputs (operator : q.isConverter = false) (here : q.convention = c) (physical : c ≠ .logical)
    (supported : c.supports q = true) (below : ∀ r ∈ q.inputs, planner.Placed c r) : planner.Placed c q := by
  refine ⟨isHomogeneous_eq_true.2 ⟨here, .inr fun r mem => (below r mem).homogeneous⟩, fun n mem => ?_⟩
  rcases mem_nodes.1 mem with rfl | ⟨r, input, inside⟩
  · exact settled_of_supports operator (here ▸ physical) (here ▸ supported)
  · exact (below r input).settled n inside

theorem placed_of_recast {below : List Plan} (made : p.Recast c below q) (operator : p.isConverter = false)
    (physical : c ≠ .logical) (supported : c.supports p = true) (each : ∀ r ∈ below, planner.Placed c r) :
    planner.Placed c q := by
  refine placed_of_inputs (made.isConverter.trans operator) ?_ physical ((made.supports c).trans supported) ?_
  · exact congrArg (fun h => h.traits.convention) made.head
  · rwa [made.inputs]

theorem Placed.convention (placed : planner.Placed c q) : q.convention = c :=
  (isHomogeneous_eq_true.1 placed.homogeneous).1

theorem Placed.physical (placed : planner.Placed c q) : c ≠ .logical := by
  have root := placed.settled q (mem_nodes_self q)
  rw [← placed.convention]
  cases q <;> exact root.1

theorem isConverter_of_leaf (leaf : q.inputs = []) : q.isConverter = false := by
  cases q with
  | converter => cases leaf
  | _ => rfl

/-- A leaf that has no convention yet, or a plan that is placed as a whole. -/
def Ready (planner : Planner) (q : Plan) : Prop := Floating q ∨ ∃ c, planner.Placed c q

theorem ends_ensure (physical : c ≠ .logical) (ready : planner.Ready q) (p : Plan) :
    Ends (fun r => planner.Placed c r ∧ Computes q r) (planner.Refused target p) (planner.ensure c q) := by
  -- A floating leaf has no convention and a placed plan has one, so that each branch is for one of the two.
  unfold ensure
  by_cases there : q.convention = c
  · rw [if_pos there]
    refine ⟨?_, rfl, rfl⟩
    rcases ready with floating | ⟨d, placed⟩
    · exact absurd (there.symm.trans floating.logical) physical
    · exact placed.convention.symm.trans there ▸ placed
  rw [if_neg there]
  by_cases logical : q.convention = .logical
  · rw [if_pos logical]
    rcases ready with floating | ⟨d, placed⟩
    · rw [if_pos (floating.supports c physical)]
      obtain ⟨r, made, kept⟩ := exists_recast q c (List.forall₂_same.2 fun _ _ => rfl)
      have operator : q.isConverter = false := isConverter_of_leaf floating.leaf
      rw [made]
      refine ⟨placed_of_recast kept operator physical (floating.supports c physical) ?_, ?_⟩
      · rw [floating.leaf]
        exact nofun
      · exact kept.computes operator (List.forall₂_same.2 fun _ _ => ⟨rfl, rfl⟩)
    · exact absurd (placed.convention.symm.trans logical) placed.physical
  rw [if_neg logical]
  by_cases converts : planner.canConvert q.convention c = true
  · rw [if_pos converts, bridge_eq_ok]
    rcases ready with floating | ⟨d, placed⟩
    · exact absurd floating.logical logical
    · refine ⟨⟨isHomogeneous_eq_true.2 ⟨rfl, .inl rfl⟩, fun n mem => ?_⟩, rfl, by rw [convert, Plan.bare]⟩
      rcases mem_nodes.1 mem with rfl | ⟨r, input, inside⟩
      · exact ⟨physical, rfl, placed.convention ▸ placed.homogeneous, there, converts⟩
      · rw [List.mem_singleton.1 input] at inside
        exact placed.settled n inside
  · rw [if_neg converts]
    exact .inr ⟨_, _, Bool.not_eq_true _ ▸ converts, rfl⟩

theorem demanded_of_isMovable (movable : p.isMovable = true) : demanded target p = target := by
  cases p with
  | modify => cases movable
  | _ => rfl

/-- A convention for an operator: it can run it, and is the target or that of an input. -/
structure Chosen (target : Convention) (p : Plan) (placed : List Plan) (c : Convention) : Prop where
  physical : c ≠ .logical
  supported : c.supports p = true
  found : c = target ∨ ∃ q ∈ placed, q.convention = c

theorem ends_choose (physical : target ≠ .logical) (free : demanded target p = target) (placed : List Plan) :
    Ends (Chosen target p placed) (planner.Refused target p) (choose target p placed) := by
  have fallback : Ends (Chosen target p placed) (planner.Refused target p)
      (if target.supports p then .ok target else .error (cannotRun target p)) := by
    by_cases supported : target.supports p = true
    · rw [if_pos supported]
      exact ⟨physical, supported, .inl rfl⟩
    · rw [if_neg supported]
      refine .inl ⟨p, mem_nodes_self p, ?_, ?_⟩
      · rw [free]
        exact Bool.not_eq_true _ ▸ supported
      · rw [free]
  unfold choose
  cases anchored : (placed.map Plan.convention).filter (· ≠ .logical) with
  | nil => exact fallback
  | cons first others =>
    dsimp only
    split
    next agreed =>
      have member : first ∈ (placed.map Plan.convention).filter (· ≠ .logical) := anchored ▸ (.head _)
      obtain ⟨inside, away⟩ := List.mem_filter.1 member
      exact ⟨by simpa using away, (Bool.and_eq_true _ _ ▸ agreed).2, .inr (List.mem_map.1 inside)⟩
    next => exact fallback

theorem ends_settle (physical : target ≠ .logical) (movable : p.isMovable = true) {placed : List Plan}
    (each : List.Forall₂ (fun q r => planner.Ready r ∧ Computes q r) p.inputs placed) :
    Ends (fun q => planner.Ready q ∧ Computes p q) (planner.Refused target p) (planner.settle target p placed) := by
  have operator := isConverter_of_isMovable movable
  refine (ends_choose physical (demanded_of_isMovable movable) placed).bind fun c chosen => ?_
  have brought : Ends (List.Forall₂ (fun q r => planner.Placed c r ∧ Computes q r) placed) (planner.Refused target p)
      (placed.mapM (planner.ensure c)) := by
    refine Ends.mapM fun q mem => ?_
    obtain ⟨_, _, ready, _⟩ := exists_of_forall₂_right each mem
    exact ends_ensure chosen.physical ready p
  refine brought.bind fun below arrived => ?_
  have computes : List.Forall₂ Computes p.inputs below :=
    forall₂_trans each arrived fun _ _ _ first second => first.2.trans second.2
  obtain ⟨q, made, kept⟩ := exists_recast p c (computes.imp fun _ _ same => same.rowType)
  rw [made]
  refine ⟨.inr ⟨c, placed_of_recast kept operator chosen.physical chosen.supported fun r mem => ?_⟩,
    kept.computes operator computes⟩
  obtain ⟨_, _, there, _⟩ := exists_of_forall₂_right arrived mem
  exact there

theorem ready_of_leaf (leaf : q.inputs = []) (supported : ∀ c : Convention, c ≠ .logical → c.supports q = true) :
    planner.Ready q := by
  by_cases logical : q.convention = .logical
  · exact .inl ⟨logical, leaf, supported⟩
  · refine .inr ⟨q.convention, placed_of_inputs (isConverter_of_leaf leaf) rfl logical (supported _ logical) ?_⟩
    rw [leaf]
    exact nofun

theorem placeAll_eq_mapM (plans : List Plan) : planner.placeAll target plans = plans.mapM (planner.place target) := by
  induction plans with
  | nil => rfl
  | cons _ _ ih => rw [placeAll, ih, List.mapM_cons]

theorem place_of_isMovable (movable : p.isMovable = true) :
    planner.place target p = p.inputs.mapM (planner.place target) >>= planner.settle target p := by
  cases p with
  | scan | values | modify | converter => cases movable
  | calculate _ _ input | aggregate _ _ _ input | sort _ _ _ _ input =>
    rw [place, inputs, List.mapM_cons]
    cases planner.place target input <;> rfl
  | join _ _ _ left right =>
    rw [place, inputs, List.mapM_cons, List.mapM_cons]
    cases planner.place target left with
    | error => rfl
    | ok => cases planner.place target right <;> rfl
  | setOp _ _ _ first rest | collect _ _ first rest =>
    rw [place, inputs, List.mapM_cons, placeAll_eq_mapM]
    cases planner.place target first with
    | error => rfl
    | ok => cases rest.mapM (planner.place target) <;> rfl

/-- Every converter of a plan has the row type of its input, as the boundary that `convert` makes. -/
def Bounded (p : Plan) : Prop := ∀ h source input, .converter h source input ∈ p.nodes → h.rowType = input.rowType

theorem ends_place (physical : target ≠ .logical) (bounded : Bounded p) :
    Ends (fun q => planner.Ready q ∧ Computes p q) (planner.Refused target p) (planner.place target p) := by
  induction p using Plan.induction with
  | step p ih =>
    have below {q : Plan} (mem : q ∈ p.inputs) :
        Ends (fun r => planner.Ready r ∧ Computes q r) (planner.Refused target p) (planner.place target q) :=
      (ih q mem fun _ _ _ inside => bounded _ _ _ (mem_nodes.2 (.inr ⟨q, mem, inside⟩))).mono (fun _ => id)
        fun _ => .of_input mem
    by_cases movable : p.isMovable = true
    · rw [place_of_isMovable movable]
      exact (Ends.mapM fun q mem => below mem).bind fun placed each => ends_settle physical movable each
    cases p with
    | calculate | aggregate | join | setOp | sort | collect => exact absurd rfl movable
    | scan h table =>
      obtain ⟨q, made, kept⟩ := exists_recast (.scan h table) table.convention .nil
      rw [place, made]
      refine ⟨ready_of_leaf kept.inputs fun c physical => ?_, kept.computes rfl .nil⟩
      rw [kept.supports]
      cases c with
      | logical => exact absurd rfl physical
      | _ => rfl
    | values =>
      refine ⟨ready_of_leaf rfl fun c physical => ?_, rfl, rfl⟩
      cases c with
      | logical => exact absurd rfl physical
      | _ => rfl
    | modify h table op input =>
      rw [place]
      by_cases supported : table.convention.supports (.modify h table op input) = true
      · rw [supported]
        have home : table.convention ≠ .logical := by
          intro logical
          rw [logical] at supported
          cases supported
        refine (below (.head _)).bind fun q arrived => ?_
        refine (ends_ensure home arrived.1 _).bind fun r brought => ?_
        have computes : List.Forall₂ Computes [input] [r] := .cons (arrived.2.trans brought.2) .nil
        obtain ⟨q', made, kept⟩ := exists_recast (.modify h table op input) table.convention
          (computes.imp fun _ _ same => same.rowType)
        rw [made]
        have placed := placed_of_recast kept rfl home supported (List.forall_mem_singleton.2 brought.1)
        exact ⟨.inr ⟨_, placed⟩, kept.computes rfl computes⟩
      · rw [Bool.not_eq_true] at supported
        rw [supported]
        exact .inl ⟨_, mem_nodes_self _, supported, rfl⟩
    | converter h source input =>
      refine (below (.head _)).bind fun q arrived => ?_
      have goal : (if h.traits.convention = .logical then target else h.traits.convention) ≠ .logical := by
        split
        next => exact physical
        next elsewhere => exact elsewhere
      refine (ends_ensure goal arrived.1 _).mono (fun r brought => ⟨.inr ⟨_, brought.1⟩, ?_⟩) fun _ => id
      have through := arrived.2.trans brought.2
      exact ⟨through.rowType.trans (bounded h source input (mem_nodes_self _)).symm,
        through.bare.trans (by rw [Plan.bare])⟩

theorem ends_plan (physical : target ≠ .logical) (bounded : Bounded p) :
    Ends (fun q => planner.Placed target q ∧ Computes p q) (planner.Refused target p) (planner.plan target p) := by
  unfold plan
  rw [if_neg physical]
  refine (ends_place physical bounded).bind fun q arrived => ?_
  exact (ends_ensure physical arrived.1 p).mono (fun r brought => ⟨brought.1, arrived.2.trans brought.2⟩) fun _ => id

/-- A plan is placed in the target down to its converters, with every node where it can run, and computes what it
did; or an operator or a conversion that is not there is reported. -/
theorem plan_outcome (planner : Planner) {target : Convention} (physical : target ≠ .logical) {p : Plan}
    (bounded : Bounded p) :
    (∀ q, planner.plan target p = .ok q →
      q.isHomogeneous target = true ∧ (∀ n ∈ q.nodes, planner.Settled n) ∧ q.rowType = p.rowType ∧ q.bare = p.bare) ∧
    ∀ e, planner.plan target p = .error e → planner.Refused target p e := by
  have ends : Ends (fun q => planner.Placed target q ∧ Computes p q) (planner.Refused target p)
      (planner.plan target p) := ends_plan physical bounded
  constructor
  · intro q success
    rw [success] at ends
    exact ⟨ends.1.homogeneous, ends.1.settled, ends.2.rowType, ends.2.bare⟩
  · intro e failure
    rw [failure] at ends
    exact ends

/-- A table of a query store joined with one of a document store, which is behind a boundary already. -/
def crossStore : Plan :=
  let row : RowType := ⟨[⟨"id", .integer, false⟩]⟩
  .join (logicalHead ⟨row.fields ++ row.fields⟩) .inner (.lit (.bool true))
    (ofTable { Table.named "orders" row with convention := .sql "mysql" })
    ((ofTable { Table.named "events" row with convention := .document }).convert .pull)

theorem plan_outcome_crossStore : Bounded crossStore ∧
    (∃ q, default.plan .pull crossStore = .ok q ∧ q.isHomogeneous .pull = true ∧ (∀ n ∈ q.nodes, default.Settled n) ∧
      q.rowType = crossStore.rowType ∧ q.bare = crossStore.bare) ∧
    ∃ e, default.plan .document crossStore = .error e ∧ default.Refused .document crossStore e := by
  have bounded : Bounded crossStore := by
    intro h source input mem
    simp [crossStore, nodes, ofTable, convert] at mem
    rw [mem.1, mem.2.2]
    rfl
  exact ⟨bounded, ⟨_, rfl, (plan_outcome default (by decide) bounded).1 _ rfl⟩,
    ⟨_, rfl, (plan_outcome default (by decide) bounded).2 _ rfl⟩⟩

end Planner

end FederatedQuery
