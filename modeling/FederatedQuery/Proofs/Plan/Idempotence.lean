import FederatedQuery.Proofs.Plan.Placement

/-!
Placing a placed plan. Every operator is found where placement left it, and stays there, but for one thing: a table
without a convention is scanned wherever the scan is needed, and a scan that a converter brought elsewhere does not
remember it. So a placed plan is placed as it is exactly when no such scan decides where something runs.
-/
namespace FederatedQuery

namespace Plan

/-- A scan of a table that has no convention of its own. -/
def isHomeless : Plan → Bool
  | scan _ table => decide (table.convention = .logical)
  | _ => false

/-- A scan without a home as placement first leaves it, and everything else as it is. -/
def released (p : Plan) : Plan := if p.isHomeless then p.withConvention .logical else p

variable {p : Plan} {below : List Plan} {q : Plan}

theorem withInputs?_self (operator : p.isConverter = false) : p.withInputs? p.inputs = some p := by
  cases p with
  | converter => cases operator
  | setOp | collect => exact if_pos rfl
  | _ => rfl

theorem convention_withConvention (p : Plan) (c : Convention) : (p.withConvention c).convention = c := by
  cases p <;> rfl

theorem Recast.convention {c : Convention} (made : p.Recast c below q) : q.convention = c :=
  congrArg (fun h => h.traits.convention) made.head

theorem isHomeless_of_isMovable (movable : p.isMovable = true) : p.isHomeless = false := by
  cases p with
  | scan => cases movable
  | _ => rfl

theorem released_of_not_isHomeless (homed : p.isHomeless = false) : p.released = p := by
  rw [released, homed]
  rfl

theorem convention_released (p : Plan) : p.released.convention = .logical ∨ p.released.convention = p.convention := by
  cases homeless : p.isHomeless with
  | false => exact .inr (congrArg convention (released_of_not_isHomeless homeless))
  | true =>
    rw [released, if_pos homeless]
    cases p with
    | scan => exact .inl rfl
    | _ => cases homeless

end Plan

namespace Planner

open Plan

variable {planner : Planner} {target c : Convention} {p q r : Plan} {placed : List Plan} {below : List Plan} {h : Head}
  {op : ModifyOp} {table : Table}

theorem withInputs?_of_recast (made : recast p c below = .ok q) :
    (p.withHead (setConvention p.head c)).withInputs? below = some q := by
  rw [recast, copy] at made
  cases copied : (p.withTraits (setConvention p.head c).traits).withInputs? below with
  | none =>
    rw [copied] at made
    cases made
  | some =>
    rw [copied] at made
    dsimp only at made
    split at made
    · cases made
    · rw [← Except.ok.inj made]
      exact copied

theorem recast_outcome (lengths : below.length = p.inputs.length)
    (made : recast p c below = .ok q) : p.Recast c below q := by
  obtain ⟨q', made', kept⟩ := exists_withInputs? (c := c) lengths
  rw [withInputs?_of_recast made] at made'
  cases made'
  exact kept

theorem recast_self (operator : p.isConverter = false) : recast p p.convention p.inputs = .ok p := by
  refine copy_eq_ok ?_ (List.forall₂_same.2 fun _ _ => rfl)
  have same : p.withTraits (setConvention p.head p.convention).traits = p := by cases p <;> rfl
  rw [same]
  exact withInputs?_self operator

theorem ensure_here (p : Plan) : planner.ensure p.convention p = .ok p := if_pos rfl

theorem ensure_convert (away : p.convention ≠ c) (physical : p.convention ≠ .logical)
    (converts : planner.canConvert p.convention c = true) : planner.ensure c p = .ok (p.convert c) := by
  rw [ensure, if_neg away, if_neg physical, if_pos converts, bridge_eq_ok]

/-- The ways in which a plan is brought into a convention. -/
inductive Brought (planner : Planner) (c : Convention) (p : Plan) : Plan → Prop
  | here (there : p.convention = c) : Brought planner c p p
  | chosen {recasted : Plan} (logical : p.convention = .logical) (made : recast p c p.inputs = .ok recasted) :
      Brought planner c p recasted
  | converted (physical : p.convention ≠ .logical) (away : p.convention ≠ c)
      (converts : planner.canConvert p.convention c = true) : Brought planner c p (p.convert c)

theorem brought_of_ensure (made : planner.ensure c p = .ok q) : planner.Brought c p q := by
  unfold ensure at made
  by_cases there : p.convention = c
  · rw [if_pos there] at made
    cases made
    exact .here there
  rw [if_neg there] at made
  by_cases logical : p.convention = .logical
  · rw [if_pos logical] at made
    split at made
    · exact .chosen logical made
    · cases made
  rw [if_neg logical] at made
  split at made
  next converts =>
    rw [bridge_eq_ok] at made
    cases made
    exact .converted logical there converts
  next => cases made

theorem convention_of_brought (brought : planner.Brought c p q) : q.convention = c := by
  cases brought with
  | here there => exact there
  | chosen _ made => exact (recast_outcome rfl made).convention
  | converted => rfl

theorem place_modify (supported : table.convention.supports (.modify h table op p) = true) :
    planner.place target (.modify h table op p) = (do
      let input ← planner.ensure table.convention (← planner.place target p)
      recast (.modify h table op p) table.convention [input]) := by
  rw [place, supported]
  rfl

theorem place_convert (physical : c ≠ .logical) :
    planner.place target (p.convert c) = planner.place target p >>= planner.ensure c := by
  exact congrArg (fun d => planner.place target p >>= planner.ensure d) (if_neg physical)

/-- An operator goes to a convention that its inputs agree on, apart from those that have none. -/
theorem choose_of_agreed (physical : c ≠ .logical) (supported : c.supports p = true)
    (agreed : ∀ q ∈ placed, q.convention = .logical ∨ q.convention = c)
    (present : c = target ∨ ∃ q ∈ placed, q.convention = c) : choose target p placed = .ok c := by
  have each : ∀ d ∈ (placed.map Plan.convention).filter (· ≠ .logical), d = c := by
    intro d mem
    obtain ⟨inside, away⟩ := List.mem_filter.1 mem
    obtain ⟨q, there, rfl⟩ := List.mem_map.1 inside
    exact (agreed q there).resolve_left (by simpa using away)
  unfold choose
  cases anchored : (placed.map Plan.convention).filter (· ≠ .logical) with
  | nil =>
    rcases present with rfl | ⟨q, mem, rfl⟩
    · exact if_pos supported
    · have member : q.convention ∈ (placed.map Plan.convention).filter (· ≠ .logical) :=
        List.mem_filter.2 ⟨List.mem_map_of_mem mem, by simpa using physical⟩
      rw [anchored] at member
      cases member
  | cons first others =>
    rw [anchored, List.forall_mem_cons] at each
    obtain ⟨rfl, others'⟩ := each
    have same : others.all (· = first) = true := List.all_eq_true.2 fun d mem => decide_eq_true (others' d mem)
    dsimp only
    rw [same, supported]
    rfl

theorem settle_outcome (physical : target ≠ .logical) (movable : p.isMovable = true)
    (lengths : placed.length = p.inputs.length) (settled : planner.settle target p placed = .ok q) :
    ∃ c below, Chosen target p placed c ∧
      List.Forall₂ (fun s r => planner.ensure c s = .ok r) placed below ∧ p.Recast c below q := by
  obtain ⟨c, chosen, settled⟩ := bind_eq_ok.1 settled
  obtain ⟨below, brought, made⟩ := bind_eq_ok.1 settled
  have ends : Ends _ (planner.Refused target p) _ := ends_choose physical (demanded_of_isMovable movable) placed
  rw [chosen] at ends
  have related := mapM_eq_ok.1 brought
  exact ⟨c, below, ends, related, recast_outcome (related.length_eq.symm.trans lengths) made⟩

/-- A leaf that has no convention and runs wherever its rows are needed. -/
inductive Afloat : Plan → Prop
  | scan {h : Head} {table : Table} (home : table.convention = .logical) (logical : h.traits.convention = .logical) :
      Afloat (.scan h table)
  | values {h : Head} {rows : List Row} (logical : h.traits.convention = .logical) : Afloat (.values h rows)

/-- A plan as placement leaves it: scans and changes of tables are where the tables are, other operators are over
inputs in a convention that can run them, and a converter is what brings its input elsewhere. A table without a
convention may be scanned anywhere. -/
inductive Seated (planner : Planner) : Plan → Prop
  | scan {h : Head} {table : Table} (physical : h.traits.convention ≠ .logical)
      (home : table.convention = .logical ∨ table.convention = h.traits.convention) : Seated planner (.scan h table)
  | values {h : Head} {rows : List Row} (physical : h.traits.convention ≠ .logical) : Seated planner (.values h rows)
  | operator {p : Plan} (movable : p.isMovable = true) (physical : p.convention ≠ .logical)
      (supported : p.convention.supports p = true) (there : ∀ q ∈ p.inputs, q.convention = p.convention)
      (below : ∀ q ∈ p.inputs, Seated planner q) : Seated planner p
  | modify {h : Head} {table : Table} {op : ModifyOp} {input : Plan} (home : h.traits.convention = table.convention)
      (supported : table.convention.supports (.modify h table op input) = true)
      (there : input.convention = table.convention) (below : Seated planner input) :
      Seated planner (.modify h table op input)
  | converter {c : Convention} {p : Plan} (physical : c ≠ .logical) (away : p.convention ≠ c)
      (converts : planner.canConvert p.convention c = true) (below : Seated planner p) : Seated planner (p.convert c)

theorem Seated.physical (seated : planner.Seated p) : p.convention ≠ .logical := by
  cases seated with
  | scan physical | values physical | operator _ physical | converter physical => exact physical
  | @modify h table op input home supported =>
    intro logical
    rw [← home, show h.traits.convention = .logical from logical] at supported
    cases supported

theorem Afloat.convention (afloat : Afloat p) : p.convention = .logical := by
  cases afloat with
  | scan _ logical | values logical => exact logical

theorem ensure_of_afloat (afloat : Afloat p) (physical : c ≠ .logical) :
    planner.ensure c p = .ok (p.withConvention c) := by
  have away : p.convention ≠ c := fun same => physical (same.symm.trans afloat.convention)
  rw [ensure, if_neg away, if_pos afloat.convention]
  cases afloat <;> cases c <;> first | exact absurd rfl physical | rfl

/-- A leaf that floats is put where it is needed, and a placed plan is left as it is or stands under a converter. -/
theorem ensure_outcome (physical : c ≠ .logical) (arrived : Afloat p ∨ planner.Seated p)
    (made : planner.ensure c p = .ok q) : Afloat p ∧ q = p.withConvention c ∨
      planner.Seated p ∧
        (q = p ∨ p.convention ≠ c ∧ planner.canConvert p.convention c = true ∧ q = p.convert c) := by
  rcases arrived with afloat | seated
  · rw [ensure_of_afloat afloat physical] at made
    exact .inl ⟨afloat, (Except.ok.inj made).symm⟩
  · refine .inr ⟨seated, ?_⟩
    cases brought_of_ensure made with
    | here => exact .inl rfl
    | chosen logical => exact absurd logical seated.physical
    | converted _ away converts => exact .inr ⟨away, converts, rfl⟩

theorem seated_ensure (physical : c ≠ .logical) (arrived : Afloat p ∨ planner.Seated p)
    (made : planner.ensure c p = .ok q) : planner.Seated q := by
  rcases ensure_outcome physical arrived made with ⟨afloat, rfl⟩ | ⟨seated, rfl | ⟨away, converts, rfl⟩⟩
  · cases afloat with
    | scan home => exact .scan physical (.inl home)
    | values => exact .values physical
  · exact seated
  · exact .converter physical away converts seated

/-- What runs where it does only because scans without a home were brought there. -/
def Adrift (target : Convention) (p : Plan) : Prop :=
  (p.isConverter = true ∨ p.isMovable = true ∧ p.convention ≠ target) ∧ ∀ q ∈ p.inputs, q.isHomeless = true

/-- Nothing in a plan is adrift. -/
def Anchored (target : Convention) (p : Plan) : Prop := ∀ n ∈ p.nodes, ¬ Adrift target n

/-- No converter of a plan stands right over a scan without a home. -/
def Homed (p : Plan) : Prop := ∀ h source input, .converter h source input ∈ p.nodes → input.isHomeless = false

theorem Homed.input (homed : Homed p) (mem : q ∈ p.inputs) : Homed q :=
  fun h source input inside => homed h source input (mem_nodes.2 (.inr ⟨q, mem, inside⟩))

theorem not_adrift_of_fixed (operator : p.isConverter = false) (fixed : p.isMovable = false) : ¬ Adrift target p := by
  rintro ⟨converter | ⟨movable, -⟩, -⟩
  · rw [operator] at converter
    cases converter
  · rw [fixed] at movable
    cases movable

theorem anchored_of_leaf (leaf : p.inputs = []) : Anchored target p := by
  intro n mem
  rcases mem_nodes.1 mem with rfl | ⟨q, inside, -⟩
  · refine not_adrift_of_fixed (isConverter_of_leaf leaf) ?_
    cases n with
    | scan | values => rfl
    | _ => cases leaf
  · rw [leaf] at inside
    cases inside

theorem anchored_modify (anchored : Anchored target p) : Anchored target (.modify h table op p) := by
  intro n mem
  rcases mem_nodes.1 mem with rfl | ⟨_, inside, deeper⟩
  · exact not_adrift_of_fixed rfl rfl
  · rw [List.mem_singleton.1 inside] at deeper
    exact anchored n deeper

theorem anchored_convert (homed : p.isHomeless = false) (anchored : Anchored target p) (c : Convention) :
    Anchored target (p.convert c) := by
  intro n mem
  rcases mem_nodes.1 mem with rfl | ⟨_, inside, deeper⟩
  · intro adrift
    rw [adrift.2 p (.head _)] at homed
    cases homed
  · rw [List.mem_singleton.1 inside] at deeper
    exact anchored n deeper

/-- An operator that moves is anchored by the target, or by an input that is no scan without a home. -/
theorem anchored_of_isMovable (movable : p.isMovable = true)
    (held : p.convention ≠ target → ∃ q ∈ p.inputs, q.isHomeless = false)
    (below : ∀ q ∈ p.inputs, Anchored target q) : Anchored target p := by
  intro n mem
  rcases mem_nodes.1 mem with rfl | ⟨q, inside, deeper⟩
  · rintro ⟨converter | ⟨-, elsewhere⟩, homeless⟩
    · rw [isConverter_of_isMovable movable] at converter
      cases converter
    · obtain ⟨q, inside, homed⟩ := held elsewhere
      rw [homeless q inside] at homed
      cases homed
  · exact below q inside n deeper

theorem isHomeless_ensure (physical : c ≠ .logical) (arrived : Afloat p ∨ planner.Seated p)
    (homed : p.isHomeless = false) (made : planner.ensure c p = .ok q) : q.isHomeless = false := by
  rcases ensure_outcome physical arrived made with ⟨afloat, rfl⟩ | ⟨-, rfl | ⟨-, -, rfl⟩⟩
  · cases afloat with
    | scan | values => exact homed
  · exact homed
  · rfl

theorem anchored_ensure (physical : c ≠ .logical) (arrived : Afloat p ∨ planner.Seated p)
    (firm : planner.Seated p → p.isHomeless = false ∧ Anchored target p)
    (made : planner.ensure c p = .ok q) : Anchored target q := by
  rcases ensure_outcome physical arrived made with ⟨afloat, rfl⟩ | ⟨seated, rfl | ⟨-, -, rfl⟩⟩
  · cases afloat with
    | scan | values => exact anchored_of_leaf rfl
  · exact (firm seated).2
  · exact anchored_convert (firm seated).1 (firm seated).2 c

/-- What placement makes of a plan: a leaf that is still to be brought somewhere, or a plan as placement leaves it. -/
def Arrives (planner : Planner) (target : Convention) (p q : Plan) : Prop :=
  (Afloat q ∧ q.isHomeless = p.isHomeless) ∨ planner.Seated q ∧ (Homed p → q.isHomeless = false ∧ Anchored target q)

theorem Arrives.seated (arrives : planner.Arrives target p q) : Afloat q ∨ planner.Seated q :=
  arrives.imp And.left And.left

theorem Arrives.firm (arrives : planner.Arrives target p q) (homed : Homed p) (seated : planner.Seated q) :
    q.isHomeless = false ∧ Anchored target q := by
  rcases arrives with ⟨afloat, -⟩ | ⟨-, firm⟩
  · exact absurd afloat.convention seated.physical
  · exact firm homed

/-- An operator that moves goes where an input without a home has not been, unless it goes to the target. -/
theorem arrives_settle (physical : target ≠ .logical) (movable : p.isMovable = true)
    (each : List.Forall₂ (planner.Arrives target) p.inputs placed) (settled : planner.settle target p placed = .ok q) :
    planner.Arrives target p q := by
  obtain ⟨c, below, ⟨away, supported, found⟩, brought, made⟩ :=
    settle_outcome physical movable each.length_eq.symm settled
  have here := made.convention
  have kind := made.isMovable
  refine .inr ⟨.operator (kind.trans movable) (here ▸ away) (here ▸ (made.supports c).trans supported) ?_ ?_,
    fun homed => ⟨isHomeless_of_isMovable (kind.trans movable), ?_⟩⟩
  · intro r mem
    rw [made.inputs] at mem
    obtain ⟨s, -, ensured⟩ := exists_of_forall₂_right brought mem
    exact (convention_of_brought (brought_of_ensure ensured)).trans here.symm
  · intro r mem
    rw [made.inputs] at mem
    obtain ⟨s, inside, ensured⟩ := exists_of_forall₂_right brought mem
    obtain ⟨input, -, arrives⟩ := exists_of_forall₂_right each inside
    exact seated_ensure away arrives.seated ensured
  · refine anchored_of_isMovable (kind.trans movable) (fun elsewhere => ?_) fun r inside => ?_
    · -- An input that had the convention before the operator did is still there.
      obtain ⟨s, inside, same⟩ := found.resolve_left (here ▸ elsewhere)
      obtain ⟨r, present, ensured⟩ := exists_of_forall₂_right brought.flip inside
      obtain ⟨input, there, arrives⟩ := exists_of_forall₂_right each inside
      rcases arrives.seated with afloat | seated
      · exact absurd (same.symm.trans afloat.convention) away
      · rw [← same, ensure_here] at ensured
        cases ensured
        exact ⟨s, made.inputs ▸ present, (arrives.firm (homed.input there) seated).1⟩
    · rw [made.inputs] at inside
      obtain ⟨s, inside, ensured⟩ := exists_of_forall₂_right brought inside
      obtain ⟨input, there, arrives⟩ := exists_of_forall₂_right each inside
      exact anchored_ensure away arrives.seated (arrives.firm (homed.input there)) ensured

theorem arrives_place (physical : target ≠ .logical) (placed : planner.place target p = .ok q) :
    planner.Arrives target p q := by
  induction p using Plan.induction generalizing q with
  | step p ih =>
    by_cases movable : p.isMovable = true
    · rw [place_of_isMovable movable] at placed
      obtain ⟨inputs, each, settled⟩ := bind_eq_ok.1 placed
      have arrives : List.Forall₂ (planner.Arrives target) p.inputs inputs :=
        forall₂_through (List.forall₂_same.2 fun _ _ => rfl) (mapM_eq_ok.1 each)
          fun input mem _ s same made => same ▸ ih input mem made
      exact arrives_settle physical movable arrives settled
    cases p with
    | calculate | aggregate | join | setOp | sort | collect => exact absurd rfl movable
    | scan h table =>
      cases placed
      by_cases home : table.convention = .logical
      · exact .inl ⟨.scan home home, rfl⟩
      · exact .inr ⟨.scan home (.inr rfl), fun _ => ⟨decide_eq_false home, anchored_of_leaf rfl⟩⟩
    | values h rows =>
      cases placed
      by_cases logical : h.traits.convention = .logical
      · exact .inl ⟨.values logical, rfl⟩
      · exact .inr ⟨.values logical, fun _ => ⟨rfl, anchored_of_leaf rfl⟩⟩
    | modify h table op input =>
      by_cases supported : table.convention.supports (.modify h table op input) = true
      · rw [place_modify supported] at placed
        obtain ⟨s, placed, made⟩ := bind_eq_ok.1 placed
        obtain ⟨r, ensured, made⟩ := bind_eq_ok.1 made
        have arrives := ih input (.head _) placed
        have kept : (Plan.modify h table op input).Recast table.convention [r] q := recast_outcome rfl made
        have supported' := (kept.supports table.convention).trans supported
        cases withInputs?_of_recast made
        have home : table.convention ≠ .logical := by
          intro logical
          rw [logical] at supported
          cases supported
        refine .inr ⟨.modify rfl supported' ?_ ?_, fun homed => ⟨rfl, anchored_modify ?_⟩⟩
        · exact convention_of_brought (brought_of_ensure ensured)
        · exact seated_ensure home arrives.seated ensured
        · exact anchored_ensure home arrives.seated (arrives.firm (homed.input (.head _))) ensured
      · rw [place, Bool.eq_false_iff.2 supported] at placed
        cases placed
    | converter h source input =>
      obtain ⟨s, placed, ensured⟩ := bind_eq_ok.1 placed
      have arrives := ih input (.head _) placed
      have away : (if h.traits.convention = .logical then target else h.traits.convention) ≠ .logical := by
        split
        next => exact physical
        next away => exact away
      refine .inr ⟨seated_ensure away arrives.seated ensured, fun homed => ⟨?_, ?_⟩⟩
      · have settled : s.isHomeless = false := by
          rcases arrives with ⟨-, same⟩ | ⟨-, firm⟩
          · exact same.trans (homed h source input (mem_nodes_self _))
          · exact (firm (homed.input (.head _))).1
        exact isHomeless_ensure away arrives.seated settled ensured
      · exact anchored_ensure away arrives.seated (arrives.firm (homed.input (.head _))) ensured

theorem place_of_isHomeless (homeless : p.isHomeless = true) :
    planner.place target p = .ok (p.withConvention .logical) := by
  cases p with
  | scan =>
    rw [place, of_decide_eq_true homeless]
    rfl
  | _ => cases homeless

theorem ensure_released (seated : planner.Seated p) : planner.ensure p.convention p.released = .ok p := by
  cases homeless : p.isHomeless with
  | false => rw [released_of_not_isHomeless homeless, ensure_here]
  | true =>
    cases p with
    | scan h table =>
      have afloat : Afloat ((Plan.scan h table).withConvention .logical) := .scan (of_decide_eq_true homeless) rfl
      rw [released, homeless, if_pos rfl, ensure_of_afloat afloat seated.physical]
      rfl
    | _ => cases homeless

/-- An anchored plan that placement left is found where it was left, scans without a home apart. -/
theorem place_of_anchored (seated : planner.Seated p) (anchored : Anchored target p) :
    planner.place target p = .ok p.released := by
  induction seated with
  | @scan h table physical home =>
    rcases home with home | home
    · have homeless : (Plan.scan h table).isHomeless = true := decide_eq_true home
      rw [place_of_isHomeless homeless, released, if_pos homeless]
    · have homed : (Plan.scan h table).isHomeless = false := decide_eq_false (home ▸ physical)
      rw [released_of_not_isHomeless homed, place, home]
      rfl
  | values => rfl
  | @operator p movable physical supported there below ih =>
    have each : p.inputs.mapM (planner.place target) = .ok (p.inputs.map Plan.released) :=
      mapM_eq_ok.2 (List.forall₂_map_right_iff.2 (List.forall₂_same.2 fun q mem =>
        ih q mem (forall_nodes_of_mem anchored mem)))
    have brought : (p.inputs.map Plan.released).mapM (planner.ensure p.convention) = .ok p.inputs :=
      mapM_eq_ok.2 (List.forall₂_map_left_iff.2 (List.forall₂_same.2 fun q mem =>
        there q mem ▸ ensure_released (below q mem)))
    have agreed : ∀ s ∈ p.inputs.map Plan.released, s.convention = .logical ∨ s.convention = p.convention := by
      intro s mem
      obtain ⟨q, inside, rfl⟩ := List.mem_map.1 mem
      exact (convention_released q).imp_right fun same => same.trans (there q inside)
    have present : p.convention = target ∨ ∃ s ∈ p.inputs.map Plan.released, s.convention = p.convention := by
      by_contra neither
      obtain ⟨elsewhere, apart⟩ := not_or.1 neither
      refine anchored p (mem_nodes_self p) ⟨.inr ⟨movable, elsewhere⟩, fun q mem => ?_⟩
      by_contra homed
      refine apart ⟨q.released, List.mem_map_of_mem mem, ?_⟩
      rw [released_of_not_isHomeless (Bool.eq_false_iff.2 homed), there q mem]
    have chosen := choose_of_agreed physical supported agreed present
    rw [place_of_isMovable movable, each, ok_bind, settle, chosen, ok_bind, brought, ok_bind,
      recast_self (isConverter_of_isMovable movable), released_of_not_isHomeless (isHomeless_of_isMovable movable)]
  | @modify h table op input home supported there below ih =>
    have placed := ih (forall_nodes_of_mem anchored (.head _))
    have brought := ensure_released below
    rw [there] at brought
    rw [place_modify supported, placed, ok_bind, brought]
    exact home ▸ recast_self (p := .modify h table op input) rfl
  | @converter c p physical away converts below ih =>
    have homed : p.isHomeless = false := by
      refine Bool.eq_false_iff.2 fun homeless => anchored _ (mem_nodes_self _) ⟨.inl rfl, fun q mem => ?_⟩
      rw [List.mem_singleton.1 mem, homeless]
    have placed := ih (forall_nodes_of_mem anchored (.head _))
    rw [released_of_not_isHomeless homed] at placed
    rw [place_convert physical, placed]
    exact ensure_convert away below.physical converts

theorem place_ne_convert (physical : target ≠ .logical) (seated : planner.Seated p) (away : p.convention ≠ c) :
    planner.place target p ≠ .ok (p.convert c) := by
  intro placed
  cases seated with
  | scan | values => cases placed
  | operator movable =>
    rw [place_of_isMovable movable] at placed
    obtain ⟨inputs, each, settled⟩ := bind_eq_ok.1 placed
    obtain ⟨_, _, _, _, made⟩ := settle_outcome physical movable (mapM_eq_ok.1 each).length_eq.symm settled
    cases made.isMovable.trans movable
  | modify _ supported =>
    rw [place_modify supported] at placed
    obtain ⟨s, -, made⟩ := bind_eq_ok.1 placed
    obtain ⟨r, -, made⟩ := bind_eq_ok.1 made
    cases withInputs?_of_recast made
  | converter present =>
    rw [place_convert present] at placed
    obtain ⟨s, -, ensured⟩ := bind_eq_ok.1 placed
    exact away (convention_of_brought (brought_of_ensure ensured)).symm

theorem eq_of_ensure (physical : p.convention ≠ .logical) (operator : q.isConverter = false)
    (made : planner.ensure c p = .ok q) : q = p := by
  cases brought_of_ensure made with
  | here => rfl
  | chosen logical => exact absurd logical physical
  | converted => cases operator

theorem eq_of_ensure_convert (physical : target ≠ .logical) (seated : planner.Seated p) (away : p.convention ≠ c)
    (placed : planner.place target p = .ok q) (ensured : planner.ensure c q = .ok (p.convert c)) : q = p := by
  generalize made : p.convert c = r at ensured
  cases brought_of_ensure ensured with
  | here => exact absurd (made ▸ placed) (place_ne_convert physical seated away)
  | chosen logical recasted =>
    rcases (arrives_place physical placed).seated with afloat | seated
    · have converter := (recast_outcome rfl recasted).isConverter
      rw [← made] at converter
      cases afloat <;> cases converter
    · exact absurd logical seated.physical
  | converted => exact (Plan.converter.inj made).2.2.symm

/-- What is brought back to where it was after it is placed again is anchored. -/
theorem anchored_of_place (physical : target ≠ .logical) (seated : planner.Seated p)
    (placed : planner.place target p = .ok q) (back : planner.ensure p.convention q = .ok p) :
    Anchored target p := by
  induction seated generalizing q with
  | scan | values => exact anchored_of_leaf rfl
  | @operator p movable _ supported there below ih =>
    rw [place_of_isMovable movable] at placed
    obtain ⟨inputs, each, settled⟩ := bind_eq_ok.1 placed
    have related := mapM_eq_ok.1 each
    obtain ⟨c, inputs', ⟨away, -, found⟩, brought, made⟩ :=
      settle_outcome physical movable related.length_eq.symm settled
    have same : p = q := eq_of_ensure (made.convention ▸ away) (isConverter_of_isMovable movable) back
    subst same
    have returned : List.Forall₂ (fun input r => ∃ s, planner.place target input = .ok s ∧ planner.ensure c s = .ok r)
        p.inputs p.inputs := by
      rw [← made.inputs] at brought
      exact forall₂_trans related brought fun _ s _ placed ensured => ⟨s, placed, ensured⟩
    refine anchored_of_isMovable movable (fun elsewhere => ?_) fun r inside => ?_
    · obtain ⟨s, inside, same⟩ := found.resolve_left (made.convention ▸ elsewhere)
      obtain ⟨input, present, placed⟩ := exists_of_forall₂_right related inside
      refine ⟨input, present, Bool.eq_false_iff.2 fun homeless => ?_⟩
      rw [place_of_isHomeless homeless] at placed
      cases placed
      exact away (same.symm.trans (convention_withConvention input .logical))
    · obtain ⟨s, placed, ensured⟩ := List.forall₂_same.1 returned r inside
      rw [← made.convention, ← there r inside] at ensured
      exact ih r inside placed ensured
  | @modify h table op input home supported there below ih =>
    rw [place_modify supported] at placed
    obtain ⟨s, placed, made⟩ := bind_eq_ok.1 placed
    obtain ⟨r, ensured, made⟩ := bind_eq_ok.1 made
    have kept : (Plan.modify h table op input).Recast table.convention [r] q := recast_outcome rfl made
    have away : q.convention ≠ .logical := by
      rw [kept.convention, ← there]
      exact below.physical
    have same := eq_of_ensure away rfl back
    rw [← same] at kept
    cases kept.inputs
    exact anchored_modify (ih placed (there ▸ ensured))
  | @converter c p away apart converts below ih =>
    rw [place_convert away] at placed
    obtain ⟨s, placed, ensured⟩ := bind_eq_ok.1 placed
    have same : p.convert c = q := by
      have here : q.convention = (p.convert c).convention := convention_of_brought (brought_of_ensure ensured)
      rw [← here, ensure_here] at back
      exact (Except.ok.inj back).symm
    rw [← same] at ensured
    have original : s = p := eq_of_ensure_convert physical below apart placed ensured
    subst original
    refine anchored_convert (Bool.eq_false_iff.2 fun homeless => ?_) (ih placed (ensure_here s)) c
    rw [place_of_isHomeless homeless] at placed
    refine below.physical ?_
    rw [← Except.ok.inj placed, convention_withConvention]

theorem plan_eq_ok (planned : planner.plan target p = .ok q) :
    target ≠ .logical ∧ ∃ s, planner.place target p = .ok s ∧ planner.ensure target s = .ok q := by
  unfold plan at planned
  by_cases logical : target = .logical
  · rw [if_pos logical] at planned
    cases planned
  · rw [if_neg logical] at planned
    obtain ⟨s, placed, ensured⟩ := bind_eq_ok.1 planned
    exact ⟨logical, s, placed, ensured⟩

theorem plan_of_place (physical : target ≠ .logical) (placed : planner.place target p = .ok q) :
    planner.plan target p = planner.ensure target q := by
  rw [plan, if_neg physical, placed]
  rfl

/-- A placed plan is placed as it is, exactly when nothing in it is adrift. That is so when no converter of the plan
that was placed stands right over a scan without a home. -/
theorem plan_idempotent_iff (planned : planner.plan target p = .ok q) :
    (planner.plan target q = .ok q ↔ Anchored target q) ∧ (Homed p → planner.plan target q = .ok q) := by
  obtain ⟨physical, s, placed, ensured⟩ := plan_eq_ok planned
  have arrives := arrives_place physical placed
  have seated := seated_ensure physical arrives.seated ensured
  have here : q.convention = target := convention_of_brought (brought_of_ensure ensured)
  have again (anchored : Anchored target q) : planner.plan target q = .ok q := by
    rw [plan_of_place physical (place_of_anchored seated anchored), ← here]
    exact ensure_released seated
  refine ⟨⟨fun same => ?_, again⟩, fun homed => again ?_⟩
  · obtain ⟨-, s, placed, ensured⟩ := plan_eq_ok same
    exact anchored_of_place physical seated placed (here ▸ ensured)
  · exact anchored_ensure physical arrives.seated (arrives.firm homed) ensured

/-- A table of a query store, literal rows and a table without a home together, joined with a table of a document
store that is behind a boundary already. -/
def scattered : Plan :=
  let row : RowType := ⟨[⟨"id", .integer, false⟩]⟩
  .join (logicalHead ⟨row.fields ++ row.fields⟩) .inner (.lit (.bool true))
    (.setOp (logicalHead row) .union true (ofTable { Table.named "orders" row with convention := .sql "mysql" })
      [.values (logicalHead row) [[.int 1]], ofTable { Table.named "notes" row with convention := .logical }])
    ((ofTable { Table.named "events" row with convention := .document }).convert .pull)

theorem plan_idempotent_iff_scattered : Homed scattered ∧
    ∃ q, default.plan .pull scattered = .ok q ∧ default.plan .pull q = .ok q ∧ Anchored .pull q := by
  have homed : Homed scattered := by
    intro h source input mem
    simp [scattered, nodes, nodesOf, ofTable, convert] at mem
    rw [mem.2.2]
    rfl
  have planned : default.plan .pull scattered = .ok _ := rfl
  obtain ⟨exactly, again⟩ := plan_idempotent_iff planned
  exact ⟨homed, _, planned, again homed, exactly.1 (again homed)⟩

/-- A scan without a home that a converter brought to a query store is read as rows when it is placed again. -/
theorem plan_idempotent_homeless :
    let notes := ofTable { Table.named "notes" ⟨[⟨"id", .integer, false⟩]⟩ with convention := .logical }
    ∃ q q', default.plan .pull (notes.convert (.sql "mysql")) = .ok q ∧ default.plan .pull q = .ok q' ∧ q' ≠ q :=
  ⟨_, _, rfl, rfl, fun same => Plan.noConfusion same⟩

end Planner
end FederatedQuery
