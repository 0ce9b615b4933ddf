import FederatedQuery.Plan.Placement
import FederatedQuery.Proofs.Plan.Feed
import FederatedQuery.Proofs.Program.Normalize

/-!
What stands in the way of an artifact. A statement or a pipeline expresses every operator that its convention can
run, but a change of a table only at its root, and an array that is expanded only where a projection makes rows of
it. Everything else that emission reports is about values and names.
-/
namespace FederatedQuery

/-- The construct that has no form in a target, when that is what failed. -/
def Error.construct? : Error → Option String
  | unsupported _ construct _ => some construct
  | _ => none

/-- The operators of a plan that not every store has, and the one that expands an array. -/
def operatorConstructs : List String :=
  ["Modify", "ModifyCollect", "Converter", "Join", "Union", "Intersect", "Minus", "UNWIND"]

/-- An error that names an operator only where it is one of some. -/
def Error.Blames (blamed : String → Prop) (e : Error) : Prop :=
  ∀ construct ∈ operatorConstructs, e.construct? = some construct → blamed construct

namespace Error

variable {P Q : String → Prop} {e : Error} {target construct reason : String}

theorem Blames.mono (blames : e.Blames P) (more : ∀ construct, P construct → Q construct) : e.Blames Q :=
  fun construct mem names => more construct (blames construct mem names)

theorem blames_of_none (other : e.construct? = none) : e.Blames P := by
  intro construct _ names
  rw [other] at names
  cases names

@[simp]
theorem blames_unsupported :
    (unsupported target construct reason).Blames P ↔ (construct ∈ operatorConstructs → P construct) := by
  refine ⟨fun blames mem => blames construct mem rfl, fun blamed named mem names => ?_⟩
  cases names
  exact blamed mem

@[simp]
theorem blames_contract {breach : Breach} : (contract breach).Blames P := blames_of_none rfl

@[simp]
theorem blames_eval {fault : Fault} : (eval fault).Blames P := blames_of_none rfl

end Error

theorem Ends.blame {α : Type} {good : α → Prop} {P Q : String → Prop} {x : Except Error α}
    (ends : Ends good (Error.Blames P) x) (more : ∀ construct, P construct → Q construct) :
    Ends good (Error.Blames Q) x :=
  ends.mono (fun _ => id) fun _ blames => blames.mono more

/-- A computation that fails, as far as operators go, only for some of them. -/
def Blaming {α : Type} (P : String → Prop) (x : Except Error α) : Prop := Ends (fun _ => True) (Error.Blames P) x

namespace Blaming

variable {α β : Type} {P Q : String → Prop} {x : Except Error α} {f : α → Except Error β}

@[simp]
theorem ok (a : α) : Blaming P (.ok a) := trivial

@[simp]
theorem error_iff {e : Error} : Blaming P (.error e : Except Error α) ↔ e.Blames P := Iff.rfl

@[simp]
theorem map_iff {f : α → β} : Blaming P (f <$> x) ↔ Blaming P x := by
  cases x <;> rfl

theorem bind (first : Blaming P x) (next : ∀ a, Blaming P (f a)) : Blaming P (x >>= f) :=
  Ends.bind first fun a _ => next a

theorem bind_pure {f : α → β} (first : Blaming P x) : Blaming P (x >>= fun a => pure (f a)) := first.bind fun _ => .ok _

theorem map (blaming : Blaming P x) (f : α → β) : Blaming P (x.map f) := Ends.map blaming fun _ _ => trivial

theorem mapM {xs : List α} (each : ∀ a ∈ xs, Blaming P (f a)) : Blaming P (xs.mapM f) :=
  (Ends.mapM each).mono (fun _ _ => trivial) fun _ => id

theorem mono (blaming : Blaming P x) (more : ∀ construct, P construct → Q construct) : Blaming Q x :=
  Ends.blame blaming more

end Blaming

/-- A computation that names no operator when it fails. -/
abbrev Silent {α : Type} (x : Except Error α) : Prop := Blaming (fun _ => False) x

namespace Silent

variable {α : Type} {good : α → Prop} {P : String → Prop} {x : Except Error α}

theorem blaming (silent : Silent x) : Blaming P x := silent.mono fun _ never => never.elim

theorem ends (silent : Silent x) (all : ∀ a, good a) : Ends good (Error.Blames P) x :=
  Ends.mono silent.blaming (fun a _ => all a) fun _ => id

theorem of_ends (ends : Ends good (Error.Blames P) x) (absent : ∀ construct, ¬P construct) : Silent x :=
  ends.mono (fun _ _ => trivial) fun _ blames => blames.mono absent

end Silent

namespace Expr

variable {op : Op} {es : List Expr} {ty : SqlType} {e : Expr}

theorem containsUnwind_call :
    (call op es ty).containsUnwind = false ↔ op ≠ .unwind ∧ ∀ e ∈ es, e.containsUnwind = false := by
  rw [containsUnwind, Bool.or_eq_false_iff, decide_eq_false_iff_not, anyUnwind_eq_false]

theorem containsUnwind_eq_false : e.containsUnwind = false ↔ e.Everywhere Plain := by
  refine ⟨everywhere_plain, fun plain => ?_⟩
  induction e using induction with
  | call op operands ty ih =>
    obtain ⟨here, below⟩ := everywhere_call.1 plain
    exact containsUnwind_call.2 ⟨plain_call.1 here, fun e mem => ih e mem (below e mem)⟩
  | _ => rfl

theorem anyUnwind_of_mem (mem : e ∈ es) (unwinds : e.containsUnwind = true) : anyUnwind es = true := by
  by_contra without
  rw [anyUnwind_eq_false.1 (Bool.eq_false_iff.2 without) e mem] at unwinds
  cases unwinds

theorem containsUnwind_of_operand (mem : e ∈ es) (unwinds : e.containsUnwind = true) :
    (call op es ty).containsUnwind = true := by
  rw [containsUnwind, anyUnwind_of_mem mem unwinds, Bool.or_true]

theorem containsUnwind_of_conjunct {c : Expr} (without : e.containsUnwind = false) (mem : c ∈ e.conjuncts) :
    c.containsUnwind = false :=
  containsUnwind_eq_false.2 (everywhere_conjuncts (containsUnwind_eq_false.1 without) c mem)

/-- What an expression may be refused for: the expansion of an array. -/
def Obstacle (e : Expr) (construct : String) : Prop := construct = "UNWIND" ∧ e.containsUnwind = true

theorem not_obstacle {construct : String} (plain : e.containsUnwind = false) : ¬e.Obstacle construct :=
  fun obstacle => Bool.eq_false_iff.1 plain obstacle.2

end Expr

namespace Plan

/-- What no artifact expresses at an operator below its root. -/
def obstacle? : Plan → Option String
  | modify .. => some "Modify"
  | join _ _ on _ _ => if on.containsUnwind then some "UNWIND" else none
  | _ => none

/-- What no artifact expresses at its root. -/
def rootObstacle? : Plan → Option String
  | modify _ _ (.update _ sources) _ => if Expr.anyUnwind sources then some "UNWIND" else none
  | modify .. => none
  | p => p.obstacle?

/-- What a plan has that no artifact expresses below its root. -/
def innerObstacles (p : Plan) : List String := p.nodes.filterMap obstacle?

/-- What a plan has that no artifact expresses. -/
def obstacles (p : Plan) : List String := p.rootObstacle?.toList ++ p.inputs.flatMap innerObstacles

/-- What the checks on a plan leave to be expressed: only a projection expands an array, and an update assigns to as
many columns as it has values. -/
def Regular : Plan → Prop
  | calculate _ program _ => (∀ e ∈ program.condition, e.containsUnwind = false) ∧
      ∀ e ∈ program.projects, e.containsUnwind = true → Program.isUnwind e = true
  | modify _ _ (.update columns sources) _ => columns.length = sources.length
  | _ => True

variable {p q : Plan} {construct : String}

theorem mem_innerObstacles : construct ∈ p.innerObstacles ↔
    p.obstacle? = some construct ∨ ∃ q ∈ p.inputs, construct ∈ q.innerObstacles := by
  simp only [innerObstacles, List.mem_filterMap]
  constructor
  · rintro ⟨n, mem, here⟩
    rcases mem_nodes.1 mem with rfl | ⟨q, input, inside⟩
    · exact .inl here
    · exact .inr ⟨q, input, n, inside, here⟩
  · rintro (here | ⟨q, input, n, inside, here⟩)
    · exact ⟨p, mem_nodes_self p, here⟩
    · exact ⟨n, mem_nodes.2 (.inr ⟨q, input, inside⟩), here⟩

theorem innerObstacles_eq_nil : p.innerObstacles = [] ↔
    p.obstacle? = none ∧ ∀ q ∈ p.inputs, q.innerObstacles = [] := by
  simp only [innerObstacles, List.filterMap_eq_nil_iff]
  constructor
  · exact fun all => ⟨all p (mem_nodes_self p), fun q mem => forall_nodes_of_mem all mem⟩
  · rintro ⟨here, below⟩ n mem
    rcases mem_nodes.1 mem with rfl | ⟨q, input, inside⟩
    · exact here
    · exact below q input n inside

theorem rootObstacle?_ne_modify (p : Plan) : p.rootObstacle? ≠ some "Modify" := by
  cases p with
  | join =>
    simp only [rootObstacle?, obstacle?]
    split <;> simp
  | modify _ _ op _ =>
    cases op with
    | update =>
      rw [rootObstacle?]
      split <;> simp
    | _ => simp [rootObstacle?]
  | _ => simp [rootObstacle?, obstacle?]

theorem mem_obstacles : construct ∈ p.obstacles ↔
    p.rootObstacle? = some construct ∨ ∃ q ∈ p.inputs, construct ∈ q.innerObstacles := by
  rw [obstacles, List.mem_append, List.mem_flatMap, Option.mem_toList]

theorem obstacles_eq_nil : p.obstacles = [] ↔ p.rootObstacle? = none ∧ ∀ q ∈ p.inputs, q.innerObstacles = [] := by
  rw [obstacles, List.append_eq_nil_iff, Option.toList_eq_nil_iff, List.flatMap_eq_nil_iff]

/-- An operator that is not a change has the same obstacle at the root and below it. -/
theorem mem_obstacles_of_query (same : p.rootObstacle? = p.obstacle?) :
    construct ∈ p.obstacles ↔ construct ∈ p.innerObstacles := by
  rw [mem_obstacles, same, mem_innerObstacles]

theorem obstacles_eq_nil_of_query (same : p.rootObstacle? = p.obstacle?) :
    p.obstacles = [] ↔ p.innerObstacles = [] := by
  rw [obstacles_eq_nil, same, innerObstacles_eq_nil]

theorem Regular.program {h : Head} {program : Program} {input : Plan} (regular : Regular (.calculate h program input))
    (position : program.unwindPosition = none) :
    (∀ e ∈ program.condition, e.containsUnwind = false) ∧ ∀ e ∈ program.projects, e.containsUnwind = false := by
  refine ⟨regular.1, fun e mem => ?_⟩
  by_contra unwinds
  have whole := regular.2 e mem (Bool.eq_true_of_not_eq_false unwinds)
  rw [Program.unwindPosition, List.findIdx?_eq_none_iff] at position
  rw [position e mem] at whole
  cases whole

end Plan

end FederatedQuery
