import FederatedQuery.Proofs.Foreign.Obstacles
import FederatedQuery.Proofs.Sql.Terms

/-!
What a statement is refused for. Operator by operator, what a dialect does not write is a value or a name, but for
the obstacles of the plan; and a plan with an obstacle is never written.
-/
namespace FederatedQuery.Sql

open Plan

variable {d : Dialect} {fields : List Term} {name : String} {p input : Plan} {table : Table}

theorem silent_fieldTerm (index : Nat) : Silent (fieldTerm fields index) := by
  unfold fieldTerm
  split <;> simp

theorem silent_literalTerm (v : Value) : Silent (literalTerm d v) := by
  unfold literalTerm
  split <;> (try split) <;> simp [operatorConstructs]

theorem silent_chainTerm (symbol : String) (args : List Term) : Silent (chainTerm symbol args) := by
  cases args <;> simp [chainTerm]

theorem silent_firstTerm (op : Op) (args : List Term) : Silent (firstTerm op args) := by
  cases args <;> simp [firstTerm]

theorem silent_renamedTerm (standard symbol : String) (args : List Term) :
    Silent (renamedTerm d standard symbol args) := by
  unfold renamedTerm
  dsimp only
  split <;> simp [silent_chainTerm]

/-- Of all calls, only that of an unwind cannot be expressed for what it is. -/
theorem silent_callTerm {op : Op} (plain : op ≠ .unwind) (args : List Term) (ty : SqlType) :
    Silent (callTerm d op args ty) := by
  cases op with
  | eq | ne | lt | le | gt | ge | plus | minus | times | divide => exact silent_chainTerm _ args
  | and | or =>
    unfold callTerm
    dsimp only
    split <;> simp [silent_literalTerm, silent_chainTerm]
  | not | negate | isNull | isNotNull | isTrue | isFalse | cast => exact (silent_firstTerm _ args).map _
  | mod | concat => exact silent_renamedTerm _ _ args
  | upper | lower | charLength | case | coalesce => exact .ok _
  | substring | item | arrayValue =>
    unfold callTerm
    dsimp only
    split <;> (try split) <;> simp [operatorConstructs, arrayError, Op.name]
  | unwind => exact absurd rfl plain

/-- An expression is written unless it expands an array, and then it is refused for that. -/
theorem ends_scalarTerm (fields : List Term) (e : Expr) :
    Ends (fun _ => e.containsUnwind = false) (Error.Blames e.Obstacle) (scalarTerm d fields e) := by
  induction e using Expr.induction with
  | ref index => exact (silent_fieldTerm index).ends fun _ => rfl
  | lit v => exact (silent_literalTerm v).ends fun _ => rfl
  | param => exact rfl
  | call op operands ty ih =>
    rw [scalarTerm, scalarTerms_eq_mapM]
    have written : Ends (fun _ => ∀ e ∈ operands, e.containsUnwind = false)
        (Error.Blames (Expr.call op operands ty).Obstacle) (operands.mapM (scalarTerm d fields)) :=
      Ends.mapM_forall fun e mem => (ih e mem).blame fun _ obstacle =>
        ⟨obstacle.1, Expr.containsUnwind_of_operand mem obstacle.2⟩
    refine written.bind fun args below => ?_
    by_cases unwinds : op = .unwind
    · subst unwinds
      exact Error.blames_unsupported.2 fun _ => ⟨rfl, rfl⟩
    · exact (silent_callTerm unwinds args ty).ends fun _ => Expr.containsUnwind_call.2 ⟨unwinds, below⟩

theorem silent_scalarTerm {e : Expr} (plain : e.containsUnwind = false) : Silent (scalarTerm d fields e) :=
  .of_ends (ends_scalarTerm fields e) fun _ => Expr.not_obstacle plain

theorem silent_scalarTerms {es : List Expr} (plain : ∀ e ∈ es, e.containsUnwind = false) :
    Silent (scalarTerms d fields es) := by
  rw [scalarTerms_eq_mapM]
  exact .mapM fun e mem => silent_scalarTerm (plain e mem)

theorem silent_literalRows (rows : List Row) : Silent (literalRows d rows) :=
  .mapM fun _ _ => .mapM fun v _ => silent_literalTerm v

theorem silent_aggregateTerm (call : AggCall) : Silent (aggregateTerm fields call) := by
  unfold aggregateTerm
  split
  next => exact .ok _
  next => exact .bind_pure (.mapM fun index _ => silent_fieldTerm index)

section Operators

variable {f : Fragment} {next : Nat} {names : List String} {grouped : Bool}

theorem silent_valuesFragment (rowType : RowType) (rows : List Row) : Silent (valuesFragment d rowType rows next) := by
  refine (silent_literalRows rows).bind fun written => ?_
  split <;> (try split) <;> (try split) <;> exact .ok _

theorem silent_conditionFragment {condition : Expr} (plain : condition.containsUnwind = false) :
    Silent (conditionFragment d grouped condition f next) := by
  cases f <;> unfold conditionFragment <;> dsimp only <;> (try split) <;> exact .bind_pure (silent_scalarTerm plain)

theorem silent_programFragment {program : Program} (position : program.unwindPosition = none)
    (condition : ∀ e ∈ program.condition, e.containsUnwind = false)
    (projects : ∀ e ∈ program.projects, e.containsUnwind = false) :
    Silent (programFragment d grouped program names f next) := by
  unfold programFragment
  rw [if_neg (by rw [position]; decide)]
  have projected (made : Fragment × Nat) : Silent (if program.isIdentity then .ok (made.1.renamed names, made.2)
      else projectFragment d program.projects names made.1 made.2) := by
    split
    · exact .ok _
    · exact .bind_pure (silent_scalarTerms projects)
  cases here : program.condition with
  | none => exact projected (f, next)
  | some c => exact (silent_conditionFragment (condition c here)).bind projected

theorem silent_groupFragment (group : List Nat) (calls : List AggCall) :
    Silent (groupFragment group calls names f next) := by
  refine Blaming.bind (.mapM fun index _ => silent_fieldTerm index) fun keys => ?_
  exact .bind_pure (.mapM fun call _ => silent_aggregateTerm call)

theorem silent_aggregateFragment (innerKeys : Option Nat) (group : List Nat) (calls : List AggCall) :
    Silent (aggregateFragment d innerKeys group calls names f next) := by
  unfold aggregateFragment
  split
  next =>
    split
    next => exact .bind_pure (.mapM fun call _ => silent_aggregateTerm call)
    next => exact silent_groupFragment group calls
  next => exact silent_groupFragment group calls

theorem silent_sortFragment (collation : Collation) (offset fetch : Option Nat) :
    Silent (sortFragment d collation offset fetch f next) :=
  Blaming.bind (.mapM fun key _ => .bind_pure (silent_fieldTerm key.field)) fun _ => .ok _

theorem ends_joinFragment (kind : JoinKind) (on : Expr) (left right : Fragment) :
    Ends (fun _ => on.containsUnwind = false) (Error.Blames on.Obstacle)
      (joinFragment d kind on names left right next) := by
  refine (ends_scalarTerm _ on).bind fun condition plain => ?_
  cases kind <;> exact plain

end Operators

theorem ends_fragments {good : Plan → Prop} {bad : Error → Prop} {plans : List Plan}
    (each : ∀ p ∈ plans, ∀ next, Ends (fun _ => good p) bad (fragment d p next)) (next : Nat) :
    Ends (fun _ => ∀ p ∈ plans, good p) bad (fragments d plans next) := by
  induction plans generalizing next with
  | nil => exact nofun
  | cons _ _ ih =>
    rw [List.forall_mem_cons] at each
    refine (each.1 next).bind fun made here => (ih each.2 made.2).bind fun others below => ?_
    exact List.forall_mem_cons.2 ⟨here, below⟩

/-- A query that a dialect supports operator by operator is written unless it has an obstacle, and never refused for
an operator that is not one. -/
theorem ends_fragment (supported : ∀ n ∈ p.nodes, (Convention.sql name).supports n = true)
    (regular : ∀ n ∈ p.nodes, n.Regular) (next : Nat) :
    Ends (fun _ => p.innerObstacles = []) (Error.Blames (· ∈ p.innerObstacles)) (fragment d p next) := by
  revert next
  apply p.induction_nodes
  intro n node ih next
  have below (q : Plan) (mem : q ∈ n.inputs) (next : Nat) :
      Ends (fun _ => q.innerObstacles = []) (Error.Blames (· ∈ n.innerObstacles)) (fragment d q next) :=
    (ih q mem next).blame fun _ inside => mem_innerObstacles.2 (.inr ⟨q, mem, inside⟩)
  have here := supported n node
  cases n with
  | scan => exact rfl
  | values h rows => exact (silent_valuesFragment h.rowType rows).ends fun _ => rfl
  | calculate h program input =>
    have position : program.unwindPosition = none := by
      simpa [Convention.supports, unwinds] using here
    obtain ⟨condition, projects⟩ := (regular _ node).program position
    refine (below input (.head _) next).bind fun made clear => ?_
    exact (silent_programFragment position condition projects).ends fun _ => clear
  | aggregate h group calls input =>
    rw [fragment]
    refine (below input (.head _) next).bind fun made clear => ?_
    exact (silent_aggregateFragment _ group calls).ends fun _ => clear
  | sort h collation offset fetch input =>
    refine (below input (.head _) next).bind fun made clear => ?_
    exact (silent_sortFragment collation offset fetch).ends fun _ => clear
  | join h kind on left right =>
    rw [fragment]
    refine (below left (.head _) next).bind fun first clear => ?_
    refine (below right (.tail _ (.head _)) first.2).bind fun second clear' => ?_
    refine (ends_joinFragment kind on first.1 second.1).mono (fun _ plain => ?_) fun _ blames =>
      blames.mono fun construct obstacle => ?_
    · refine innerObstacles_eq_nil.2 ⟨if_neg (Bool.eq_false_iff.1 plain), ?_⟩
      exact List.forall_mem_cons.2 ⟨clear, List.forall_mem_singleton.2 clear'⟩
    · rw [obstacle.1]
      exact mem_innerObstacles.2 (.inl (if_pos obstacle.2))
  | setOp h op all first rest =>
    refine (below first (.head _) next).bind fun made clear => ?_
    have others := ends_fragments (fun q mem => below q (.tail _ mem)) made.2
    exact others.bind fun _ clear' => innerObstacles_eq_nil.2 ⟨rfl, List.forall_mem_cons.2 ⟨clear, clear'⟩⟩
  | modify => exact Error.blames_unsupported.2 fun _ => mem_innerObstacles.2 (.inl rfl)
  | collect | converter => cases here

/-- The rows to change come straight from a table, where nothing stands in the way. -/
theorem ends_changeCondition {op : String} {P : String → Prop} (named : op ∉ operatorConstructs)
    (regular : input.Regular) :
    Ends (fun condition => input.innerObstacles = [] ∧ ∀ c ∈ condition, c.containsUnwind = false) (Error.Blames P)
      (changeCondition d op table input) := by
  have foreign (reason : String) : (Error.unsupported d.name op reason).Blames P :=
    Error.blames_unsupported.2 fun mem => absurd mem named
  unfold changeCondition
  split
  next scanned =>
    cases input with
    | scan => exact ⟨rfl, nofun⟩
    | _ => cases scanned
  next =>
    cases input with
    | calculate h program inner =>
      dsimp only
      split
      next scanned =>
        cases inner with
        | scan => exact ⟨rfl, regular.1⟩
        | _ => cases (Bool.and_eq_true _ _ ▸ scanned).2
      next => exact foreign _
    | _ => exact foreign _

theorem silent_conditionTerm {condition : Option Expr} (plain : ∀ c ∈ condition, c.containsUnwind = false) :
    Silent (conditionTerm d fields condition) := by
  cases condition with
  | none => exact .ok _
  | some c => exact (silent_scalarTerm (plain c rfl)).map some

theorem ends_assignmentTerm (columns : List String) (assignment : Nat × Expr) :
    Ends (fun _ => assignment.2.containsUnwind = false) (Error.Blames assignment.2.Obstacle)
      (assignmentTerm d columns assignment) := by
  unfold assignmentTerm
  split
  next => exact Error.blames_contract
  next => exact (ends_scalarTerm _ assignment.2).bind fun _ plain => plain

theorem ends_assignments (columns : List String) {targets : List Nat} {sources : List Expr}
    (lengths : targets.length = sources.length) :
    Ends (fun _ => Expr.anyUnwind sources = false)
      (Error.Blames fun construct => construct = "UNWIND" ∧ Expr.anyUnwind sources = true)
      ((targets.zip sources).mapM (assignmentTerm d columns)) := by
  have each : Ends (fun _ => ∀ pair ∈ targets.zip sources, pair.2.containsUnwind = false)
      (Error.Blames fun construct => construct = "UNWIND" ∧ Expr.anyUnwind sources = true)
      ((targets.zip sources).mapM (assignmentTerm d columns)) :=
    Ends.mapM_forall fun pair mem => (ends_assignmentTerm columns pair).blame fun _ obstacle =>
      ⟨obstacle.1, Expr.anyUnwind_of_mem (List.of_mem_zip mem).2 obstacle.2⟩
  refine each.mono (fun _ plain => Expr.anyUnwind_eq_false.2 fun e mem => ?_) fun _ => id
  rw [← List.map_snd_zip lengths.ge] at mem
  obtain ⟨pair, inside, rfl⟩ := List.mem_map.1 mem
  exact plain pair inside

theorem ends_insertSource (supported : ∀ n ∈ input.nodes, (Convention.sql name).supports n = true)
    (regular : ∀ n ∈ input.nodes, n.Regular) :
    Ends (fun _ => input.innerObstacles = []) (Error.Blames (· ∈ input.innerObstacles)) (insertSource d input) := by
  unfold insertSource
  split
  next h row rest => exact ((silent_literalRows _).ends fun _ => rfl).bind fun _ clear => clear
  next => exact (ends_fragment supported regular 0).bind fun _ clear => clear

theorem ends_modification {h : Head} {op : ModifyOp}
    (supported : ∀ n ∈ (modify h table op input).nodes, (Convention.sql name).supports n = true)
    (regular : ∀ n ∈ (modify h table op input).nodes, n.Regular) :
    Ends (fun _ => (modify h table op input).obstacles = []) (Error.Blames (· ∈ (modify h table op input).obstacles))
      (modification d table op input) := by
  have mem : input ∈ (modify h table op input).inputs := .head _
  have below := forall_nodes_of_mem regular mem
  cases op with
  | insert =>
    have source := ends_insertSource (d := d) (forall_nodes_of_mem supported mem) below
    refine (source.blame fun _ inside => mem_obstacles.2 (.inr ⟨input, mem, inside⟩)).bind fun _ clear => ?_
    exact obstacles_eq_nil.2 ⟨rfl, List.forall_mem_singleton.2 clear⟩
  | update targets sources =>
    refine (ends_changeCondition (by decide) (below input (mem_nodes_self input))).bind fun condition read => ?_
    have assigned := ends_assignments (d := d) (tableColumns table) (regular _ (mem_nodes_self _))
    refine (assigned.blame fun construct obstacle => ?_).bind fun _ plain => ?_
    · rw [obstacle.1]
      exact mem_obstacles.2 (.inl (if_pos obstacle.2))
    · have clear : (modify h table (.update targets sources) input).obstacles = [] :=
        obstacles_eq_nil.2 ⟨if_neg (Bool.eq_false_iff.1 plain), List.forall_mem_singleton.2 read.1⟩
      exact ((silent_conditionTerm read.2).ends fun _ => clear).bind fun _ clear => clear
  | delete =>
    refine (ends_changeCondition (by decide) (below input (mem_nodes_self input))).bind fun condition read => ?_
    have clear : (modify h table .delete input).obstacles = [] :=
      obstacles_eq_nil.2 ⟨rfl, List.forall_mem_singleton.2 read.1⟩
    exact ((silent_conditionTerm read.2).ends fun _ => clear).bind fun _ clear => clear

/-- A plan that a dialect supports operator by operator has a statement unless it has an obstacle, and is never
refused for an operator that is not one. -/
theorem ends_statement (supported : ∀ n ∈ p.nodes, (Convention.sql name).supports n = true)
    (regular : ∀ n ∈ p.nodes, n.Regular) :
    Ends (fun _ => p.obstacles = []) (Error.Blames (· ∈ p.obstacles)) (statement d p) := by
  have query (same : p.rootObstacle? = p.obstacle?) : Ends (fun _ => p.obstacles = [])
      (Error.Blames (· ∈ p.obstacles)) (do return Statement.query (← fragment d p 0).1.toQuery) :=
    ((ends_fragment supported regular 0).mono (fun _ => (obstacles_eq_nil_of_query same).2) fun _ blames =>
      blames.mono fun _ => (mem_obstacles_of_query same).2).bind fun _ clear => clear
  cases p with
  | modify => exact ends_modification supported regular
  | _ => exact query rfl

theorem ends_emit (dialects : List Dialect) (supported : ∀ n ∈ p.nodes, (Convention.sql name).supports n = true)
    (regular : ∀ n ∈ p.nodes, n.Regular) :
    Ends (fun _ => p.obstacles = []) (Error.Blames (· ∈ p.obstacles)) (emit dialects p) := by
  have found : Silent (planDialect dialects p) := by
    unfold planDialect findDialect
    split <;> (try split) <;> simp [operatorConstructs]
  refine (found.ends fun _ => trivial).bind fun d _ => ?_
  exact (ends_statement supported regular).bind fun _ clear => clear

end FederatedQuery.Sql
