import FederatedQuery.Proofs.Document.Codec
import FederatedQuery.Proofs.Foreign.Obstacles

/-!
What a pipeline or a write is refused for. Operator by operator, what has no form as a document is a value or a name,
but for the obstacles of the plan; and a plan that changes a table below its root has no artifact.
-/
namespace FederatedQuery

namespace Document

theorem silent_ofValue (v : Value) : Silent (ofValue v) := by
  induction v using Value.induction with
  | scalar v simple =>
    cases v with
    | float =>
      unfold ofValue
      split <;> simp
    | array => exact absurd rfl simple
    | _ => exact .ok _
  | array items ih =>
    rw [ofValue, ofValues_eq_mapM]
    exact .bind_pure (.mapM ih)

end Document

/-- The text of a call of an aggregate is no operator's name: it has a parenthesis. -/
theorem AggCall.text_not_mem (c : AggCall) : c.text ∉ operatorConstructs := by
  have without : ∀ name ∈ operatorConstructs, '(' ∉ name.toList := by decide
  refine fun mem => without c.text mem ?_
  simp [AggCall.text]

namespace Pipeline

open Plan

variable {P : String → Prop} {names : List String} {table : Table} {input : Plan} {e : Expr} {p : Plan} {h : Head}
  {op : ModifyOp}

theorem silent_fieldName (index : Nat) : Silent (fieldName names index) := by
  unfold fieldName
  split <;> simp

theorem silent_conversionTarget (ty : SqlType) : Silent (conversionTarget ty) := by
  unfold conversionTarget
  split <;> simp [unsupported, operatorConstructs]

theorem blaming_position {document : Except Error Document} (blaming : Blaming P document) (operand : Expr) :
    Blaming P (position operand document) := by
  unfold position
  split <;> simp [blaming]

theorem blaming_callDocument {op : Op} (plain : op ≠ .unwind) {documents : List (Except Error Document)}
    (each : ∀ document ∈ documents, Blaming P document) (operands : List Expr) (ty : SqlType) :
    Blaming P (callDocument op operands documents ty) := by
  have all : Blaming P (documents.mapM id) := .mapM each
  cases op with
  | eq | ne | lt | le | gt | ge =>
    unfold callDocument
    dsimp only
    split <;> simp [all]
  | and | or | plus | minus | times | divide | mod | concat | case | coalesce | arrayValue => exact .bind_pure all
  | not | isNull | isNotNull | isTrue | isFalse | negate | upper | lower | charLength =>
    cases documents with
    | nil => exact Error.blames_contract
    | cons first rest => exact .bind_pure (each first (.head _))
  | cast =>
    cases documents with
    | nil => exact Error.blames_contract
    | cons first rest =>
      refine (each first (.head _)).bind fun _ => ?_
      exact .bind_pure (silent_conversionTarget ty).blaming
  | substring =>
    cases documents with
    | nil => exact Error.blames_contract
    | cons first rest =>
      refine (each first (.head _)).bind fun text => ?_
      split
      next start _ _ second more same =>
        cases same
        rw [List.forall_mem_cons, List.forall_mem_cons] at each
        refine (blaming_position each.2.1 start).bind fun _ => Blaming.bind ?_ fun _ => .ok _
        cases more with
        | nil => exact .ok _
        | cons length _ => exact each.2.2 length (.head _)
      next => exact Error.blames_contract
  | item =>
    cases documents with
    | nil => exact Error.blames_contract
    | cons first rest =>
      refine (each first (.head _)).bind fun items => ?_
      split
      next index _ _ second _ same =>
        cases same
        rw [List.forall_mem_cons, List.forall_mem_cons] at each
        exact .bind_pure (blaming_position each.2.1 index)
      next => exact Error.blames_contract
  | unwind => exact absurd rfl plain

theorem exprDocuments_eq_map (es : List Expr) : exprDocuments names es = es.map (exprDocument names) := by
  induction es with
  | nil => rfl
  | cons _ _ ih => rw [exprDocuments, ih, List.map_cons]

/-- An expression is refused only for the expansion of an array in it. A comparison with null leaves its operands out,
so that not every expression that expands an array is refused. -/
theorem blaming_exprDocument (names : List String) (e : Expr) : Blaming e.Obstacle (exprDocument names e) := by
  induction e using Expr.induction with
  | ref index => exact .bind_pure (silent_fieldName index).blaming
  | lit v =>
    rw [exprDocument]
    exact .bind_pure (Document.silent_ofValue v).blaming
  | param => exact .ok _
  | call op operands ty ih =>
    rw [exprDocument, exprDocuments_eq_map]
    by_cases unwinds : op = .unwind
    · subst unwinds
      exact Error.blames_unsupported.2 fun _ => ⟨rfl, rfl⟩
    · refine blaming_callDocument unwinds (List.forall_mem_map.2 fun e mem => ?_) operands ty
      exact (ih e mem).mono fun _ obstacle => ⟨obstacle.1, Expr.containsUnwind_of_operand mem obstacle.2⟩

theorem silent_exprDocument (plain : e.containsUnwind = false) : Silent (exprDocument names e) :=
  .of_ends (blaming_exprDocument names e) fun _ => Expr.not_obstacle plain

theorem silent_document (c : Constant) : Silent c.document := by
  cases c with
  | value v => exact Document.silent_ofValue v
  | param => exact .ok _

theorem silent_conjunctDocument (plain : e.containsUnwind = false) : Silent (conjunctDocument names e) := by
  unfold conjunctDocument
  split
  next => exact .bind_pure (silent_fieldName _)
  next => exact .bind_pure (silent_fieldName _)
  next =>
    split
    next c _ => exact (silent_document c).bind fun _ => .bind_pure (silent_fieldName _)
    next => exact .bind_pure (silent_exprDocument plain)

theorem silent_filterDocument {condition : Expr} (plain : condition.containsUnwind = false) :
    Silent (filterDocument names condition) := by
  have each : ∀ c ∈ condition.conjuncts, Silent (conjunctDocument names c) :=
    fun c mem => silent_conjunctDocument (Expr.containsUnwind_of_conjunct plain mem)
  refine (Blaming.mapM each).bind fun clauses => ?_
  split <;> exact .ok _

theorem silent_rowDocument (row : Row) : Silent (rowDocument names row) :=
  .bind_pure (.mapM fun pair _ => .bind_pure (Document.silent_ofValue pair.2))

theorem silent_programStages {program : Program} (position : program.unwindPosition = none)
    (condition : ∀ e ∈ program.condition, e.containsUnwind = false)
    (projects : ∀ e ∈ program.projects, e.containsUnwind = false) : Silent (programStages program names) := by
  unfold programStages
  rw [if_neg (by rw [position]; decide)]
  have projected (matching : List Stage) :
      Silent (if program.isIdentity && (program.output.names.zip names).all fun pair => pair.1 = pair.2 then
          .ok matching
        else do
          let fields ← (program.projects.zip program.output.names).mapM fun pair => do
            return (pair.2, ← exprDocument names pair.1)
          return matching ++ [.project (hideId (Entries.ofPairs fields))]) := by
    split
    · exact .ok _
    · refine .bind_pure (.mapM fun pair mem => .bind_pure ?_)
      exact silent_exprDocument (projects pair.1 (List.of_mem_zip mem).1)
  cases here : program.condition with
  | none => exact projected []
  | some c => exact ((silent_filterDocument (condition c here)).map _).bind projected

theorem silent_accumulator (call : AggCall) (args : List Document) : Silent (accumulator call args) := by
  unfold accumulator
  split <;> split <;> simp [unsupported, call.text_not_mem]

theorem silent_aggregateStages (group : List Nat) (calls : List AggCall) (output : List String) :
    Silent (aggregateStages group calls names output) := by
  refine Blaming.bind (.mapM fun pair _ => .bind_pure (silent_fieldName pair.1)) fun keys => ?_
  refine Blaming.bind (.mapM fun pair _ => ?_) fun accumulators => .ok _
  refine Blaming.bind (.mapM fun arg _ => .bind_pure (silent_fieldName arg)) fun args => ?_
  exact .bind_pure (silent_accumulator pair.1 args)

theorem silent_sortStages (collation : Collation) (offset fetch : Option Nat) :
    Silent (sortStages collation offset fetch names) :=
  Blaming.bind (.mapM fun key _ => .bind_pure (silent_fieldName key.field)) fun _ => .ok _

/-- A query that a pipeline supports operator by operator has one unless it has an obstacle, and is never refused for
an operator that is not one. -/
theorem ends_chain (supported : ∀ n ∈ p.nodes, Convention.document.supports n = true)
    (regular : ∀ n ∈ p.nodes, n.Regular) :
    Ends (fun _ => p.innerObstacles = []) (Error.Blames (· ∈ p.innerObstacles)) (chain p) := by
  apply p.induction_nodes
  intro n node ih
  have below (q : Plan) (mem : q ∈ n.inputs) :
      Ends (fun _ => q.innerObstacles = []) (Error.Blames (· ∈ n.innerObstacles)) (chain q) :=
    (ih q mem).blame fun _ inside => mem_innerObstacles.2 (.inr ⟨q, mem, inside⟩)
  have here := supported n node
  cases n with
  | scan => exact rfl
  | values => exact Silent.ends (.bind_pure (.mapM fun row _ => silent_rowDocument row)) fun _ => rfl
  | calculate h program input =>
    have position : program.unwindPosition = none := by
      simpa [Convention.supports, unwinds] using here
    obtain ⟨condition, projects⟩ := (regular _ node).program position
    rw [chain]
    refine (below input (.head _)).bind fun _ clear => ?_
    exact Silent.ends (.bind_pure (silent_programStages position condition projects)) fun _ => clear
  | aggregate h group calls input =>
    refine (below input (.head _)).bind fun _ clear => ?_
    exact Silent.ends (.bind_pure (silent_aggregateStages group calls _)) fun _ => clear
  | sort h collation offset fetch input =>
    rw [chain]
    refine (below input (.head _)).bind fun _ clear => ?_
    exact Silent.ends (.bind_pure (silent_sortStages collation offset fetch)) fun _ => clear
  | modify => exact Error.blames_unsupported.2 fun _ => mem_innerObstacles.2 (.inl rfl)
  | join | setOp | collect | converter => cases here

theorem silent_templateField (row : Row) (e : Expr) : Silent (templateField row e) := by
  unfold templateField
  split <;> (try split) <;> simp [Document.silent_ofValue, unsupported, operatorConstructs]

theorem ends_insertDocuments (names : List String) (input : Plan) :
    Ends (fun _ => input.innerObstacles = []) (Error.Blames P) (insertDocuments names input) := by
  unfold insertDocuments
  split
  next h rows => exact Silent.ends (.mapM fun row _ => silent_rowDocument row) fun _ => rfl
  next row =>
    split
    next =>
      refine Silent.ends (.bind_pure (.mapM fun pair _ => ?_)) fun _ => rfl
      exact .bind_pure (silent_templateField row pair.2)
    next => exact Error.blames_unsupported.2 fun mem => absurd mem (by decide)
  next => exact Error.blames_unsupported.2 fun mem => absurd mem (by decide)

theorem ends_targetCondition {statement : String} (named : statement ∉ operatorConstructs) (regular : input.Regular) :
    Ends (fun condition => input.innerObstacles = [] ∧ ∀ c ∈ condition, c.containsUnwind = false) (Error.Blames P)
      (targetCondition statement table input) := by
  have foreign (reason : String) : (unsupported statement reason).Blames P :=
    Error.blames_unsupported.2 fun mem => absurd mem named
  unfold targetCondition
  split
  next h program inner =>
    split
    next read =>
      cases inner with
      | scan => exact ⟨rfl, regular.1⟩
      | _ => cases (Bool.and_eq_true _ _ ▸ read).2
    next => exact foreign _
  next =>
    split
    next read =>
      cases input with
      | scan => exact ⟨rfl, nofun⟩
      | _ => cases read
    next => exact foreign _

theorem silent_conditionDocument {condition : Option Expr} (plain : ∀ c ∈ condition, c.containsUnwind = false) :
    Silent (conditionDocument names condition) := by
  cases condition with
  | none => exact .ok _
  | some c => exact silent_filterDocument (plain c rfl)

theorem silent_assignedName (column : Nat) : Silent (assignedName names column) := by
  unfold assignedName
  split <;> simp

theorem blaming_updateDocument (names : List String) (columns : List Nat) (sources : List Expr) :
    Blaming (fun construct => construct = "UNWIND" ∧ Expr.anyUnwind sources = true)
      (updateDocument names columns sources) := by
  unfold updateDocument
  split
  next constants _ =>
    refine .bind_pure (.mapM fun pair _ => (silent_assignedName pair.1).blaming.bind fun _ => ?_)
    exact .bind_pure (silent_document pair.2).blaming
  next =>
    refine .bind_pure (.mapM fun pair mem => (silent_assignedName pair.1).blaming.bind fun _ => ?_)
    refine .bind_pure ((blaming_exprDocument names pair.2).mono fun _ obstacle => ?_)
    exact ⟨obstacle.1, Expr.anyUnwind_of_mem (List.of_mem_zip mem).2 obstacle.2⟩

theorem ends_writeOf (regular : input.Regular) :
    Ends (fun _ => input.innerObstacles = []) (Error.Blames (· ∈ (modify h table op input).obstacles))
      (writeOf table op input) := by
  cases op with
  | insert => exact (ends_insertDocuments _ input).bind fun _ clear => clear
  | update columns sources =>
    refine (ends_targetCondition (by decide) regular).bind fun condition read => ?_
    have assigned := blaming_updateDocument (storedNames table) columns sources
    refine Ends.bind (assigned.mono fun construct obstacle => ?_) fun _ _ => ?_
    · rw [obstacle.1]
      exact mem_obstacles.2 (.inl (if_pos obstacle.2))
    · exact ((silent_conditionDocument read.2).ends fun _ => read.1).bind fun _ clear => clear
  | delete =>
    refine (ends_targetCondition (by decide) regular).bind fun condition read => ?_
    exact ((silent_conditionDocument read.2).ends fun _ => read.1).bind fun _ clear => clear

theorem silent_checkConvention (p : Plan) : Silent (checkConvention p) := by
  unfold checkConvention
  split <;> simp

theorem ends_emitQuery (supported : ∀ n ∈ p.nodes, Convention.document.supports n = true)
    (regular : ∀ n ∈ p.nodes, n.Regular) :
    Ends (fun _ => p.innerObstacles = []) (Error.Blames (· ∈ p.innerObstacles)) (emitQuery p) := by
  refine Ends.bind (silent_checkConvention p).blaming fun _ _ => ?_
  exact (ends_chain supported regular).bind fun _ clear => clear

theorem ends_emitWrite (regular : input.Regular) :
    Ends (fun _ => input.innerObstacles = []) (Error.Blames (· ∈ (modify h table op input).obstacles))
      (emitWrite (modify h table op input)) := by
  refine Ends.bind (silent_checkConvention _).blaming fun _ _ => ?_
  exact (ends_writeOf regular).bind fun _ clear => clear

end Pipeline

end FederatedQuery
