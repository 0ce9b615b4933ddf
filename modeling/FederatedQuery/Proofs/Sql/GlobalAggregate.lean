import FederatedQuery.Proofs.Sql.Translation

/-!
Programs over an aggregate without keys. The conditions and projections go into the block of the aggregate,
which has no keys to name. Where a block without keys is about one group exactly because it calls an
aggregate, what the block gives depends on whether the program still refers to one.
-/
namespace FederatedQuery.Sql

open Foreign

namespace Select

/-- Whether the terms of the block or its condition on groups call an aggregate. -/
def callsAggregate (s : Select) : Bool :=
  (s.projection.any fun (t, _) => t.containsAggregate) || Term.optionAggregate s.having

/-- Whether a block has keys or calls an aggregate. Without keys, all rows form one group exactly where an aggregate
is called. -/
def groupsByCalls (s : Select) : Bool := !s.groupBy.isEmpty || s.callsAggregate

end Select

/-- The meaning of a query in which calls decide what a block without keys is about. -/
def Query.meaningByCalls (db : Database) (params : Bindings) (q : Query) : Except Error Relation :=
  q.meaningBy Select.groupsByCalls db params

/-- The select of some terms, under a condition on groups, over a table without keys. -/
def wholeSelect (table : Table) (fields : List Term) (names : List String) (having : Option Term) : Select :=
  { Select.empty with
    projection := List.zipWith Block.selected fields names
    source := some (.table table.path none)
    having }

variable {d : Dialect} {params : Bindings} {scope : Scope} {table : Table} {calls : List AggCall} {program : Program}
  {results fields : List Term} {having : Option Term} {names : List String} {rows : List Row}

section Statement

theorem scalarTerms_refs {es : List Expr} {index : Nat} (refs : Program.areRefsFrom index es = true)
    (whole : index + es.length = fields.length) : scalarTerms d fields es = .ok (fields.drop index) := by
  rw [scalarTerms_eq_mapM]
  exact Rows.mapM_refs (fun _ _ _ _ found => by rw [scalarTerm, fieldTerm, found]) refs whole

variable {b : Block}

theorem Block.toQuery_of_groupBy (grouped : .groupBy ∈ b.clauses) :
    b.toQuery = .select (b.toSelect (List.zipWith selected b.fields b.names)) := by
  rw [toQuery, if_neg (by simp [selectsAll, grouped])]
  rfl

/-- The columns of a program, renamed or projected, are written over the fields of a grouped block. -/
theorem toQuery_columns (next : Nat) (grouped : .groupBy ∈ b.clauses) (free : b.reaches .projection = false)
    (arity : b.fields.length = program.input.arity) :
    (if program.isIdentity then pure ((Fragment.block b).renamed names, next)
      else projectFragment d program.projects names (.block b) next).map (·.1.toQuery) =
    (scalarTerms d b.fields program.projects).map fun fields =>
      .select (b.toSelect (List.zipWith Block.selected fields names)) := by
  split
  · next identity =>
    rw [Program.isIdentity, Bool.and_eq_true, decide_eq_true_eq] at identity
    rw [scalarTerms_refs identity.2 (by omega)]
    exact congrArg Except.ok (Block.toQuery_of_groupBy grouped)
  · rw [projectFragment, Fragment.readyFor, free, if_neg Bool.false_ne_true]
    cases translated : scalarTerms d b.fields program.projects with
    | error =>
      simp only [translated]
      rfl
    | ok fields =>
      have still : .groupBy ∈ Clause.projection :: b.clauses := .tail _ grouped
      simp only [translated]
      exact congrArg Except.ok
        (Block.toQuery_of_groupBy (b := { b with fields, names, clauses := .projection :: b.clauses }) still)

theorem toQuery_programFragment (d : Dialect) (names : List String) (next : Nat)
    (clauses : b.clauses = [.groupBy, .source]) (unconditional : b.having = none)
    (arity : b.fields.length = program.input.arity) (whole : program.unwindPosition = none) :
    (programFragment d true program names (.block b) next).map (·.1.toQuery) = (do
      let having ← conditionTerm d b.fields program.condition
      let fields ← scalarTerms d b.fields program.projects
      return .select ({ b with having }.toSelect (List.zipWith Block.selected fields names))) := by
  have grouped : .groupBy ∈ b.clauses := by simp [clauses]
  rw [programFragment, whole]
  cases condition : program.condition with
  | none =>
    refine (toQuery_columns next grouped (by rw [Block.reaches, clauses]; rfl) arity).trans ?_
    rw [conditionTerm, ← unconditional]
    cases scalarTerms d b.fields program.projects <;> rfl
  | some c =>
    have last : (true && b.endsBy .groupBy) = true := by
      rw [Block.endsBy, clauses]
      rfl
    simp only [conditionFragment, if_pos last, conditionTerm]
    cases scalarTerm d b.fields c with
    | error => rfl
    | ok t =>
      refine (toQuery_columns (b := { b with having := some t, clauses := .having :: b.clauses }) next
        (.tail _ grouped) (by rw [clauses]; rfl) arity).trans ?_
      cases scalarTerms d b.fields program.projects <;> rfl

/-- The aggregates of a table without keys. -/
def wholeBlock (table : Table) (results : List Term) (names : List String) : Block :=
  { scanned table with fields := results, names, clauses := [.groupBy, .source] }

theorem fragment_whole (h h' : Head) (next : Nat) : fragment d (.aggregate h [] calls (.scan h' table)) next =
    (calls.mapM (aggregateTerm (plainColumns (tableColumns table)))).map fun results =>
      (.block (wholeBlock table results h.rowType.names), next) := by
  -- A table has no clause that grouping would have to wait for.
  change (do
    let results ← calls.mapM (aggregateTerm (plainColumns (tableColumns table)))
    pure _) = _
  cases calls.mapM (aggregateTerm (plainColumns (tableColumns table))) <;> rfl

theorem toQuery_whole (h h' h'' : Head) (next : Nat) (whole : program.unwindPosition = none)
    (arity : program.input.arity = calls.length) :
    (fragment d (.calculate h program (.aggregate h' [] calls (.scan h'' table))) next).map (·.1.toQuery) = (do
      let results ← calls.mapM (aggregateTerm (plainColumns (tableColumns table)))
      let having ← conditionTerm d results program.condition
      let fields ← scalarTerms d results program.projects
      return .select (wholeSelect table fields h.rowType.names having)) := by
  rw [fragment, fragment_whole]
  cases called : calls.mapM (aggregateTerm (plainColumns (tableColumns table))) with
  | error => rfl
  | ok =>
    have long := (mapM_eq_ok.1 called).length_eq
    exact toQuery_programFragment d h.rowType.names next rfl rfl (long.symm.trans arity.symm) whole

/-- The statement of a program over an aggregate without keys, in the terms of its parts. -/
theorem statement_whole (d : Dialect) (h h' h'' : Head) {s : Statement} (whole : program.unwindPosition = none)
    (arity : program.input.arity = calls.length) :
    statement d (.calculate h program (.aggregate h' [] calls (.scan h'' table))) = .ok s ↔
      ∃ results having fields, calls.mapM (aggregateTerm (plainColumns (tableColumns table))) = .ok results ∧
        conditionTerm d results program.condition = .ok having ∧
        scalarTerms d results program.projects = .ok fields ∧
        s = .query (.select (wholeSelect table fields h.rowType.names having)) := by
  have stated : statement d (.calculate h program (.aggregate h' [] calls (.scan h'' table))) =
      ((fragment d (.calculate h program (.aggregate h' [] calls (.scan h'' table))) 0).map (·.1.toQuery)).map
        .query := by
    rw [statement]
    · cases fragment d _ 0 <;> rfl
    · simp
  rw [stated, toQuery_whole h h' h'' 0 whole arity, map_eq_ok]
  constructor
  · rintro ⟨q, written, rfl⟩
    obtain ⟨results, called, written⟩ := bind_eq_ok.1 written
    obtain ⟨having, conditioned, written⟩ := bind_eq_ok.1 written
    obtain ⟨fields, projected, written⟩ := bind_eq_ok.1 written
    cases written
    exact ⟨results, having, fields, called, conditioned, projected, rfl⟩
  · rintro ⟨results, having, fields, called, conditioned, projected, rfl⟩
    exact ⟨_, bind_eq_ok.2 ⟨results, called, bind_eq_ok.2 ⟨having, conditioned, bind_eq_ok.2 ⟨fields, projected, rfl⟩⟩⟩,
      rfl⟩

end Statement

section Meaning

variable {r : Reading} {units : List Reading} {given : Row} {out : List Row}

/-- On a reading, the results that expressions refer to have the values of a row. -/
def Serves (params : Bindings) (results : List Term) (given : Row) (es : List Expr) (r : Reading) : Prop :=
  ∀ e ∈ es, ∀ i ∈ e.refs, ∀ t v, results[i]? = some t → given[i]? = some v → t.eval r params = .ok v

theorem satisfying_whole (standard : ∀ e ∈ program.condition.toList, e.Everywhere Expr.StandardCall)
    (conditioned : conditionTerm d results program.condition = .ok having)
    (serves : ∀ r ∈ units, Serves params results given program.condition.toList r) {passes : Bool}
    (accepted : program.accepts given params = .ok passes) :
    satisfying (fun t r => t.test r params) having units = .ok (if passes then units else []) := by
  rw [Program.accepts] at accepted
  cases condition : program.condition with
  | none =>
    rw [condition] at conditioned accepted
    cases conditioned
    cases accepted
    rfl
  | some c =>
    simp only [condition, Option.toList_some] at conditioned accepted standard serves
    obtain ⟨t, translated, rfl⟩ := map_eq_ok.1 conditioned
    have only := List.mem_singleton_self c
    have tested (r : Reading) (mem : r ∈ units) : t.test r params = .ok passes :=
      test_of_agrees (agrees_of_refs (serves r mem c only) (standard c only) translated) accepted
    exact passing_const tested

theorem row_whole (standard : ∀ e ∈ program.projects, e.Everywhere Expr.StandardCall)
    (projected : scalarTerms d results program.projects = .ok fields) (named : names.length = fields.length)
    (columns : names ≠ []) (serves : Serves params results given program.projects r) {made : Row}
    (evaluated : program.projectRow given params = .ok made) :
    (wholeSelect table fields names having).row params r = .ok made := by
  have answers : Answers params fields r made :=
    forall₂_through (scalarTerms_eq_ok.1 projected) (Expr.evalAll_eq_ok.1 evaluated)
      fun e mem t v here value => agrees_of_refs (serves e mem) (standard e mem) here v value
  rw [Answers, ← Block.map_fst_selected named, List.forall₂_map_left_iff] at answers
  have projection := Block.selected_ne_nil named columns
  rw [Select.row, if_neg (by simpa [wholeSelect] using projection)]
  exact mapM_eq_ok.2 answers

theorem containsAggregate_aggregateTerm {columns : List Term} {call : AggCall} {t : Term}
    (success : aggregateTerm columns call = .ok t) : t.containsAggregate = true := by
  have named : Term.isAggregateName call.function.name = true := by cases call.function <;> rfl
  rw [aggregateTerm] at success
  split at success
  all_goals
    obtain ⟨args, _, success⟩ := bind_eq_ok.1 success
    cases success
    rw [Term.containsAggregate, named, Bool.true_or]

theorem forall₂_conditionTerm {condition : Option Expr} (conditioned : conditionTerm d results condition = .ok having) :
    List.Forall₂ (fun e t => scalarTerm d results e = .ok t) condition.toList having.toList := by
  cases condition with
  | none =>
    cases conditioned
    exact .nil
  | some =>
    obtain ⟨t, translated, rfl⟩ := map_eq_ok.1 conditioned
    exact .cons translated .nil

theorem grouped_nil (rows : List Row) : grouped scope params [] rows = .ok [([], rows)] := by
  have keyed : (rows.mapM fun row => [].mapM (Term.eval (.ofRow scope row) params)) = .ok (rows.map fun _ => []) := by
    rw [mapM_eq_ok, List.forall₂_map_right_iff, List.forall₂_same]
    exact fun _ _ => rfl
  rw [grouped, keyed]
  rfl

section Terms

variable (standard : ∀ e ∈ program.projects ++ program.condition.toList, e.Everywhere Expr.StandardCall)
  (conditioned : conditionTerm d results program.condition = .ok having)
  (projected : scalarTerms d results program.projects = .ok fields) (named : names.length = fields.length)

include standard conditioned projected named

/-- The block gives what the program makes of the row, once for each reading. -/
theorem relation_whole (columns : names ≠ []) (whole : program.unwindPosition = none)
    (arity : given.length = program.input.arity)
    (formed : (wholeSelect table fields names having).units Select.groupsByCalls scope params rows = .ok units)
    (serves : ∀ r ∈ units, Serves params results given (program.projects ++ program.condition.toList) r)
    (made : Rows.runRow program params given = .ok out) :
    (wholeSelect table fields names having).relation Select.groupsByCalls scope params rows =
      .ok ⟨names, (List.replicate units.length out).flatten⟩ := by
  obtain ⟨projects, conditions⟩ := List.forall_mem_append.1 standard
  have kept {passes : Bool} (accepted : program.accepts given params = .ok passes) :=
    satisfying_whole conditions conditioned
      (fun r mem e inside => serves r mem e (List.mem_append_right _ inside)) accepted
  have projection := Block.selected_ne_nil named columns
  have titles : (wholeSelect table fields names having).columns scope = names := by
    rw [Select.columns, if_neg (by simpa [wholeSelect] using projection)]
    exact Block.map_columnName_selected named
  have left : (wholeSelect table fields names having).readings Select.groupsByCalls scope params rows =
      satisfying (fun t r => t.test r params) having units := by
    change ((wholeSelect table fields names having).units _ _ _ _ >>= _) = _
    rw [formed]
    rfl
  rw [Select.relation, if_neg (by simp [wholeSelect, Select.empty]), left, titles]
  rcases (Rows.runRow_eq_ok arity).1 made with ⟨refused, rfl⟩ | ⟨accepted, row, evaluated, spread⟩
  · rw [kept refused, List.flatten_replicate_nil]
    rfl
  · rw [whole] at spread
    cases spread
    have each : units.mapM ((wholeSelect table fields names having).row params) =
        .ok (List.replicate units.length row) := by
      rw [← List.map_const', mapM_eq_ok, List.forall₂_map_right_iff, List.forall₂_same]
      exact fun r mem => row_whole projects projected named columns
        (fun e inside => serves r mem e (List.mem_append_left _ inside)) evaluated
    rw [kept accepted, List.flatten_replicate_singleton, if_pos rfl, ok_bind, each]
    rfl

theorem callsAggregate_whole {columns : List Term} (called : calls.mapM (aggregateTerm columns) = .ok results) :
    (wholeSelect table fields names having).callsAggregate =
      !(Expr.refsOf (program.projects ++ program.condition.toList)).isEmpty := by
  have uniform : ∀ t ∈ results, t.containsAggregate = true := by
    intro t mem
    obtain ⟨call, _, here⟩ := exists_of_forall₂_right (mapM_eq_ok.1 called) mem
    exact containsAggregate_aggregateTerm here
  have terms := List.rel_append (scalarTerms_eq_ok.1 projected) (forall₂_conditionTerm conditioned)
  obtain ⟨long, terms⟩ := List.forall₂_iff_zip.1 terms
  have contained := any_containsAggregate (List.forall₂_iff_zip.2 ⟨long, fun mem =>
    containsAggregate_scalarTerm uniform (standard _ (List.of_mem_zip mem).1) (terms mem)⟩)
  rw [Bool.true_and, List.any_append, ← Block.map_fst_selected named, List.any_map] at contained
  rw [← contained]
  cases having with
  | none => rfl
  | some => rw [Option.toList_some, List.any_cons, List.any_nil, Bool.or_false]; rfl

/-- The block is about one group where the program refers to an aggregate, and about every row where it does not.
In both cases its readings serve the program. -/
theorem exists_units (distinct : scope.names.Nodup) (full : ∀ row ∈ rows, row.length = scope.length)
    (called : calls.mapM (aggregateTerm (plainColumns scope.names)) = .ok results)
    (made : Rows.groupRow calls ([], rows) = .ok given) :
    ∃ units, (wholeSelect table fields names having).units Select.groupsByCalls scope params rows = .ok units ∧
      units.length = (if Expr.refsOf (program.projects ++ program.condition.toList) = [] then rows.length else 1) ∧
      ∀ r ∈ units, Serves params results given (program.projects ++ program.condition.toList) r := by
  rw [Select.units, Select.groupsByCalls, callsAggregate_whole standard conditioned projected named called]
  by_cases constant : Expr.refsOf (program.projects ++ program.condition.toList) = []
  · refine ⟨rows.map (.ofRow scope), by simp [constant, wholeSelect, Select.empty], by simp [constant], ?_⟩
    -- No value of an aggregate is asked for, so that any row will do in the place of the group.
    intro r _ e mem i ref
    have referred := Expr.mem_refsOf.2 ⟨e, mem, ref⟩
    rw [constant] at referred
    cases referred
  · refine ⟨[.ofGroup scope params [] ([], rows)], ?_, by simp [constant], ?_⟩
    · rw [if_pos (by simp [constant])]
      change (grouped scope params [] rows).map _ = _
      rw [grouped_nil]
      rfl
    · intro r mem e _ i _ t v result value
      cases List.mem_singleton.1 mem
      have keyed : Rows.keyOf [] ([] : Row) = .ok [] := rfl
      have answers : Answers params results (.ofGroup scope params [] ([], rows)) given :=
        answers_group distinct .nil called full keyed made
      exact (forall₂_getElem? answers result value :)

end Terms

theorem flatten_replicate_eq_self {count : Nat} : (List.replicate count out).flatten = out ↔ out = [] ∨ count = 1 := by
  constructor
  · intro same
    have long := congrArg List.length same
    rw [List.length_flatten, List.map_replicate, List.sum_replicate_nat] at long
    rcases Nat.eq_zero_or_pos out.length with zero | positive
    · exact .inl (List.eq_nil_of_length_eq_zero zero)
    · exact .inr (Nat.eq_of_mul_eq_mul_right positive (long.trans (Nat.one_mul _).symm))
  · rintro (rfl | rfl)
    · exact List.flatten_replicate_nil
    · exact List.append_nil out

theorem exists_given_of_execute {σ : Type} {c : Compiler σ} {ctx : Context} {w after : World σ} {h h' h'' : Head}
    (success : { c with simplify := false }.execute
      (Plan.calculate h program (.aggregate h' [] calls (.scan h'' table))).pulled ctx w = (.ok out, after)) :
    ∃ given, Rows.groupRow calls ([], w.store.rows table.name) = .ok given ∧
      Rows.runRow program ctx.params given = .ok out := by
  have query : ∀ n ∈ (Plan.calculate h program (.aggregate h' [] calls (.scan h'' table))).pulled.nodes,
      n.isQuery = true :=
    List.forall_mem_cons.2 ⟨rfl, List.forall_mem_cons.2 ⟨rfl, List.forall_mem_singleton.2 rfl⟩⟩
  obtain ⟨cursor, compiled⟩ := Compiler.exists_compile_of_execute success
  rw [Compiler.execute_of_compile query compiled, Prod.mk.injEq] at success
  obtain ⟨source, made, found, each, rfl⟩ := Feed.result_expand_eq_ok.1 success.1
  change (Feed.ofResult ((Feed.ofRows (w.store.rows table.name)).result >>= Rows.aggregate [] calls)).result = _
    at found
  rw [Feed.result_ofResult, Feed.result_ofRows] at found
  obtain ⟨groups, shared, rows⟩ := Rows.aggregate_eq_ok found
  rw [Rows.partition_nil] at shared
  cases shared
  obtain ⟨given, _, row, last, rfl⟩ := List.forall₂_cons_left_iff.1 rows
  cases last
  obtain ⟨out, _, ran, last, rfl⟩ := List.forall₂_cons_left_iff.1 each
  cases last
  exact ⟨given, row, by rw [List.flatten_singleton]; exact ran⟩

end Meaning

theorem unwindPosition_eq_none (standard : ∀ e ∈ program.projects, e.Everywhere Expr.StandardCall) :
    program.unwindPosition = none := by
  refine List.findIdx?_eq_none_iff.2 fun e mem => ?_
  have here := (standard e mem).here
  cases e with
  | call =>
    rw [Program.isUnwind, decide_eq_false_iff_not]
    rintro ⟨⟩
    cases here
  | _ => rfl

variable {h h' h'' : Head}

theorem exists_terms (made : (Plan.aggregate h [] calls (.scan h' table)).Constructed)
    (scanned : (Plan.scan h' table).Constructed) (arity : program.input.arity = calls.length)
    (refs : ∀ e ∈ program.projects ++ program.condition.toList, ∀ i ∈ e.refs, i < program.input.arity)
    (standard : ∀ e ∈ program.projects ++ program.condition.toList, e.Everywhere Expr.StandardCall)
    (spelled : ∀ e ∈ program.projects ++ program.condition.toList, e.Everywhere (Expr.Spelled d)) :
    ∃ results having fields, calls.mapM (aggregateTerm (plainColumns (tableColumns table))) = .ok results ∧
      conditionTerm d results program.condition = .ok having ∧
      scalarTerms d results program.projects = .ok fields := by
  obtain ⟨_, callFields, _, called, _⟩ := made.aggregate
  have wide : (plainColumns (tableColumns table)).length = h'.rowType.arity := by
    rw [plainColumns, List.length_map, length_tableColumns, scanned.scan]
  have inside (call : AggCall) (mem : call ∈ calls) :
      ∀ i ∈ call.args, i < (plainColumns (tableColumns table)).length := by
    obtain ⟨field, _, found⟩ := exists_of_forall₂_right (mapM_eq_ok.1 called).flip mem
    rw [wide]
    exact Plan.args_of_callField found
  obtain ⟨results, each⟩ := exists_forall₂ fun call mem => exists_aggregateTerm (inside call mem)
  have term (e : Expr) (mem : e ∈ program.projects ++ program.condition.toList) : ∃ t, scalarTerm d results e = .ok t :=
    exists_scalarTerm (fun i ref => each.length_eq ▸ arity ▸ refs e mem i ref) (standard e mem) (spelled e mem)
  obtain ⟨fields, projected⟩ := exists_forall₂ fun e mem => term e (List.mem_append_left _ mem)
  obtain ⟨having, conditioned⟩ : ∃ having, conditionTerm d results program.condition = .ok having := by
    cases condition : program.condition with
    | none => exact ⟨none, rfl⟩
    | some c =>
      obtain ⟨t, translated⟩ := term c (List.mem_append_right _ (by simp [condition]))
      exact ⟨some t, by rw [conditionTerm, translated]; rfl⟩
  exact ⟨results, having, fields, mapM_eq_ok.2 each, conditioned, scalarTerms_eq_ok.2 projected⟩

/-- A program over an aggregate without keys, where the calls of a block decide whether it is about one group. The
statement gives what runs in process once where the program refers to an aggregate, and otherwise once for each row
of the table; so it is right exactly where the program refers to an aggregate, gives no row, or the table has one
row. There is a statement unless a literal cannot be written. -/
theorem meaning_statement_global {σ : Type} (c : Compiler σ) (d : Dialect) (db : Database) (ctx : Context)
    (w : World σ) (h h' h'' : Head) (program : Program) (calls : List AggCall) (table : Table) (p : Plan)
    (shape : p = .calculate h program (.aggregate h' [] calls (.scan h'' table)))
    (made : ∀ n ∈ p.nodes, n.Constructed) (held : db.Holds w.store table) (columns : h.rowType.names ≠ [])
    (standard : ∀ e ∈ program.projects ++ program.condition.toList, e.Everywhere Expr.StandardCall) :
    ((∀ e ∈ program.projects ++ program.condition.toList, e.Everywhere (Expr.Spelled d)) →
      ∃ s, statement d p = .ok s) ∧
    ∀ s out after, statement d p = .ok s → { c with simplify := false }.execute p.pulled ctx w = (.ok out, after) →
      ∃ q found, s = .query q ∧ q.meaningByCalls db ctx.params = .ok ⟨h.rowType.names, found⟩ ∧
        found = (List.replicate (if Expr.refsOf (program.projects ++ program.condition.toList) = []
          then (w.store.rows table.name).length else 1) out).flatten ∧
        (found = out ↔ Expr.refsOf (program.projects ++ program.condition.toList) ≠ [] ∨ out = [] ∨
          (w.store.rows table.name).length = 1) := by
  subst shape
  have calculated := made _ (Plan.mem_nodes_self _)
  have below := Plan.forall_nodes_of_mem made (List.mem_singleton_self _)
  have aggregated := below _ (Plan.mem_nodes_self _)
  have scanned := Plan.forall_nodes_of_mem below (List.mem_singleton_self _) _ (Plan.mem_nodes_self _)
  obtain ⟨same, inner, checked⟩ := calculated.calculate
  have arity : program.input.arity = calls.length := by
    rw [inner, Plan.rowType, Plan.head, aggregated.arity_aggregate, List.length_nil, Nat.zero_add]
  have whole := unwindPosition_eq_none (List.forall_mem_append.1 standard).1
  constructor
  · intro spelled
    obtain ⟨results, having, fields, called, conditioned, projected⟩ :=
      exists_terms aggregated scanned arity checked.refs standard spelled
    exact ⟨_, (statement_whole d h h' h'' whole arity).2 ⟨results, having, fields, called, conditioned, projected, rfl⟩⟩
  · intro s out after stated success
    obtain ⟨results, having, fields, called, conditioned, projected, rfl⟩ :=
      (statement_whole d h h' h'' whole arity).1 stated
    obtain ⟨given, row, ran⟩ := exists_given_of_execute success
    obtain ⟨scope, denotes⟩ := @denotes_scanned _ ctx.params _ _ held
    have plain : plainColumns (tableColumns table) = plainColumns scope.names :=
      denotes.plain (by simp [Sql.scanned, Block.ofSource]) (by simp [Sql.scanned, Block.ofSource])
    rw [plain] at called
    have named : h.rowType.names.length = fields.length := by
      rw [same, RowType.length_names, ← (scalarTerms_eq_ok.1 projected).length_eq]
      exact checked.output.length_eq.symm
    have long : given.length = program.input.arity := by
      obtain ⟨states, folded, row⟩ := bind_eq_ok.1 row
      cases row
      rw [List.nil_append, List.length_map, ← (mapM_eq_ok.1 folded).length_eq, arity]
    obtain ⟨units, formed, count, serves⟩ :=
      exists_units standard conditioned projected named denotes.distinct denotes.full called row
    have relation := relation_whole standard conditioned projected named columns whole long formed serves ran
    rw [count] at relation
    refine ⟨_, _, rfl, ?_, rfl, ?_⟩
    · have source : (Source.table table.path none).meaningBy Select.groupsByCalls db ctx.params =
          .ok (scope, w.store.rows table.name) := denotes.source
      rw [Query.meaningByCalls, ← relation, Query.meaningBy, wholeSelect, Select.meaningBy, sourceMeaningBy, source]
      rfl
    · rw [flatten_replicate_eq_self]
      by_cases constant : Expr.refsOf (program.projects ++ program.condition.toList) = []
      · simp [constant]
      · simp [constant]

/-- A constant over the count of two rows: one row in process, and two from the statement. -/
theorem meaning_statement_global_constant :
    let rowType : RowType := ⟨[⟨"x", .integer, false⟩]⟩
    let counts : RowType := ⟨[⟨"n", .bigInt, false⟩]⟩
    let ones : RowType := ⟨[⟨"one", .bigInt, false⟩]⟩
    let table : Table := { Table.named "t" rowType with stored := true }
    let scan := Plan.ofTable table
    let counted := Plan.aggregate ⟨counts, .logical⟩ [] [⟨.count, [], false, "n"⟩] scan
    let p := Plan.calculate ⟨ones, .logical⟩ ⟨counts, [.lit (.int 1)], none, ones⟩ counted
    let stored : List Row := [[.int 5], [.int 7]]
    let db : Database := fun path => if path = ["t"] then some ⟨["x"], stored⟩ else none
    let w : World Unit := ⟨[("t", stored)], [], 0, ()⟩
    let c : Compiler Unit := .ofOptions .default
    let ctx : Context := ⟨fun _ => none, none⟩
    { c with simplify := false }.execute p.pulled ctx w = (.ok [[.int 1]], w) ∧
      ∃ q, statement .ansi p = .ok (.query q) ∧
        q.meaningByCalls db ctx.params = .ok ⟨["one"], [[.int 1], [.int 1]]⟩ := by
  intro rowType counts ones table scan counted p stored db w c ctx
  have held : db.Holds w.store table := by
    refine ⟨rfl, by decide, rfl, ?_⟩
    have found : w.store.rows table.name = stored := rfl
    rw [found]
    decide
  have made : ∀ n ∈ p.nodes, n.Constructed :=
    List.forall_mem_cons.2 ⟨⟨p, rfl, rfl⟩, List.forall_mem_cons.2 ⟨⟨counted, rfl, rfl⟩,
      List.forall_mem_singleton.2 ⟨scan, rfl, rfl⟩⟩⟩
  have query : ∀ n ∈ p.pulled.nodes, n.isQuery = true :=
    List.forall_mem_cons.2 ⟨rfl, List.forall_mem_cons.2 ⟨rfl, List.forall_mem_singleton.2 rfl⟩⟩
  have success : { c with simplify := false }.execute p.pulled ctx w = (.ok [[.int 1]], w) := by
    rw [Compiler.execute_of_compile query rfl]
    rfl
  obtain ⟨written, means⟩ := meaning_statement_global c .ansi db ctx w ⟨ones, .logical⟩ ⟨counts, .logical⟩ scan.head
    ⟨counts, [.lit (.int 1)], none, ones⟩ [⟨.count, [], false, "n"⟩] table p rfl made held (by decide)
    (by simp [Expr.StandardCall])
  obtain ⟨s, stated⟩ := written (by simp [Expr.Spelled])
  obtain ⟨q, found, rfl, meaning, rfl, _⟩ := means s _ w stated success
  exact ⟨success, q, stated, meaning⟩

end FederatedQuery.Sql
