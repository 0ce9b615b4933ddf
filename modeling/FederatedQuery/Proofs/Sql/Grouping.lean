import FederatedQuery.Proofs.Rows.Members
import FederatedQuery.Proofs.Sql.Blocks

/-!
Grouping by columns. The groups are those of the group fields in process, and on each of them the keys and
the aggregate functions have the values of the row that the group gives.
-/
namespace FederatedQuery

namespace Rows

theorem mapM_argument_range (vals : List Value) : (List.range vals.length).mapM (argument vals) = .ok vals := by
  refine mapM_eq_ok.2 (List.forall₂_iff_get.2 ⟨List.length_range, fun i _ inside => ?_⟩)
  rw [List.get_eq_getElem, List.getElem_range, argument, List.getElem?_eq_getElem inside]
  rfl

theorem callState_arguments {call : AggCall} {members inputs : List Row} (name : String)
    (each : List.Forall₂ (fun row vals => call.args.mapM (argument row) = .ok vals) members inputs) :
    callState ⟨call.function, List.range call.args.length, call.distinct, name⟩ inputs = callState call members := by
  rw [callState, callState]
  change inputs.foldlM _ (CallState.start call) = _
  generalize CallState.start call = s
  induction each generalizing s with
  | nil => rfl
  | @cons row vals members inputs here _ ih =>
    have long : call.args.length = vals.length := (mapM_eq_ok.1 here).length_eq
    have step : s.add ⟨call.function, List.range call.args.length, call.distinct, name⟩ vals = s.add call row := by
      rw [CallState.add, CallState.add, here]
      simp only [long, mapM_argument_range]
    rw [List.foldlM_cons, List.foldlM_cons, step]
    cases s.add call row with
    | error => rfl
    | ok s' => exact ih s'

end Rows

namespace Sql

variable {scope : Scope} {params : Bindings} {group : List Nat} {keys : List Term} {row key : Row} {call : AggCall}
  {t : Term} {members : List Row} {calls : List AggCall} {results : List Term}

/-- Terms that are the columns at some places of a source. -/
def AreColumns (scope : Scope) (places : List Nat) (terms : List Term) : Prop :=
  List.Forall₂ (fun i t => ∃ column, scope[i]? = some column ∧ t = .column none column.2) places terms

theorem areColumns_of_mapM (found : group.mapM (fieldTerm (plainColumns scope.names)) = .ok keys) :
    AreColumns scope group keys := by
  refine (mapM_eq_ok.1 found).imp fun i t here => ?_
  rw [fieldTerm] at here
  split at here
  · next located =>
    cases here
    exact getElem?_plainColumns located
  · cases here

theorem answers_columns (distinct : scope.names.Nodup) (columns : AreColumns scope group keys)
    (read : List.Forall₂ (fun i v => row[i]? = some v) group key) : Answers params keys (.ofRow scope row) key := by
  refine forall₂_through columns read fun i _ t v here located => ?_
  obtain ⟨column, there, rfl⟩ := here
  rw [eval_column distinct there, Expr.field_eq_ok, located]

theorem forall₂_keyOf : Rows.keyOf group row = .ok key ↔ List.Forall₂ (fun i v => row[i]? = some v) group key := by
  rw [Rows.keyOf, mapM_eq_ok]
  have same (i : Nat) (v : Value) : Rows.groupKeyOf row i = .ok v ↔ row[i]? = some v := by
    rw [Rows.groupKeyOf]
    split <;> simp_all
  simp only [same]

theorem grouped_of_partition (distinct : scope.names.Nodup) (columns : AreColumns scope group keys)
    (nonempty : group ≠ []) {rows : List Row} {groups : Rows.Waiting Row}
    (success : Rows.partition group rows = .ok groups) :
    grouped scope params keys rows = .ok groups := by
  obtain ⟨found, each, success⟩ := bind_eq_ok.1 success
  have keyed : (rows.mapM fun row => keys.mapM (Term.eval (.ofRow scope row) params)) = .ok found := by
    refine mapM_eq_ok.2 ((mapM_eq_ok.1 each).imp fun row key here => ?_)
    exact mapM_of_answers (answers_columns distinct columns (forall₂_keyOf.1 here))
  have present : keys ≠ [] := by
    rintro rfl
    exact nonempty (List.forall₂_nil_right_iff.1 columns)
  have unshared : (rows.isEmpty && group.isEmpty) = false := by simp [nonempty]
  rw [unshared] at success
  rw [grouped, keyed, ok_bind, if_neg (by simpa using present)]
  exact success

theorem answers_key (distinct : scope.names.Nodup) (columns : AreColumns scope group keys)
    (read : List.Forall₂ (fun i v => row[i]? = some v) group key) (members : List Row) :
    Answers params keys (.ofGroup scope params keys (key, members)) key := by
  refine List.forall₂_iff_get.2 ⟨columns.length_eq.symm.trans read.length_eq, fun j first second => ?_⟩
  have place (k : Nat) {t : Term} (located : keys[k]? = some t) :
      ∃ i, group[k]? = some i ∧ t.position? scope = some i := by
    obtain ⟨i, there, column, found, rfl⟩ := exists_getElem?_of_forall₂ columns.flip located
    exact ⟨i, there, Scope.position?_of_getElem? distinct found⟩
  obtain ⟨i, here, column, found, same⟩ := exists_getElem?_of_forall₂ columns.flip (List.getElem?_eq_getElem first)
  obtain ⟨v, value, read'⟩ := exists_getElem?_of_forall₂ read here
  have wanted : key.get ⟨j, second⟩ = v := by
    rw [List.getElem?_eq_getElem second] at value
    exact Option.some.inj value
  rw [List.get_eq_getElem, same, wanted, Term.eval]
  simp only [Reading.ofGroup, Scope.position?_of_getElem? distinct found]
  -- The column that is found may stand at an earlier place, where the key has the same value.
  cases earliest : keys.findIdx? fun t => t.position? scope == some i with
  | none =>
    have missing := List.findIdx?_eq_none_iff.1 earliest _ (List.getElem_mem first)
    rw [same, Term.position?, Scope.position?_of_getElem? distinct found] at missing
    simp at missing
  | some k =>
    obtain ⟨inside, here', _⟩ := List.findIdx?_eq_some_iff_getElem.1 earliest
    obtain ⟨i', there, position⟩ := place k (List.getElem?_eq_getElem inside)
    rw [position, beq_iff_eq, Option.some.injEq] at here'
    subst here'
    obtain ⟨w, value', read''⟩ := exists_getElem?_of_forall₂ read there
    rw [read'] at read''
    rw [Expr.field_eq_ok, value', read'']

theorem aggregate?_name (f : AggFunction) : aggregate? f.name = some f := by
  cases f <;> rfl

/-- The arguments of an aggregate are columns; counting rows has none. -/
theorem columns_of_aggregateTerm (success : aggregateTerm (plainColumns scope.names) call = .ok t) :
    ∃ args, t = .function call.function.name call.distinct args ∧ AreColumns scope call.args (arguments args) := by
  rw [aggregateTerm] at success
  split at success
  · next counts =>
    cases success
    refine ⟨[.star], rfl, ?_⟩
    rw [List.isEmpty_iff.1 counts.2]
    exact .nil
  · obtain ⟨args, found, success⟩ := bind_eq_ok.1 success
    cases success
    have columns := areColumns_of_mapM found
    have same : arguments args = args := by
      unfold arguments
      split
      · obtain ⟨_, _, ⟨_, _, star⟩, _⟩ := List.forall₂_cons_right_iff.1 columns
        cases star
      · rfl
    exact ⟨args, rfl, same.symm ▸ columns⟩

theorem eval_aggregateTerm (distinct : scope.names.Nodup)
    (success : aggregateTerm (plainColumns scope.names) call = .ok t)
    (full : ∀ row ∈ members, row.length = scope.length) {s : Rows.CallState}
    (folded : Rows.callState call members = .ok s) :
    t.eval (.ofGroup scope params keys (key, members)) params = .ok s.acc.result := by
  obtain ⟨args, rfl, columns⟩ := columns_of_aggregateTerm success
  obtain ⟨inputs, taken⟩ : ∃ inputs, List.Forall₂ (fun row vals =>
      List.Forall₂ (fun i v => row[i]? = some v) call.args vals) members inputs := by
    refine exists_forall₂ fun row mem => exists_forall₂ fun i arg => ?_
    obtain ⟨t, _, column, located, _⟩ := exists_of_forall₂_right columns.flip arg
    have inside : i < row.length := full row mem ▸ (List.getElem?_eq_some_iff.1 located).1
    exact ⟨_, List.getElem?_eq_getElem inside⟩
  have evaluated : members.mapM (fun row => (arguments args).mapM (Term.eval (.ofRow scope row) params)) =
      .ok inputs :=
    mapM_eq_ok.2 (taken.imp fun row vals here => mapM_of_answers (answers_columns distinct columns here))
  have arguments : List.Forall₂ (fun row vals => call.args.mapM (Rows.argument row) = .ok vals) members inputs := by
    refine taken.imp fun row vals here => mapM_eq_ok.2 (here.imp fun i v located => ?_)
    rw [Rows.argument, located]
  rw [Term.eval, aggregate?_name]
  simp only [Reading.ofGroup, evaluated, ok_bind, ← columns.length_eq]
  rw [Rows.callState_arguments _ arguments, folded]
  rfl

/-- On a group, the keys and the aggregates have the values of the row that the group gives. -/
theorem answers_group (distinct : scope.names.Nodup) (columns : AreColumns scope group keys)
    (called : calls.mapM (aggregateTerm (plainColumns scope.names)) = .ok results) {out : Row}
    (full : ∀ row ∈ members, row.length = scope.length) (keyed : Rows.keyOf group row = .ok key)
    (made : Rows.groupRow calls (key, members) = .ok out) :
    Answers params (keys ++ results) (.ofGroup scope params keys (key, members)) out := by
  obtain ⟨states, folded, made⟩ := bind_eq_ok.1 made
  cases made
  refine List.rel_append (answers_key distinct columns (forall₂_keyOf.1 keyed) members) ?_
  rw [List.forall₂_map_right_iff]
  exact forall₂_through (mapM_eq_ok.1 called) (mapM_eq_ok.1 folded)
    fun call _ t s here state => eval_aggregateTerm distinct here full state

variable {db : Database} {base rows : List Row} {b : Block}

theorem Block.Denotes.grouped (denotes : b.Denotes db params scope base rows) (free : b.reaches .groupBy = false)
    {names : List String} {out : List Row}
    (keyed : group.mapM (fieldTerm b.fields) = .ok keys) (called : calls.mapM (aggregateTerm b.fields) = .ok results)
    (nonempty : group ≠ []) (named : names.length = group.length + calls.length)
    (success : Rows.aggregate group calls rows = .ok out) :
    { b with groupBy := keys, fields := keys ++ results, names, clauses := .groupBy :: b.clauses }.Denotes
      db params scope base out := by
  have ungrouped : Clause.groupBy ∉ b.clauses := Block.not_mem_of_reaches free (by decide)
  have unprojected : Clause.projection ∉ b.clauses := Block.not_mem_of_reaches free (by decide)
  have unconditional : Clause.having ∉ b.clauses := Block.not_mem_of_reaches free (by decide)
  rw [denotes.plain ungrouped unprojected] at keyed called
  have columns := areColumns_of_mapM keyed
  have distinct := denotes.distinct
  obtain ⟨passed, full⟩ := denotes.passed ungrouped unprojected
  obtain ⟨groups, shared, made⟩ := Rows.aggregate_eq_ok success
  have present : keys ≠ [] := by
    rintro rfl
    exact nonempty (List.forall₂_nil_right_iff.1 columns)
  have left : { b with groupBy := keys, fields := keys ++ results, names, clauses := .groupBy :: b.clauses }.readings
      scope params base = .ok (groups.map (.ofGroup scope params keys)) := by
    refine bind_eq_ok.2 ⟨rows, passed, bind_eq_ok.2 ⟨groups.map (.ofGroup scope params keys), ?_, ?_⟩⟩
    · rw [Select.units, if_pos (by simpa [Block.toSelect] using present), Block.toSelect,
        grouped_of_partition distinct columns nonempty shared]
      rfl
    · rw [denotes.unconditional unconditional]
      rfl
  exact { denotes with
    unfiltered := fun absent => denotes.unfiltered fun mem => absent (.tail _ mem)
    unconditional := fun _ => denotes.unconditional unconditional
    ungrouped := fun absent => absurd (.head _) absent
    groups := fun _ => present
    plain := fun absent => absurd (.head _) absent
    named := by
      have one := columns.length_eq
      have other := (mapM_eq_ok.1 called).length_eq
      simp only [List.length_append]
      omega
    answers := by
      refine ⟨_, left, ?_⟩
      rw [List.forall₂_map_left_iff]
      obtain ⟨long, made⟩ := List.forall₂_iff_zip.1 made
      refine List.forall₂_iff_zip.2 ⟨long, fun {members out} mem => ?_⟩
      rcases Rows.mem_partition shared (List.of_mem_zip mem).1 with ⟨first, _, _, first', each⟩ | ⟨_, empty, _⟩
      · exact answers_group distinct columns called (fun row inside => full row (each row inside)) first' (made mem)
      · exact absurd empty nonempty }

end Sql

end FederatedQuery
