import FederatedQuery.Plan.Build
import FederatedQuery.Proofs.Plan.Feed

/-!
The rows of a query fit its row type. A row has one value for each field; and where the references of
the programs are marked as the fields they read, a field that is never null is not null.
-/
namespace FederatedQuery

/-- A value may stand in a field; when the test is strict, a null only in a field that is nullable. -/
def Value.Suits (strict nullable : Bool) (v : Value) : Prop := strict = true → nullable = false → v.isNull = false

namespace RowType

def nullability (t : RowType) : List Bool := t.fields.map Field.nullable

/-- A row has one value for each field; when the test is strict, a field that is never null is not null. -/
def Fits (strict : Bool) (t : RowType) (row : Row) : Prop := List.Forall₂ (Value.Suits strict) t.nullability row

variable {strict : Bool} {t u : RowType} {row : Row}

theorem length_names (t : RowType) : t.names.length = t.arity := List.length_map _

theorem length_nullability (t : RowType) : t.nullability.length = t.arity := List.length_map _

theorem Fits.length_eq (fits : t.Fits strict row) : row.length = t.arity :=
  (List.Forall₂.length_eq fits).symm.trans t.length_nullability

theorem fits_of_length (long : row.length = t.arity) : t.Fits false row := by
  rw [Fits, List.forall₂_iff_zip]
  exact ⟨t.length_nullability.trans long.symm, fun _ exactly => Bool.noConfusion exactly⟩

theorem Fits.present (fits : t.Fits true row) {index : Nat} {f : Field} {v : Value}
    (declared : t.fields[index]? = some f) (never : f.nullable = false) (located : row[index]? = some v) :
    v.isNull = false := by
  have nullable : t.nullability[index]? = some false := by
    rw [nullability, List.getElem?_map, declared, Option.map_some, never]
  exact forall₂_getElem? fits nullable located rfl rfl

theorem nullability_freshFields (taken : List String) (fields : List Field) :
    (freshFields taken fields).map Field.nullable = fields.map Field.nullable := by
  induction fields generalizing taken with
  | nil => rfl
  | cons _ _ ih => simp only [freshFields, List.map_cons, ih]

theorem nullability_join (left right : RowType) (leftNullable rightNullable : Bool) :
    (left.join right leftNullable rightNullable).nullability =
      left.nullability.map (· || leftNullable) ++ right.nullability.map (· || rightNullable) := by
  simp only [nullability, join, List.map_append, nullability_freshFields, List.map_map]
  rfl

theorem fits_widen {nullable : Bool} {flags : List Bool} (fits : List.Forall₂ (Value.Suits strict) flags row) :
    List.Forall₂ (Value.Suits strict) (flags.map (· || nullable)) row := by
  rw [List.forall₂_map_left_iff]
  exact fits.imp fun _ _ here exact never => here exact (Bool.or_eq_false_iff.1 never).1

theorem fits_nulls (flags : List Bool) :
    List.Forall₂ (Value.Suits strict) (flags.map (· || true)) (Rows.nulls flags.length) := by
  induction flags with
  | nil => exact .nil
  | cons nullable flags ih =>
    exact .cons (fun _ never => Bool.noConfusion ((Bool.or_true nullable).symm.trans never)) ih

theorem fits_joined {kind : JoinKind} {on : Expr} {params : Bindings} {left right : List Row}
    (first : ∀ l ∈ left, t.Fits strict l) (second : ∀ r ∈ right, u.Fits strict r)
    (joined : Rows.Joined kind on t.arity u.arity params left right row) :
    (if kind.leftOnly then t else t.join u kind.padsLeft kind.padsRight).Fits strict row := by
  have both (l r : Row) (two : kind.leftOnly = false)
      (one : List.Forall₂ (Value.Suits strict) (t.nullability.map (· || kind.padsLeft)) l)
      (other : List.Forall₂ (Value.Suits strict) (u.nullability.map (· || kind.padsRight)) r) :
      (if kind.leftOnly then t else t.join u kind.padsLeft kind.padsRight).Fits strict (l ++ r) := by
    rw [two, if_neg Bool.false_ne_true, Fits, nullability_join]
    exact List.rel_append one other
  cases joined with
  | pair two mem mem' => exact both _ _ two (fits_widen (first _ mem)) (fits_widen (second _ mem'))
  | padded pads mem =>
    have two : kind.leftOnly = false := by
      cases kind <;> first | rfl | cases pads
    refine both _ _ two (fits_widen (first _ mem)) ?_
    rw [pads, ← u.length_nullability]
    exact fits_nulls _
  | orphan pads mem =>
    have two : kind.leftOnly = false := by
      cases kind <;> first | rfl | cases pads
    refine both _ _ two ?_ (fits_widen (second _ mem))
    rw [pads, ← t.length_nullability]
    exact fits_nulls _
  | kept one mem =>
    rw [if_pos one]
    exact first _ mem

end RowType

namespace Plan

/-- The operator as it is built from its parts. -/
def rebuild : Plan → Except Error Plan
  | scan _ table => .ok (ofTable table)
  | values h rows => ofRows h.rowType rows
  | calculate _ program input => do
    input.run (← Program.new program.input (program.projects.zip program.output.names) program.condition)
  | aggregate _ keys calls input => input.group keys calls
  | join _ kind on left right => left.joinOn right kind on
  | setOp _ op all first rest => setOperation op all (first :: rest)
  | sort _ collation offset fetch input => input.sortBy collation offset fetch
  | modify _ table op input => modifyTable table op input
  | collect _ all first rest => collectCounts all (first :: rest)
  | converter h _ input => .ok (input.convert h.traits.convention)

/-- An operator that was built and then, at most, given other traits. -/
def Constructed (p : Plan) : Prop := ∃ built, p.rebuild = .ok built ∧ p = built.withTraits p.traits

end Plan

variable {e : Expr} {condition : Option Expr} {input : RowType} {p program : Program} {projects : List (Expr × String)}
  {row : Row} {strict : Bool}

theorem Expr.refs_of_validate {arity : Nat} (valid : e.validate arity = .ok ()) : ∀ i ∈ e.refs, i < arity := by
  rw [Expr.validate] at valid
  split at valid
  · cases valid
  · next inside =>
    intro i mem
    simpa using List.find?_eq_none.1 inside i mem

/-- What is checked when a program is made. -/
structure Program.Checked (p : Program) : Prop where
  output : List.Forall₂ (fun e (f : Field) => f.nullable = e.nullable) p.projects p.output.fields
  projects : ∀ e ∈ p.projects, e.containsUnwind = true → Program.isUnwind e = true
  refs : ∀ e ∈ p.projects ++ p.condition.toList, ∀ i ∈ e.refs, i < p.input.arity

theorem Program.checked_of_new (made : new input projects condition = .ok p) : p.Checked := by
  obtain ⟨_, checked, made⟩ := bind_eq_ok.1 made
  obtain ⟨_, _, made⟩ := bind_eq_ok.1 made
  obtain ⟨_, tested, made⟩ := bind_eq_ok.1 made
  cases made
  refine ⟨?_, fun e mem unwinds => ?_, List.forall_mem_append.2 ⟨fun e mem => ?_, fun e mem => ?_⟩⟩
  · rw [List.forall₂_map_left_iff, List.forall₂_map_right_iff, List.forall₂_same]
    exact fun _ _ => rfl
  · have checked := forM_eq_ok.1 checked e mem
    obtain ⟨_, _, checked⟩ := bind_eq_ok.1 checked
    by_contra whole
    rw [if_neg whole, if_pos unwinds] at checked
    cases checked
  · obtain ⟨_, valid, _⟩ := bind_eq_ok.1 (forM_eq_ok.1 checked e mem)
    exact Expr.refs_of_validate valid
  · cases condition with
    | none => cases mem
    | some =>
      rw [List.mem_singleton.1 mem]
      obtain ⟨_, valid, _⟩ := bind_eq_ok.1 tested
      exact Expr.refs_of_validate valid

theorem Program.condition_of_new (made : new input projects condition = .ok p) :
    ∀ e ∈ p.condition, e.containsUnwind = false := by
  obtain ⟨_, _, made⟩ := bind_eq_ok.1 made
  obtain ⟨_, _, made⟩ := bind_eq_ok.1 made
  obtain ⟨_, tested, made⟩ := bind_eq_ok.1 made
  cases made
  intro e mem
  cases condition with
  | none => cases mem
  | some =>
    cases mem
    obtain ⟨_, _, tested⟩ := bind_eq_ok.1 tested
    by_contra unwinds
    rw [if_pos (Bool.eq_true_of_not_eq_false unwinds)] at tested
    split at tested <;> cases tested

namespace Plan

theorem rowType_withTraits (p : Plan) (traits : Traits) : (p.withTraits traits).rowType = p.rowType := by
  cases p <;> rfl

theorem Constructed.rowType_eq {p built : Plan} (same : p = built.withTraits p.traits) : p.rowType = built.rowType :=
  (congrArg rowType same).trans (built.rowType_withTraits _)

variable {h : Head} {input : Plan} {program : Program} {calls : List AggCall}

theorem Constructed.scan {table : Table} (made : Constructed (.scan h table)) : h.rowType = table.rowType := by
  obtain ⟨built, rebuilt, same⟩ := made
  cases rebuilt
  exact rowType_eq same

theorem Constructed.values {rows : List Row} (made : Constructed (.values h rows)) :
    ∀ row ∈ rows, row.length = h.rowType.arity := by
  obtain ⟨built, rebuilt, _⟩ := made
  intro row mem
  rw [rebuild, ofRows] at rebuilt
  split at rebuilt
  · cases rebuilt
  · next wide => simpa using List.find?_eq_none.1 wide row mem

theorem Constructed.new_program (made : Constructed (.calculate h program input)) :
    Program.new program.input (program.projects.zip program.output.names) program.condition = .ok program ∧
      program.input.compatible input.rowType = true ∧ h.rowType = program.output := by
  obtain ⟨built, rebuilt, same⟩ := made
  obtain ⟨program', fresh, rebuilt⟩ := bind_eq_ok.1 rebuilt
  rw [run] at rebuilt
  split at rebuilt
  · next compatible =>
    cases rebuilt
    obtain ⟨-, rfl, -⟩ := Plan.calculate.inj same
    exact ⟨fresh, compatible, rowType_eq same⟩
  · cases rebuilt

theorem Constructed.calculate (made : Constructed (.calculate h program input)) :
    h.rowType = program.output ∧ program.input.arity = input.rowType.arity ∧ program.Checked := by
  obtain ⟨fresh, compatible, rowType⟩ := made.new_program
  rw [RowType.compatible, Bool.and_eq_true, decide_eq_true_eq] at compatible
  exact ⟨rowType, compatible.1, Program.checked_of_new fresh⟩

theorem Constructed.aggregate {keys : List Nat}
    (made : Constructed (.aggregate h keys calls input)) : ∃ keyFields callFields,
      keys.mapM (groupField input.rowType) = .ok keyFields ∧
      calls.mapM (callField input.rowType !keys.isEmpty) = .ok callFields ∧
      h.rowType = ⟨RowType.freshFields [] (keyFields ++ callFields)⟩ := by
  obtain ⟨built, rebuilt, same⟩ := made
  obtain ⟨keyFields, found, rebuilt⟩ := bind_eq_ok.1 rebuilt
  obtain ⟨callFields, found', rebuilt⟩ := bind_eq_ok.1 rebuilt
  cases rebuilt
  exact ⟨keyFields, callFields, found, found', rowType_eq same⟩

theorem Constructed.arity_aggregate {group : List Nat} (made : Constructed (.aggregate h group calls input)) :
    h.rowType.arity = group.length + calls.length := by
  obtain ⟨keyFields, callFields, keyed, called, same⟩ := made.aggregate
  have long := congrArg List.length (RowType.nullability_freshFields [] (keyFields ++ callFields))
  rw [List.length_map, List.length_map, List.length_append, ← (mapM_eq_ok.1 keyed).length_eq,
    ← (mapM_eq_ok.1 called).length_eq] at long
  rw [same]
  exact long

theorem Constructed.join {kind : JoinKind} {on : Expr} {left right : Plan}
    (made : Constructed (.join h kind on left right)) :
    h.rowType = if kind.leftOnly then left.rowType
      else left.rowType.join right.rowType kind.padsLeft kind.padsRight := by
  obtain ⟨built, rebuilt, same⟩ := made
  obtain ⟨_, _, rebuilt⟩ := bind_eq_ok.1 rebuilt
  cases rebuilt
  exact rowType_eq same

theorem Constructed.setOp {op : SetOp} {all : Bool} {first : Plan} {rest : List Plan}
    (made : Constructed (.setOp h op all first rest)) :
    (∀ q ∈ rest, q.rowType.arity = first.rowType.arity) ∧
      h.rowType = ⟨(rest.map (·.rowType.fields)).foldl widen first.rowType.fields⟩ := by
  obtain ⟨built, rebuilt, same⟩ := made
  rw [rebuild, setOperation] at rebuilt
  split at rebuilt
  · cases rebuilt
  · next alike =>
    cases rebuilt
    refine ⟨fun q mem => ?_, rowType_eq same⟩
    have compatible := List.find?_eq_none.1 alike q mem
    rw [Bool.not_eq_true', Bool.not_eq_false, RowType.compatible, Bool.and_eq_true, decide_eq_true_eq] at compatible
    exact compatible.1

theorem Constructed.sort {collation : Collation} {offset fetch : Option Nat}
    (made : Constructed (.sort h collation offset fetch input)) : h.rowType = input.rowType := by
  obtain ⟨built, rebuilt, same⟩ := made
  rw [rebuild, sortBy] at rebuilt
  split at rebuilt
  · cases rebuilt
  · cases rebuilt
    exact rowType_eq same

end Plan

/-- A reference that is marked as never null is to a field that is never null. -/
def Expr.Marked (t : RowType) : Expr → Prop
  | ref index _ nullable => nullable = false → ∀ f, t.fields[index]? = some f → f.nullable = false
  | _ => True

variable {t : RowType}

theorem Expr.Marked.readsPresent (fits : t.Fits true row) (marked : e.Marked t) : e.ReadsPresent row := by
  cases e with
  | ref index ty nullable =>
    cases nullable with
    | true => trivial
    | false =>
      intro located
      have inside : index < t.fields.length := (List.getElem?_eq_some_iff.1 located).1.trans_eq fits.length_eq
      have declared := List.getElem?_eq_getElem inside
      cases fits.present declared (marked rfl _ declared) located
  | _ => trivial

/-- A program may run in place of another: over the same rows, it gives rows of the other's output. -/
structure Program.Replaces (strict : Bool) (t : RowType) (program program' : Program) : Prop where
  input : program'.input = program.input
  declared : List.Forall₂ (fun e f => f.nullable = false → e.nullable = false) program'.projects program.output.fields
  marked : strict = true → ∀ e ∈ program'.projects, e.Everywhere (Expr.Marked t)

theorem Program.Checked.replaces (checked : program.Checked)
    (marked : strict = true → ∀ e ∈ program.projects, e.Everywhere (Expr.Marked t)) :
    program.Replaces strict t program :=
  ⟨rfl, checked.output.imp fun _ _ same never => same.symm.trans never, marked⟩

theorem Program.Replaces.fits {original : Program} {params : Bindings} {made : Row}
    (replaces : original.Replaces strict t program) (fits : t.Fits strict row)
    (outcome : Rows.Made program params row made) : original.output.Fits strict made := by
  have projected {r : Row} (evaluated : program.projectRow row params = .ok r) : original.output.Fits strict r := by
    rw [RowType.Fits, RowType.nullability, List.forall₂_map_left_iff]
    refine forall₂_through replaces.declared (Expr.evalAll_eq_ok.1 evaluated) ?_
    rintro e mem f v same value rfl never
    refine Expr.eval_ne_null (same never) ?_ value
    exact (replaces.marked rfl e mem).mono fun _ here => here.readsPresent fits
  cases outcome with
  | projected _ evaluated => exact projected evaluated
  | @unwound r position items item found evaluated array mem =>
    refine forall₂_set (projected evaluated) ?_
    intro nullable declared _ never
    rw [RowType.nullability, List.getElem?_map, Option.map_eq_some_iff] at declared
    obtain ⟨f, located, rfl⟩ := declared
    obtain ⟨e, unwinds, here⟩ : ∃ e, Program.isUnwind e = true ∧ program.projects[position]? = some e := by
      obtain ⟨inside, unwinds, _⟩ := List.findIdx?_eq_some_iff_getElem.1 found
      exact ⟨_, unwinds, List.getElem?_eq_getElem inside⟩
    have nullable := forall₂_getElem? replaces.declared here located never
    cases e with
    | call op operands ty =>
      rw [Program.isUnwind, Expr.op?, decide_eq_true_eq, Option.some.injEq] at unwinds
      subst unwinds
      cases nullable
    | _ => cases unwinds

namespace Plan

variable {f : Field} {params : Bindings} {store : Store} {p : Plan} {input : RowType} {call : AggCall}
  {grouped strict : Bool}

theorem index_of_groupField {index : Nat} (found : groupField input index = .ok f) : index < input.arity := by
  rw [groupField] at found
  split at found
  · next located => exact (List.getElem?_eq_some_iff.1 located).1
  · cases found

theorem args_of_callField (made : callField input grouped call = .ok f) : ∀ i ∈ call.args, i < input.arity := by
  intro i mem
  by_contra outside
  have found : (call.args.find? (input.arity ≤ ·)).isSome = true :=
    List.find?_isSome.2 ⟨i, mem, decide_eq_true (Nat.not_lt.1 outside)⟩
  obtain ⟨index, found⟩ := Option.isSome_iff_exists.1 found
  simp only [callField, found] at made
  split at made <;> cases made

/-- The column of a call is never null only for a count, or on groups and a field that is never null. -/
theorem of_callField (made : callField input grouped call = .ok f) (never : f.nullable = false) :
    call.function = .count ∨ grouped = true ∧ ∃ index g, call.args = [index] ∧
      input.fields[index]? = some g ∧ g.nullable = false := by
  obtain ⟨function, args, distinct, name⟩ := call
  cases function with
  | count => exact .inl rfl
  | sum | min | max | avg =>
    refine .inr ?_
    cases args with
    | nil => cases made
    | cons index rest =>
      cases rest with
      | cons => cases made
      | nil =>
        by_cases outside : input.arity ≤ index
        · simp [callField, outside] at made
        · have located := List.getElem?_eq_getElem (Nat.not_le.1 outside)
          simp only [callField, List.find?_cons, outside, decide_false, List.find?_nil, List.head?_cons,
            Option.bind_some, located] at made
          cases made
          rw [Bool.or_eq_false_iff, Bool.not_eq_false'] at never
          exact ⟨never.1, index, _, rfl, located, never.2⟩

theorem fits_aggregate {t : RowType} {keys : List Nat} {calls : List AggCall}
    {keyFields callFields : List Field} {rows out : List Row} {row : Row}
    (keyed : keys.mapM (groupField t) = .ok keyFields)
    (called : calls.mapM (callField t !keys.isEmpty) = .ok callFields)
    (each : ∀ r ∈ rows, t.Fits strict r) (success : Rows.aggregate keys calls rows = .ok out) (mem : row ∈ out) :
    RowType.Fits strict ⟨RowType.freshFields [] (keyFields ++ callFields)⟩ row := by
  rw [RowType.Fits, RowType.nullability, RowType.nullability_freshFields, List.map_append]
  rcases Rows.mem_aggregate success mem with ⟨first, rest, key, states, members, found, folded, rfl⟩ | ⟨rfl, rfl, rfl⟩
  · refine List.rel_append ?_ ?_
    · rw [List.forall₂_map_left_iff]
      refine forall₂_through (mapM_eq_ok.1 keyed) (mapM_eq_ok.1 found) ?_
      rintro index _ f v declared located rfl never
      rw [groupField] at declared
      rw [Rows.groupKeyOf] at located
      split at declared <;> cases declared
      split at located <;> cases located
      exact (each first (members first (.head _))).present ‹_› never ‹_›
    · rw [List.forall₂_map_left_iff, List.forall₂_map_right_iff]
      refine forall₂_through (mapM_eq_ok.1 called) folded ?_
      rintro call _ f s declared state rfl never
      rcases of_callField declared never with counts | ⟨_, index, g, one, located, present⟩
      · exact Rows.present_callState (.inl counts) (fun other => absurd counts other) state
      · refine Rows.present_callState (.inr (by simp [one])) (fun _ i mem v found => ?_) state
        rw [one, List.mem_singleton] at mem
        subst mem
        exact (each first (members first (.head _))).present located present found
  · obtain rfl : keyFields = [] := List.forall₂_nil_left_iff.1 (mapM_eq_ok.1 keyed)
    rw [List.map_nil, List.nil_append, List.forall₂_map_left_iff, List.forall₂_map_right_iff]
    refine (mapM_eq_ok.1 called).flip.imp fun f call declared _ never => ?_
    rcases of_callField declared never with counts | ⟨grouped, _⟩
    · rw [counts]
      rfl
    · cases grouped

section Widen

variable {strict : Bool} {fields others : List Field} {row : Row}

theorem length_widen (same : others.length = fields.length) : (widen fields others).length = fields.length := by
  simp [widen, same]

theorem fits_widen (same : others.length = fields.length)
    (fits : RowType.Fits strict ⟨fields⟩ row ∨ RowType.Fits strict ⟨others⟩ row) :
    RowType.Fits strict ⟨widen fields others⟩ row := by
  induction fields generalizing others row with
  | nil =>
    cases List.eq_nil_of_length_eq_zero same
    exact fits.elim id id
  | cons _ _ ih =>
    cases others with
    | nil => cases same
    | cons g others =>
      have later {row : Row} := @ih others row (Nat.succ.inj same)
      rcases fits with (_ | ⟨here, fits⟩) | _ | ⟨here, fits⟩
      · exact .cons (fun exactly never => here exactly (Bool.or_eq_false_iff.1 never).1) (later (.inl fits))
      · exact .cons (fun exactly never => here exactly (Bool.or_eq_false_iff.1 never).2) (later (.inr fits))

/-- A row that fits one of the inputs of a set operation fits its output. -/
theorem fits_foldl_widen {all : List (List Field)} (same : ∀ others ∈ all, others.length = fields.length)
    (fits : RowType.Fits strict ⟨fields⟩ row ∨ ∃ others ∈ all, RowType.Fits strict ⟨others⟩ row) :
    RowType.Fits strict ⟨all.foldl widen fields⟩ row := by
  induction all generalizing fields with
  | nil => exact fits.resolve_right (by simp)
  | cons others all ih =>
    have here := same others (.head _)
    refine ih (fun g mem => (same g (.tail _ mem)).trans (length_widen here).symm) ?_
    rcases fits with first | ⟨g, mem, later⟩
    · exact .inl (fits_widen here (.inl first))
    · rcases List.mem_cons.1 mem with rfl | mem
      · exact .inl (fits_widen here (.inr later))
      · exact .inr ⟨g, mem, later⟩

end Widen

/-- The rows that a query starts from fit their row types. -/
def Stocked (strict : Bool) (store : Store) : Plan → Prop
  | scan _ table => ∀ row ∈ store.rows table.name, table.rowType.Fits strict row
  | values h rows => ∀ row ∈ rows, h.rowType.Fits strict row
  | _ => True

/-- The references of a program are marked as the fields of its input are declared. -/
def Marked : Plan → Prop
  | calculate _ program input =>
    ∀ e ∈ program.projects ++ program.condition.toList, e.Everywhere (Expr.Marked input.rowType)
  | _ => True

theorem fits_feed_of_replaces {ready : Program → Plan → Option Program}
    (query : ∀ n ∈ p.nodes, n.isQuery = true) (made : ∀ n ∈ p.nodes, n.Constructed)
    (stocked : ∀ n ∈ p.nodes, n.Stocked strict store)
    (replaces : ∀ h program input, .calculate h program input ∈ p.nodes →
      ∀ program', ready program input = some program' → program.Replaces strict input.rowType program') :
    ∀ row ∈ (p.feed ready params store).rows, p.rowType.Fits strict row := by
  apply p.induction_nodes
  intro n node below row mem
  have built := made n node
  have stocked := stocked n node
  cases n with
  | scan =>
    rw [rowType, head, built.scan]
    rw [feed, Feed.rows_ofRows] at mem
    exact stocked row mem
  | values =>
    rw [feed, Feed.rows_ofRows] at mem
    exact stocked row mem
  | calculate h program input =>
    obtain ⟨output, arity, _⟩ := built.calculate
    rw [feed] at mem
    cases run : ready program input with
    | none =>
      rw [run] at mem
      cases mem
    | some program' =>
      rw [run] at mem
      have stands := replaces h program input node program' run
      obtain ⟨r, inside, out, success, mem⟩ := Feed.mem_rows_expand mem
      have fits := below input (.head _) r inside
      have long : r.length = program'.input.arity := by rw [stands.input, arity, fits.length_eq]
      obtain ⟨_, outcome⟩ := Rows.mem_runRow long success mem
      rw [rowType, head, output]
      exact stands.fits fits outcome
  | aggregate h group calls input =>
    obtain ⟨keyFields, callFields, keyed, called, output⟩ := built.aggregate
    obtain ⟨rows, out, found, success, mem⟩ := mem_feed_aggregate mem
    have each := below input (.head _)
    rw [Feed.rows_of_result found] at each
    rw [rowType, head, output]
    exact fits_aggregate keyed called each success mem
  | join h kind on left right =>
    rw [rowType, head, built.join]
    exact RowType.fits_joined (below left (.head _)) (below right (.tail _ (.head _))) (mem_feed_join mem)
  | setOp h op all first rest =>
    obtain ⟨arities, output⟩ := built.setOp
    rw [rowType, head, output]
    refine fits_foldl_widen (List.forall_mem_map.2 arities) ?_
    rcases mem_feedChain mem with here | ⟨_, q, inside, found⟩
    · exact .inl (below first (.head _) row here)
    · exact .inr ⟨_, List.mem_map_of_mem inside, below q (.tail _ inside) row found⟩
  | sort h collation offset fetch input =>
    rw [rowType, head, built.sort]
    exact below input (.head _) row (mem_feed_sort mem)
  | modify | collect | converter => cases query _ node

theorem fits_feed (query : ∀ n ∈ p.nodes, n.isQuery = true) (made : ∀ n ∈ p.nodes, n.Constructed)
    (stocked : ∀ n ∈ p.nodes, n.Stocked strict store) (marked : strict = true → ∀ n ∈ p.nodes, n.Marked) :
    ∀ row ∈ (p.feed asWritten params store).rows, p.rowType.Fits strict row := by
  refine fits_feed_of_replaces query made stocked ?_
  rintro h program input mem _ ⟨⟩
  refine (made _ mem).calculate.2.2.replaces fun exactly e inside => ?_
  exact marked exactly _ mem e (List.mem_append_left _ inside)

/-- Every row of a query has a value for each field, whatever its references are marked as. -/
theorem length_feed (query : ∀ n ∈ p.nodes, n.isQuery = true) (made : ∀ n ∈ p.nodes, n.Constructed)
    (stored : ∀ h table, .scan h table ∈ p.nodes → ∀ row ∈ store.rows table.name, row.length = table.rowType.arity) :
    ∀ row ∈ (p.feed asWritten params store).rows, row.length = p.rowType.arity := by
  have stocked : ∀ n ∈ p.nodes, n.Stocked false store := by
    intro n mem
    cases n with
    | scan h table => exact fun row inside => RowType.fits_of_length (stored h table mem row inside)
    | values => exact fun row inside => RowType.fits_of_length ((made _ mem).values row inside)
    | _ => trivial
  exact fun row mem => (fits_feed query made stocked Bool.noConfusion row mem).length_eq

end Plan

end FederatedQuery
