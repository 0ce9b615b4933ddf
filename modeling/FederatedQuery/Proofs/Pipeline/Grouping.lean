import FederatedQuery.Pipeline.Stage
import FederatedQuery.Plan.Build
import FederatedQuery.Proofs.Document.Entries
import FederatedQuery.Proofs.Error.Outcome

/-!
The columns of an aggregation. A pipeline groups under the key of the store and collects each call under the name of its
column; then it spreads the key over the columns of the group keys and leaves the key out. All of this is set by name,
so the columns come through exactly when none of them has the name of the key.
-/
namespace FederatedQuery.Pipeline

variable {input output : List String} {group : List Nat} {calls : List AggCall} {call : AggCall}

/-- The name of a field that is there. -/
def nameAt (names : List String) (index : Nat) : String := names[index]?.getD ""

theorem fieldName_of_lt {names : List String} {index : Nat} (inside : index < names.length) :
    fieldName names index = .ok (nameAt names index) := by
  rw [fieldName, nameAt, List.getElem?_eq_getElem inside, Option.getD_some]

def inputPath (input : List String) (index : Nat) : Document := path (nameAt input index)

theorem inputPath_of_lt {index : Nat} (inside : index < input.length) :
    (return path (← fieldName input index) : Except Error Document) = .ok (inputPath input index) := by
  rw [fieldName_of_lt inside]
  rfl

/-- A call that a pipeline can express. Its arguments are there, and there is one of them unless it counts. -/
structure Supported (width : Nat) (call : AggCall) : Prop where
  inside : ∀ arg ∈ call.args, arg < width
  single : call.function ≠ .count ∨ call.distinct = true → call.args.length = 1

theorem Supported.exists_accumulator {width : Nat} (supported : Supported width call) {documents : List Document}
    (lengths : documents.length = call.args.length) : ∃ d, accumulator call documents = .ok d := by
  unfold accumulator
  cases distinct : call.distinct with
  | true =>
    obtain ⟨arg, rfl⟩ := List.length_eq_one_iff.1 (lengths.trans (supported.single (.inr distinct)))
    exact ⟨_, rfl⟩
  | false =>
    by_cases counts : call.function = .count
    · rw [counts]
      cases documents <;> exact ⟨_, rfl⟩
    · obtain ⟨arg, rfl⟩ := List.length_eq_one_iff.1 (lengths.trans (supported.single (.inl counts)))
      cases function : call.function with
      | count => exact absurd function counts
      | _ => exact ⟨_, rfl⟩

/-- What is collected for a call, which has the name of its column. -/
def Collects (input : List String) (named : AggCall × String) (pair : String × Document) : Prop :=
  pair.1 = named.2 ∧ accumulator named.1 (named.1.args.map (inputPath input)) = .ok pair.2

/-- The group keys under the names of their columns. -/
def keyEntries (group : List Nat) (input output : List String) : Entries :=
  (group.zip output).map fun key => (key.2, inputPath input key.1)

/-- What documents are grouped by. Without group keys, all of them are one group. -/
def groupKey (group : List Nat) (input output : List String) : Document :=
  if group.isEmpty then .null else .object (keyEntries group input output)

/-- The calls with the names of their columns, which come after those of the group keys. -/
def namedCalls (group : List Nat) (calls : List AggCall) (output : List String) : List (AggCall × String) :=
  calls.zip (output.drop group.length)

def spreadEntries (group : List Nat) (output : List String) : Entries :=
  (group.zip output).map fun key => (key.2, .string ("$_id." ++ key.2))

def resultEntries (group : List Nat) (calls : List AggCall) (output : List String) : Entries :=
  (namedCalls group calls output).map fun named => (named.2, finalizer named.1 named.2)

/-- What the stages of an aggregation have for each column, and for the key of the store. -/
structure KeepsColumns (group : List Nat) (calls : List AggCall) (input output : List String)
    (grouping projection : Entries) : Prop where
  /-- The key holds exactly the group keys. -/
  keyed : grouping.get? "_id" = some (groupKey group input output)
  collected : ∀ named ∈ namedCalls group calls output,
    ∃ d, Collects input named (named.2, d) ∧ grouping.get? named.2 = some d
  /-- There is nothing beside the key and an entry for each call. -/
  size : grouping.length = calls.length + 1
  spread : ∀ name ∈ output.take group.length, projection.get? name = some (.string ("$_id." ++ name))
  finished : ∀ named ∈ namedCalls group calls output, projection.get? named.2 = some (finalizer named.1 named.2)
  shown : ∀ name ∈ output, projection.get? name ≠ some (.int 0)

theorem finalizer_ne_hidden (call : AggCall) (name : String) : finalizer call name ≠ .int 0 := by
  unfold finalizer
  split
  · cases call.function <;> exact nofun
  · exact nofun

variable {accumulators : Entries}

section

variable (arity : output.length = group.length + calls.length)

include arity

theorem names_keys : (group.zip output).map Prod.snd = output.take group.length := by
  have short : group.length ≤ output.length := by omega
  rw [List.zip_eq_zip_take_min, Nat.min_eq_left short, List.take_length, List.map_snd_zip]
  rw [List.length_take]
  omega

theorem names_calls : (namedCalls group calls output).map Prod.snd = output.drop group.length := by
  refine List.map_snd_zip ?_
  rw [List.length_drop]
  omega

theorem keys_keyEntries : (keyEntries group input output).keys = output.take group.length := by
  rw [← names_keys arity, Entries.keys, keyEntries, List.map_map]
  rfl

theorem exists_aggregateStages
    (keys : ∀ index ∈ group, index < input.length) (supported : ∀ call ∈ calls, Supported input.length call)
    (distinct : output.Nodup) :
    ∃ accumulators, List.Forall₂ (Collects input) (namedCalls group calls output) accumulators ∧
      aggregateStages group calls input output =
        .ok [.group (Entries.ofPairs (("_id", groupKey group input output) :: accumulators)),
          .project (Entries.ofPairs (spreadEntries group output ++ resultEntries group calls output ++
            [("_id", .int 0)]))] := by
  have each : ∀ named ∈ namedCalls group calls output, ∃ pair, Collects input named pair ∧
      named.1.args.mapM (fun arg => return path (← fieldName input arg)) =
        .ok (named.1.args.map (inputPath input)) := by
    intro named mem
    have one := supported named.1 (List.of_mem_zip mem).1
    obtain ⟨d, made⟩ := one.exists_accumulator (List.length_map (inputPath input))
    exact ⟨(named.2, d), ⟨rfl, made⟩, mapM_eq_map fun arg mem => inputPath_of_lt (one.inside arg mem)⟩
  obtain ⟨accumulators, related⟩ := exists_forall₂ each
  have apart : (keyEntries group input output).keys.Nodup := by
    rw [keys_keyEntries arity]
    exact distinct.sublist (List.take_sublist _ _)
  refine ⟨accumulators, related.imp fun _ _ both => both.1, ?_⟩
  refine bind_eq_ok.2 ⟨keyEntries group input output, mapM_eq_map fun key mem => ?_,
    bind_eq_ok.2 ⟨accumulators, mapM_eq_ok.2 (related.imp ?_), ?_⟩⟩
  · exact bind_eq_ok.2 ⟨_, fieldName_of_lt (keys key.1 (List.of_mem_zip mem).1), rfl⟩
  · rintro ⟨call, name⟩ ⟨_, d⟩ ⟨⟨rfl, made⟩, paths⟩
    exact bind_eq_ok.2 ⟨_, paths, bind_eq_ok.2 ⟨d, made, rfl⟩⟩
  · rw [Entries.ofPairs_of_nodup apart, keyEntries, List.map_map]
    rfl

theorem keys_accumulators (related : List.Forall₂ (Collects input) (namedCalls group calls output) accumulators) :
    accumulators.keys = output.drop group.length := by
  rw [← names_calls arity, Entries.keys, ← List.forall₂_eq_eq_eq, List.forall₂_map_left_iff, List.forall₂_map_right_iff]
  exact related.flip.imp fun _ _ collects => collects.1

theorem keys_projection :
    Entries.keys (spreadEntries group output ++ resultEntries group calls output ++ [("_id", .int 0)]) =
      output ++ ["_id"] := by
  have spread : (spreadEntries group output).keys = output.take group.length := by
    rw [← names_keys arity, Entries.keys, spreadEntries, List.map_map]
    rfl
  have results : (resultEntries group calls output).keys = output.drop group.length := by
    rw [← names_calls arity, Entries.keys, resultEntries, List.map_map]
    rfl
  rw [Entries.keys_append, Entries.keys_append, spread, results, List.take_append_drop]
  rfl

theorem keepsColumns_of_not_mem (distinct : output.Nodup) (free : "_id" ∉ output)
    (related : List.Forall₂ (Collects input) (namedCalls group calls output) accumulators) :
    KeepsColumns group calls input output
      (Entries.ofPairs (("_id", groupKey group input output) :: accumulators))
      (Entries.ofPairs (spreadEntries group output ++ resultEntries group calls output ++ [("_id", .int 0)])) := by
  have first : (Entries.keys (("_id", groupKey group input output) :: accumulators)).Nodup := by
    rw [Entries.keys, List.map_cons, ← Entries.keys, keys_accumulators arity related, List.nodup_cons]
    exact ⟨fun mem => free (List.mem_of_mem_drop mem), distinct.sublist (List.drop_sublist _ _)⟩
  have second : (Entries.keys (spreadEntries group output ++ resultEntries group calls output ++
      [("_id", .int 0)])).Nodup := by
    rw [keys_projection arity, List.nodup_append]
    refine ⟨distinct, List.pairwise_singleton _ _, fun name mem key here same => free ?_⟩
    rwa [same, List.mem_singleton.1 here] at mem
  rw [Entries.ofPairs_of_nodup first, Entries.ofPairs_of_nodup second]
  have spread : ∀ name ∈ output.take group.length, Entries.get? (spreadEntries group output ++
      resultEntries group calls output ++ [("_id", .int 0)]) name = some (.string ("$_id." ++ name)) := by
    rw [← names_keys arity]
    intro name mem
    obtain ⟨key, inside, rfl⟩ := List.mem_map.1 mem
    refine Entries.get?_of_mem second (List.mem_append_left _ (List.mem_append_left _ ?_))
    exact List.mem_map_of_mem inside
  have finished : ∀ named ∈ namedCalls group calls output, Entries.get? (spreadEntries group output ++
      resultEntries group calls output ++ [("_id", .int 0)]) named.2 = some (finalizer named.1 named.2) :=
    fun named mem => Entries.get?_of_mem second (List.mem_append_left _ (List.mem_append_right _
      (List.mem_map_of_mem mem)))
  refine ⟨Entries.get?_of_mem first (.head _), fun named mem => ?_, ?_, spread, finished, ?_⟩
  · obtain ⟨pair, inside, collects⟩ := exists_of_forall₂_right related.flip mem
    obtain ⟨_, d⟩ := pair
    obtain ⟨rfl, made⟩ := collects
    exact ⟨d, ⟨rfl, made⟩, Entries.get?_of_mem first (.tail _ inside)⟩
  · rw [List.length_cons, ← related.length_eq, namedCalls, List.length_zip, List.length_drop]
    omega
  · intro name mem hidden
    rw [← List.take_append_drop group.length output, List.mem_append, ← names_calls arity] at mem
    rcases mem with key | result
    · rw [spread name key] at hidden
      cases hidden
    · obtain ⟨named, inside, rfl⟩ := List.mem_map.1 result
      rw [finished named inside] at hidden
      exact finalizer_ne_hidden _ _ (Option.some.inj hidden)

end

/-- An aggregation of calls that pipelines can express adds two stages. They keep every column exactly when none has the
name of the store's key. -/
theorem keepsColumns_iff {h : Head} {p : Plan} {c : Chain} (below : chain p = .ok c)
    (arity : h.rowType.arity = group.length + calls.length) (keys : ∀ index ∈ group, index < p.rowType.arity)
    (supported : ∀ call ∈ calls, Supported p.rowType.arity call) (distinct : h.rowType.names.Nodup) :
    ∃ grouping projection,
      chain (.aggregate h group calls p) = .ok (c.extend [.group grouping, .project projection]) ∧
      (KeepsColumns group calls p.rowType.names h.rowType.names grouping projection ↔ "_id" ∉ h.rowType.names) := by
  have width : p.rowType.names.length = p.rowType.arity := List.length_map _
  have size : h.rowType.names.length = group.length + calls.length := (List.length_map _).trans arity
  rw [← width] at keys supported
  obtain ⟨accumulators, related, stages⟩ := exists_aggregateStages size keys supported distinct
  refine ⟨_, _, bind_eq_ok.2 ⟨c, below, bind_eq_ok.2 ⟨_, stages, rfl⟩⟩, fun keeps mem => ?_, fun free => ?_⟩
  · refine keeps.shown "_id" mem ?_
    rw [Entries.ofPairs_concat, Entries.get?_put, if_pos rfl]
  · exact keepsColumns_of_not_mem size distinct free related

/-- A table with a column of the name that the store has for its key. -/
def visits : Table :=
  { Table.named "visits" ⟨[⟨"_id", .integer, false⟩, ⟨"page", .varchar none, true⟩]⟩ with convention := .document }

/-- Counting the visits of each page keeps both columns, and counting those of each key loses the key. -/
theorem keepsColumns_iff_visits :
    let calls : List AggCall := [⟨.count, [0], true, "n"⟩]
    let byPage : Head := Plan.logicalHead ⟨[⟨"page", .varchar none, true⟩, ⟨"n", .bigInt, false⟩]⟩
    let byKey : Head := Plan.logicalHead ⟨[⟨"_id", .integer, false⟩, ⟨"n", .bigInt, false⟩]⟩
    (∃ grouping projection, chain (.aggregate byPage [1] calls (.ofTable visits)) =
        .ok ⟨"visits", [.group grouping, .project projection]⟩ ∧
      KeepsColumns [1] calls ["_id", "page"] ["page", "n"] grouping projection) ∧
    (∃ grouping projection, chain (.aggregate byKey [0] calls (.ofTable visits)) =
        .ok ⟨"visits", [.group grouping, .project projection]⟩ ∧
      ¬KeepsColumns [0] calls ["_id", "page"] ["_id", "n"] grouping projection) := by
  intro calls byPage byKey
  have supported : ∀ call ∈ calls, Supported 2 call :=
    List.forall_mem_singleton.2 ⟨by decide, fun _ => rfl⟩
  have below : chain (.ofTable visits) = .ok ⟨"visits", []⟩ := rfl
  have keysPresent : ∀ key < 2, ∀ index ∈ [key], index < (Plan.ofTable visits).rowType.arity := by decide
  obtain ⟨grouping, projection, made, keeps⟩ :=
    keepsColumns_iff (h := byPage) below rfl (keysPresent 1 (by decide)) supported (by decide)
  obtain ⟨grouping', projection', made', loses⟩ :=
    keepsColumns_iff (h := byKey) below rfl (keysPresent 0 (by decide)) supported (by decide)
  exact ⟨⟨grouping, projection, made, keeps.2 (by decide)⟩,
    grouping', projection', made', fun kept => loses.1 kept (by decide)⟩

end FederatedQuery.Pipeline
