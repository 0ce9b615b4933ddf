import FederatedQuery.Proofs.Error.Outcome
import FederatedQuery.Proofs.Value.Order
import FederatedQuery.Rows.Aggregate
import FederatedQuery.Rows.Waiting
import Mathlib.Data.List.Induction

/-!
Aggregation, group by group. Feeding rows one at a time to the groups comes to the same as sharing the
rows out by their keys and then folding every call over the rows of each group.
-/
namespace FederatedQuery.Rows

namespace Waiting

variable {α : Type} {pairs : List (Row × α)} {row key : Row} {a : α} {queue : List α} {waiting : Waiting α}

theorem ofPairs_append (pairs : List (Row × α)) (row : Row) (a : α) :
    ofPairs (pairs ++ [(row, a)]) = (ofPairs pairs).put row a := by
  rw [ofPairs, List.foldl_append]
  rfl

theorem mem_put (mem : (key, queue) ∈ waiting.put row a) :
    (key, queue) ∈ waiting ∨ (key, queue) = (row, [a]) ∨
      ∃ before, (key, before) ∈ waiting ∧ queue = before ++ [a] := by
  induction waiting with
  | nil => exact .inr (.inl (List.mem_singleton.1 mem))
  | cons _ _ ih =>
    rw [put] at mem
    split at mem
    · rcases List.mem_cons.1 mem with here | later
      · cases here
        exact .inr (.inr ⟨_, .head _, rfl⟩)
      · exact .inl (.tail _ later)
    · rcases List.mem_cons.1 mem with here | later
      · exact .inl (here ▸ (.head _))
      · rcases ih later with old | fresh | ⟨before, old, grown⟩
        · exact .inl (.tail _ old)
        · exact .inr (.inl fresh)
        · exact .inr (.inr ⟨before, .tail _ old, grown⟩)

theorem put_of_mem (row : Row) (a : α) (mem : (key, queue) ∈ waiting) :
    ∃ more, (key, queue ++ more) ∈ waiting.put row a := by
  induction waiting with
  | nil => cases mem
  | cons _ _ ih =>
    rw [put]
    rcases List.mem_cons.1 mem with rfl | later
    · split
      · exact ⟨[a], .head _⟩
      · exact ⟨[], by simp⟩
    · split
      · exact ⟨[], by simp [later]⟩
      · exact (ih later).imp fun _ => List.mem_cons_of_mem _

/-- A queue starts with what came with its key, and holds only what came. -/
theorem mem_ofPairs (mem : (key, queue) ∈ ofPairs pairs) :
    (∃ a rest, queue = a :: rest ∧ (key, a) ∈ pairs) ∧ ∀ a ∈ queue, ∃ row, (row, a) ∈ pairs := by
  induction pairs using List.reverseRecOn generalizing key queue with
  | nil => cases mem
  | append_singleton pairs last ih =>
    obtain ⟨row, a⟩ := last
    rw [ofPairs_append] at mem
    have grow {x : Row × α} (inside : x ∈ pairs) : x ∈ pairs ++ [(row, a)] := List.mem_append_left _ inside
    rcases mem_put mem with old | fresh | ⟨before, old, rfl⟩
    · obtain ⟨⟨b, rest, same, first⟩, each⟩ := ih old
      exact ⟨⟨b, rest, same, grow first⟩, fun x inside => (each x inside).imp fun _ => grow⟩
    · cases fresh
      refine ⟨⟨a, [], rfl, by simp⟩, fun x inside => ⟨key, ?_⟩⟩
      rw [List.mem_singleton.1 inside]
      simp
    · obtain ⟨⟨b, rest, rfl, first⟩, each⟩ := ih old
      refine ⟨⟨b, rest ++ [a], rfl, grow first⟩, fun x inside => ?_⟩
      rcases List.mem_append.1 inside with earlier | last
      · exact (each x earlier).imp fun _ => grow
      · rw [List.mem_singleton.1 last]
        exact ⟨row, by simp⟩

theorem put_ne_nil : waiting.put row a ≠ [] := by
  cases waiting with
  | nil => simp [put]
  | cons =>
    rw [put]
    split <;> simp

theorem ofPairs_eq_nil : ofPairs pairs = [] ↔ pairs = [] := by
  rcases List.eq_nil_or_concat' pairs with rfl | ⟨before, last, rfl⟩
  · exact iff_of_true rfl rfl
  · exact iff_of_false (ofPairs_append before _ _ ▸ put_ne_nil) (by simp)

end Waiting

/-- The key of a row under some group fields. -/
def keyOf (group : List Nat) (row : Row) : Except Error Row := group.mapM (groupKeyOf row)

/-- A call on all rows of a group. -/
def callState (call : AggCall) (members : List Row) : Except Error CallState :=
  members.foldlM (fun s row => s.add call row) (.start call)

/-- The rows shared out by their keys. Without group fields there is always one group. -/
def partition (group : List Nat) (rows : List Row) : Except Error (Waiting Row) := do
  let keys ← rows.mapM (keyOf group)
  return if rows.isEmpty && group.isEmpty then [([], [])] else .ofPairs (keys.zip rows)

def groupRow (calls : List AggCall) (members : Row × List Row) : Except Error Row := do
  let states ← calls.mapM (callState · members.2)
  return members.1 ++ states.map (·.acc.result)

/-- Under the key without values, everything waits together. -/
theorem foldl_put_nil (queue rows : List Row) :
    ((rows.map fun _ => ([] : Row)).zip rows).foldl (fun waiting (row, a) => Waiting.put row a waiting)
      [([], queue)] = [([], queue ++ rows)] := by
  induction rows generalizing queue with
  | nil => rw [List.append_nil]; rfl
  | cons row rest ih =>
    refine (ih (queue ++ [row])).trans ?_
    rw [List.append_assoc, List.singleton_append]

theorem partition_nil (rows : List Row) : partition [] rows = .ok [([], rows)] := by
  have keyed : rows.mapM (keyOf []) = .ok (rows.map fun _ => []) := by
    rw [mapM_eq_ok, List.forall₂_map_right_iff, List.forall₂_same]
    exact fun _ _ => rfl
  rw [partition, keyed]
  cases rows with
  | nil => rfl
  | cons row rest => exact congrArg Except.ok (foldl_put_nil [row] rest)

/-- A running group has taken these rows. -/
structure Taken (calls : List AggCall) (g : Group) (members : Row × List Row) : Prop where
  key : g.key = members.1
  calls : List.Forall₂ (fun call (entry : AggCall × CallState) =>
    entry.1 = call ∧ callState call members.2 = .ok entry.2) calls g.calls

theorem taken_start (calls : List AggCall) (key : Row) : Taken calls (Group.start calls key) (key, []) where
  key := rfl
  calls := List.forall₂_map_right_iff.2 (List.forall₂_same.2 fun _ _ => ⟨rfl, rfl⟩)

theorem callState_append (call : AggCall) (members more : List Row) : callState call (members ++ more) =
    callState call members >>= more.foldlM (fun s row => s.add call row) :=
  List.foldlM_append

/-- A call that fails on the rows of a group. -/
def Fails (calls : List AggCall) (members : List Row) : Prop := ∃ call ∈ calls, (callState call members).isOk = false

variable {calls : List AggCall} {members rows : List Row} {waiting : Waiting Row} {group : List Nat} {g : Group}
  {groups : List Group} {out : List Row} {a b v : Value} {row : Row}

theorem Fails.append (fails : Fails calls members) (more : List Row) : Fails calls (members ++ more) := by
  obtain ⟨call, mem, failed⟩ := fails
  obtain ⟨e, failed⟩ := isOk_eq_false.1 failed
  refine ⟨call, mem, ?_⟩
  rw [callState_append, failed]
  rfl

theorem addToCalls_taken {entries : List (AggCall × CallState)}
    (before : List.Forall₂ (fun call (entry : AggCall × CallState) => entry.1 = call ∧
      callState call members = .ok entry.2) calls entries) (row : Row) :
    Ends (List.Forall₂ (fun call (entry : AggCall × CallState) =>
        entry.1 = call ∧ callState call (members ++ [row]) = .ok entry.2) calls)
      (fun _ => Fails calls (members ++ [row])) (addToCalls row entries) := by
  induction before with
  | nil => exact .nil
  | @cons call entry calls entries here _ ih =>
    obtain ⟨call', s⟩ := entry
    obtain ⟨rfl, state⟩ := here
    have last : callState call' (members ++ [row]) = s.add call' row := by
      rw [callState_append, state, ok_bind]
      exact bind_pure _
    rw [addToCalls]
    cases added : s.add call' row with
    | error => exact ⟨call', .head _, by rw [last, added]; rfl⟩
    | ok =>
      rw [ok_bind]
      refine Ends.bind (ih.mono (fun _ => id) ?_) fun rest later => .cons ⟨rfl, last.trans added⟩ later
      rintro _ ⟨call, mem, failed⟩
      exact ⟨call, .tail _ mem, failed⟩

theorem Taken.add {key : Row} (before : Taken calls g (key, members)) (row : Row) :
    Ends (Taken calls · (key, members ++ [row])) (fun _ => Fails calls (members ++ [row])) (g.add row) :=
  (addToCalls_taken before.calls row).bind fun _ fed => ⟨before.key, fed⟩

theorem addToGroups_taken (before : List.Forall₂ (Taken calls) groups waiting) (key row : Row) :
    Ends (List.Forall₂ (Taken calls) · (waiting.put key row))
      (fun _ => ∃ entry ∈ waiting.put key row, Fails calls entry.2) (addToGroups calls key row groups) := by
  induction before with
  | nil =>
    refine Ends.bind (((taken_start calls key).add row).mono (fun _ => id) fun _ fails => ?_) fun g taken =>
      .cons taken .nil
    exact ⟨_, List.mem_singleton_self _, fails⟩
  | @cons g entry groups waiting here others ih =>
    obtain ⟨key', members⟩ := entry
    rw [addToGroups, here.key, Waiting.put]
    split
    · refine Ends.bind ((here.add row).mono (fun _ => id) fun _ fails => ?_) fun g' taken => .cons taken others
      exact ⟨_, .head _, fails⟩
    · refine Ends.bind (ih.mono (fun _ => id) ?_) fun rest taken => .cons here taken
      rintro _ ⟨entry, mem, fails⟩
      exact ⟨entry, .tail _ mem, fails⟩

/-- A group on which a call fails only grows. -/
theorem fails_foldl_put {pairs : List (Row × Row)} (fails : ∃ entry ∈ waiting, Fails calls entry.2) :
    ∃ entry ∈ pairs.foldl (fun waiting (row, a) => Waiting.put row a waiting) waiting, Fails calls entry.2 := by
  induction pairs generalizing waiting with
  | nil => exact fails
  | cons pair pairs ih =>
    obtain ⟨⟨key, queue⟩, mem, failed⟩ := fails
    obtain ⟨more, grown⟩ := Waiting.put_of_mem pair.1 pair.2 mem
    exact ih ⟨_, grown, failed.append more⟩

theorem foldlM_addToGroups_taken {keys : List Row} (before : List.Forall₂ (Taken calls) groups waiting)
    (found : List.Forall₂ (fun row key => keyOf group row = .ok key) rows keys) :
    Ends (List.Forall₂ (Taken calls) ·
        ((keys.zip rows).foldl (fun waiting (row, a) => Waiting.put row a waiting) waiting))
      (fun _ => ∃ entry ∈ (keys.zip rows).foldl (fun waiting (row, a) => Waiting.put row a waiting) waiting,
        Fails calls entry.2)
      (rows.foldlM (fun groups row => do addToGroups calls (← group.mapM (groupKeyOf row)) row groups) groups) := by
  induction found generalizing groups waiting with
  | nil => exact before
  | @cons row key rows keys here _ ih =>
    have here : group.mapM (groupKeyOf row) = .ok key := here
    rw [List.foldlM_cons, here]
    exact ((addToGroups_taken before key row).mono (fun _ => id) fun _ => fails_foldl_put).bind fun _ => ih

theorem Taken.groupRow {members : Row × List Row} (taken : Taken calls g members) :
    groupRow calls members = .ok g.result := by
  have states : List.Forall₂ (fun call s => callState call members.2 = .ok s) calls (g.calls.map Prod.snd) :=
    List.forall₂_map_right_iff.2 (taken.calls.imp fun _ _ here => here.2)
  rw [Rows.groupRow, mapM_eq_ok.2 states, ok_bind, Group.result, taken.key, List.map_map]
  rfl

/-- Where rows have keys, an aggregation gives the rows of their groups, and fails where a call fails on a group. -/
theorem aggregate_ends {groups : Waiting Row} (shared : partition group rows = .ok groups) (calls : List AggCall) :
    Ends (List.Forall₂ (fun members row => groupRow calls members = .ok row) groups)
      (fun _ => ∃ entry ∈ groups, Fails calls entry.2) (aggregate group calls rows) := by
  obtain ⟨keys, found, shared⟩ := bind_eq_ok.1 shared
  have found := mapM_eq_ok.1 found
  cases shared
  cases rows with
  | nil =>
    cases found
    cases group with
    | nil => exact .cons (taken_start calls []).groupRow .nil
    | cons => exact .nil
  | cons =>
    refine Ends.bind (foldlM_addToGroups_taken .nil found) fun groups taken => ?_
    have several : groups.isEmpty = false := by
      rw [List.isEmpty_eq_false_iff]
      rintro rfl
      cases found with
      | cons => exact absurd (Waiting.ofPairs_eq_nil.1 (List.forall₂_nil_left_iff.1 taken)) (List.cons_ne_nil _ _)
    rw [several]
    exact List.forall₂_map_right_iff.2 (taken.flip.imp fun _ _ here => here.groupRow)

theorem exists_partition (success : aggregate group calls rows = .ok out) :
    ∃ groups, partition group rows = .ok groups := by
  obtain ⟨groups, fed, _⟩ := bind_eq_ok.1 success
  have keyed : ∀ row ∈ rows, ∃ key, keyOf group row = .ok key := by
    clear success
    generalize ([] : List Group) = start at fed
    induction rows generalizing start with
    | nil => exact nofun
    | cons _ _ ih =>
      obtain ⟨next, step, fed⟩ := bind_eq_ok.1 fed
      obtain ⟨key, found, _⟩ := bind_eq_ok.1 step
      exact List.forall_mem_cons.2 ⟨⟨key, found⟩, ih next fed⟩
  obtain ⟨keys, found⟩ := exists_forall₂ keyed
  exact ⟨_, bind_eq_ok.2 ⟨keys, mapM_eq_ok.2 found, rfl⟩⟩

theorem aggregate_eq_ok (success : aggregate group calls rows = .ok out) :
    ∃ groups, partition group rows = .ok groups ∧
      List.Forall₂ (fun members row => groupRow calls members = .ok row) groups out := by
  obtain ⟨groups, shared⟩ := exists_partition success
  have ends := aggregate_ends shared calls
  rw [success] at ends
  exact ⟨groups, shared, ends⟩

theorem addValues_present (added : addValues a b = .ok v) : v.isNull = false := by
  unfold addValues at added
  split at added
  · split at added <;> cases added
    rfl
  · split at added <;> cases added
    rfl

theorem addValues_integers (left : a.floats = []) (right : b.floats = []) (added : addValues a b = .ok v) :
    ∃ i j k : Int64, a = .int i ∧ b = .int j ∧ v = .int k ∧ int64? (i.toInt + j.toInt) = some k := by
  unfold addValues at added
  split at added
  · next i j =>
    split at added
    · next k bounded =>
      cases added
      exact ⟨i, j, k, rfl, rfl, rfl, bounded⟩
    · cases added
  · next integers =>
    split at added
    · next x y first second =>
      cases a <;> cases first <;> cases b <;> cases second
      · exact absurd rfl (integers _ _ rfl)
      · cases right
      · cases left
      · cases left
    · cases added

namespace Accumulator

def function : Accumulator → AggFunction
  | count _ => .count
  | sum _ => .sum
  | min _ => .min
  | max _ => .max
  | avg .. => .avg

/-- The value that is held and may be given. -/
def held : Accumulator → Option Value
  | sum v | min v | max v => v
  | count _ | avg .. => none

variable {acc acc' : Accumulator} {v : Value}

theorem function_start (f : AggFunction) : (start f).function = f := by
  cases f <;> rfl

theorem held_start (f : AggFunction) : (start f).held = none := by
  cases f <;> rfl

theorem function_addRow : acc.addRow.function = acc.function := by
  cases acc <;> rfl

/-- What a value makes of an accumulator: a count, a mean, or a held value that is the new one, the old
one, or their sum. -/
theorem add_cases (added : acc.add v = .ok acc') : acc'.function = acc.function ∧
    (acc.function = .count ∨ (∃ total n, acc' = avg total (n + 1)) ∨
      ∃ x, acc'.held = some x ∧ acc'.result = x ∧
        (x = v ∨ acc.held = some x ∨ ∃ y, acc.held = some y ∧ addValues y v = .ok x)) := by
  cases acc with
  | count =>
    cases added
    exact ⟨rfl, .inl rfl⟩
  | sum total =>
    cases total with
    | none =>
      cases added
      exact ⟨rfl, .inr (.inr ⟨v, rfl, rfl, .inl rfl⟩)⟩
    | some y =>
      obtain ⟨x, summed, added⟩ := bind_eq_ok.1 added
      cases added
      exact ⟨rfl, .inr (.inr ⟨x, rfl, rfl, .inr (.inr ⟨y, rfl, summed⟩)⟩)⟩
  | min extreme | max extreme =>
    cases added
    refine ⟨rfl, .inr (.inr ?_)⟩
    cases extreme with
    | none => exact ⟨v, rfl, rfl, .inl rfl⟩
    | some y =>
      split
      · exact ⟨v, rfl, rfl, .inl rfl⟩
      · exact ⟨y, rfl, rfl, .inr (.inl rfl)⟩
  | avg total n =>
    rw [add] at added
    split at added
    · cases added
      exact ⟨rfl, .inr (.inl ⟨_, n, rfl⟩)⟩
    · cases added

theorem held_addRow : acc.addRow.held = acc.held := by
  cases acc <;> rfl

theorem held_add {Q : Value → Prop} (here : ∀ x, acc.held = some x → Q x) (value : Q v)
    (sums : ∀ a b x, Q a → Q b → addValues a b = .ok x → Q x) (added : acc.add v = .ok acc') :
    ∀ x, acc'.held = some x → Q x := by
  intro x found
  obtain ⟨function, counts | ⟨total, n, rfl⟩ | ⟨y, holds, _, source⟩⟩ := add_cases added
  · cases acc' with
    | count => cases found
    | _ => cases function.trans counts
  · cases found
  · cases found.symm.trans holds
    rcases source with rfl | old | ⟨z, old, summed⟩
    · exact value
    · exact here x old
    · exact sums z v x (here z old) value summed

end Accumulator

theorem argument_eq_ok {index : Nat} : argument row index = .ok v ↔ row[index]? = some v := by
  unfold argument
  split <;> simp_all

/-- A row is skipped, counted, or gives one value that is not null. -/
theorem CallState.add_cases {call : AggCall} {s s' : CallState} (added : s.add call row = .ok s') :
    s' = s ∧ ((∃ i ∈ call.args, ∃ v, row[i]? = some v ∧ v.isNull = true) ∨ s.seen ≠ []) ∨
      call.args = [] ∧ s'.acc = s.acc.addRow ∨
      ∃ i ∈ call.args, ∃ v, row[i]? = some v ∧ v.isNull = false ∧ s.acc.add v = .ok s'.acc := by
  obtain ⟨args, read, added⟩ := bind_eq_ok.1 added
  have located := mapM_eq_ok.1 read
  split at added
  · next null =>
    obtain ⟨v, mem, null⟩ := List.any_eq_true.1 null
    obtain ⟨i, inside, found⟩ := exists_of_forall₂_right located mem
    cases added
    exact .inl ⟨rfl, .inl ⟨i, inside, v, argument_eq_ok.1 found, null⟩⟩
  · next present =>
    split at added
    · next seen =>
      cases added
      refine .inl ⟨rfl, .inr fun unseen => ?_⟩
      rw [unseen] at seen
      simp at seen
    · refine .inr ?_
      cases args with
      | nil =>
        cases added
        exact .inl ⟨List.forall₂_nil_right_iff.1 located, rfl⟩
      | cons v values =>
        obtain ⟨i, rest, found, _, same⟩ := List.forall₂_cons_right_iff.1 located
        obtain ⟨acc, taken, added⟩ := bind_eq_ok.1 added
        cases added
        refine .inr ⟨i, by simp [same], v, argument_eq_ok.1 found, ?_, taken⟩
        simp only [List.any_cons, Bool.or_eq_true, not_or, Bool.not_eq_true] at present
        exact present.1

section CallState

variable {call : AggCall} {members : List Row} {s : CallState} {s' : CallState}

theorem function_callState (folded : callState call members = .ok s) : s.acc.function = call.function := by
  refine foldlM_keeps (I := fun s => s.acc.function = call.function) (Accumulator.function_start _) ?_ folded
  intro row _ s s' here added
  rcases CallState.add_cases added with ⟨rfl, _⟩ | ⟨_, counted⟩ | ⟨_, _, v, _, _, taken⟩
  · exact here
  · rw [counted, Accumulator.function_addRow, here]
  · rw [(Accumulator.add_cases taken).1, here]

theorem held_callState {Q : Value → Prop} (values : ∀ row ∈ members, ∀ v ∈ row, v.isNull = false → Q v)
    (sums : ∀ a b x, Q a → Q b → addValues a b = .ok x → Q x) (folded : callState call members = .ok s) :
    ∀ x, s.acc.held = some x → Q x := by
  refine foldlM_keeps (I := fun s => ∀ x, s.acc.held = some x → Q x) ?_ ?_ folded
  · simp [CallState.start, Accumulator.held_start]
  · intro row mem s s' here added
    rcases CallState.add_cases added with ⟨rfl, _⟩ | ⟨_, counted⟩ | ⟨i, _, v, located, present, taken⟩
    · exact here
    · rw [counted, Accumulator.held_addRow]
      exact here
    · exact Accumulator.held_add here (values row mem v (List.mem_of_getElem? located) present) sums taken

theorem floats_callState (free : ∀ row ∈ members, ∀ v ∈ row, v.floats = []) (whole : call.function ≠ .avg)
    (folded : callState call members = .ok s) : s.acc.result.floats = [] := by
  have sums (a b x : Value) (left : a.floats = []) (right : b.floats = []) (added : addValues a b = .ok x) :
      x.floats = [] := by
    obtain ⟨_, _, _, _, _, rfl, _⟩ := addValues_integers left right added
    rfl
  have kept := held_callState (fun row mem v inside _ => free row mem v inside) sums folded
  have function := function_callState folded
  cases acc : s.acc with
  | count => rfl
  | avg =>
    rw [acc] at function
    exact absurd function.symm whole
  | sum held | min held | max held =>
    rw [acc] at kept
    cases held with
    | none => rfl
    | some x => exact kept x rfl

/-- What is held and what is given are not null. -/
def Filled (s : CallState) : Prop := (∀ x, s.acc.held = some x → x.isNull = false) ∧ s.acc.result.isNull = false

theorem filled_add {v : Value} (here : ∀ x, s.acc.held = some x → x.isNull = false)
    (present : v.isNull = false) (taken : s.acc.add v = .ok s'.acc) : Filled s' := by
  have held := Accumulator.held_add (Q := fun x => x.isNull = false) here present
    (fun _ _ _ _ _ => addValues_present) taken
  refine ⟨held, ?_⟩
  obtain ⟨function, counts | ⟨total, n, mean⟩ | ⟨x, holds, result, _⟩⟩ := Accumulator.add_cases taken
  · cases acc : s'.acc with
    | count => rfl
    | _ =>
      rw [acc] at function
      cases function.trans counts
  · rw [mean]
    rfl
  · rw [result]
    exact held x holds

theorem filled_step {row : Row} (here : Filled s) (added : s.add call row = .ok s') : Filled s' := by
  rcases CallState.add_cases added with ⟨rfl, _⟩ | ⟨_, counted⟩ | ⟨_, _, v, _, present, taken⟩
  · exact here
  · obtain ⟨held, result⟩ := here
    rw [Filled, counted, Accumulator.held_addRow]
    refine ⟨held, ?_⟩
    cases acc : s.acc with
    | count => rfl
    | _ =>
      rw [acc] at result
      exact result
  · exact filled_add here.1 present taken

/-- A count is never null, and another call only when its argument is null in every row. -/
theorem present_callState {first : Row} {rest : List Row} (called : call.function = .count ∨ call.args ≠ [])
    (values : call.function ≠ .count → ∀ i ∈ call.args, ∀ v, first[i]? = some v → v.isNull = false)
    (folded : callState call (first :: rest) = .ok s) : s.acc.result.isNull = false := by
  by_cases counts : call.function = .count
  · have function := (function_callState folded).trans counts
    cases acc : s.acc with
    | count => rfl
    | _ =>
      rw [acc] at function
      cases function
  · obtain ⟨s', added, folded⟩ := bind_eq_ok.1 folded
    -- The first row fills the accumulator, and no later row empties it.
    have filled : Filled s' := by
      rcases CallState.add_cases added with ⟨_, ⟨i, inside, v, located, null⟩ | seen⟩ | ⟨noArgs, _⟩ |
        ⟨_, _, v, _, present, taken⟩
      · rw [values counts i inside v located] at null
        cases null
      · exact absurd rfl seen
      · exact absurd noArgs (called.resolve_left counts)
      · exact filled_add (by simp [CallState.start, Accumulator.held_start]) present taken
    exact (foldlM_keeps filled (fun _ _ _ _ => filled_step) folded).2

end CallState

end FederatedQuery.Rows
