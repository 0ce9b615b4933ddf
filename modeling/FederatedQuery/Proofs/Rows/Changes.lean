import FederatedQuery.Proofs.Rows.Bags
import FederatedQuery.Rows.Change

/-!
What changes to a table reach. Stored rows are found by their keys, one for each input row; where the input is the rows
that were selected, exactly these are changed, each in its place.
-/
namespace FederatedQuery.Rows

section Assigned

variable {params : Bindings} {row next : Row} {assignments : List (Nat × Expr)}

/-- The value of a column after assignments over a row. The last assignment to the column counts. -/
def assigned (params : Bindings) (row : Row) (assignments : List (Nat × Expr)) (column : Nat) (old : Option Value) :
    Option Value :=
  match assignments.reverse.lookup column with
  | some source => (source.eval row params).toOption
  | none => old

theorem assign_spec (inside : ∀ a ∈ assignments, a.1 < next.length)
    (evaluates : ∀ a ∈ assignments, ∃ v, a.2.eval row params = .ok v) :
    ∃ out, assign params row assignments next = .ok out ∧ out.length = next.length ∧
      ∀ column, out[column]? = assigned params row assignments column next[column]? := by
  induction assignments generalizing next with
  | nil => exact ⟨next, rfl, rfl, fun _ => rfl⟩
  | cons a assignments ih =>
    obtain ⟨column, source⟩ := a
    obtain ⟨here, later⟩ := List.forall_mem_cons.1 inside
    obtain ⟨⟨v, value⟩, values⟩ := List.forall_mem_cons.1 evaluates
    have within : ∀ a ∈ assignments, a.1 < (next.set column v).length := by simpa using later
    obtain ⟨out, done, long, each⟩ := ih within values
    refine ⟨out, ?_, by simpa using long, fun other => ?_⟩
    · rw [assign, if_neg (Nat.not_le.2 here), value]
      exact done
    · rw [each, assigned, assigned, List.reverse_cons, List.lookup_append]
      cases assignments.reverse.lookup other with
      | some => rfl
      | none =>
        by_cases same : other = column
        · subst same
          simp [here, value, Except.toOption]
        · simp [List.lookup_cons, beq_false_of_ne same, List.getElem?_set_ne (Ne.symm same)]

end Assigned

section Selected

variable {selected : Row → Bool} {written : Row → Row} {row : Row} {rows stored : List Row} {waiting : Waiting Row}

/-- Under the key of each row waits what is written for the selected rows of that key. -/
structure Awaited (selected : Row → Bool) (written : Row → Row) (rows : List Row) (waiting : Waiting Row) : Prop where
  free : Floatless rows
  queue_eq : ∀ r ∈ rows, waiting.queue r = ((rows.filter selected).filter (r.sameKey ·)).map written

theorem awaited_ofPairs (free : Floatless stored) :
    Awaited selected written stored (.ofPairs ((stored.filter selected).map fun r => (r, written r))) := by
  refine ⟨free, fun row mem => ?_⟩
  rw [Waiting.queue_ofPairs (free row mem), List.filter_map, List.map_map]
  · rfl
  · simp only [List.forall_mem_map]
    intro p inside q _ first second
    rw [← (sameKey_iff (free row mem) (free p (List.mem_of_mem_filter inside))).1 first]
    exact second

/-- A selected row takes what is written for it, another takes nothing; the rows after it find what they await. -/
theorem Awaited.take (awaited : Awaited selected written (row :: rows) waiting) :
    (selected row = true ∧ ∃ after, waiting.take row = some (written row, after) ∧
        Awaited selected written rows after) ∨
      (selected row = false ∧ waiting.take row = none ∧ Awaited selected written rows waiting) := by
  obtain ⟨here, later⟩ := List.forall_mem_cons.1 awaited.free
  obtain ⟨mine, others⟩ := List.forall_mem_cons.1 awaited.queue_eq
  have self : row.sameKey row = true := (sameKey_iff here here).2 rfl
  cases chosen : selected row with
  | true =>
    rw [List.filter_cons_of_pos chosen, List.filter_cons_of_pos self] at mine
    obtain ⟨after, taken, left, kept⟩ := Waiting.take_of_queue_cons here mine
    refine .inl ⟨rfl, after, taken, later, fun r mem => ?_⟩
    by_cases same : r = row
    · rw [same, left]
    · have apart : ¬ r.sameKey row := mt (sameKey_iff (later r mem) here).1 same
      rw [kept r (later r mem) same, others r mem, List.filter_cons_of_pos chosen, List.filter_cons_of_neg apart]
  | false =>
    have skip : (row :: rows).filter selected = rows.filter selected := List.filter_cons_of_neg (by simp [chosen])
    refine .inr ⟨rfl, Waiting.take_of_queue_nil ?_, later, fun r mem => by rw [others r mem, skip]⟩
    rw [mine, skip, List.map_eq_nil_iff, List.filter_eq_nil_iff]
    intro r mem shared
    obtain ⟨inside, picked⟩ := List.mem_filter.1 mem
    rw [← (sameKey_iff here (later r inside)).1 shared, chosen] at picked
    cases picked

theorem replaceAll_and_removeAll (awaited : Awaited selected written rows waiting) :
    replaceAll waiting rows = (rows.map fun r => if selected r then written r else r, rows.countP selected) ∧
      removeAll waiting rows = (rows.filter fun r => !selected r, rows.countP selected) := by
  induction rows generalizing waiting with
  | nil => exact ⟨rfl, rfl⟩
  | cons _ _ ih =>
    rcases awaited.take with ⟨chosen, after, taken, left⟩ | ⟨chosen, taken, left⟩ <;>
      simp [replaceAll, removeAll, taken, ih left, chosen]

end Selected

/-- A deletion keeps what a set difference keeps. -/
theorem removeAll_eq (waiting : Waiting Row) (rows : List Row) : (removeAll waiting rows).1 = minusAll rows waiting ∧
    (removeAll waiting rows).2 + (minusAll rows waiting).length = rows.length := by
  induction rows generalizing waiting with
  | nil => exact ⟨rfl, rfl⟩
  | cons row rows ih =>
    rw [removeAll, minusAll]
    cases waiting.take row with
    | none =>
      obtain ⟨kept, long⟩ := ih waiting
      exact ⟨congrArg (row :: ·) kept, congrArg (· + 1) long⟩
    | some found =>
      obtain ⟨kept, long⟩ := ih found.2
      refine ⟨kept, ?_⟩
      dsimp only
      rw [List.length_cons, ← long]
      omega

/-- An update or a deletion of the rows that a test selects, in a table without floats, changes exactly these. A deletion
with any input removes one copy of a row for each input row of its key, while there are any; the input rows of that key
have to share it with one another. -/
theorem change_selected (params : Bindings) (stored : List Row) (free : Floatless stored) :
    (∀ selected : Row → Bool,
      (∀ columns sources,
        (∀ r ∈ stored, selected r = true → ∀ a ∈ columns.zip sources,
          a.1 < r.length ∧ ∃ v, a.2.eval r params = .ok v) →
        ∃ written : Row → Row,
          change (.update columns sources) params (stored.filter selected) stored =
            .ok (stored.map fun r => if selected r then written r else r, stored.countP selected) ∧
          ∀ r ∈ stored, selected r = true → (written r).length = r.length ∧
            ∀ column, (written r)[column]? = assigned params r (columns.zip sources) column r[column]?) ∧
      change .delete params (stored.filter selected) stored =
        .ok (stored.filter fun r => !selected r, stored.countP selected)) ∧
    ∀ input, ∃ rest n, change .delete params input stored = .ok (rest, n) ∧ rest.Sublist stored ∧
      n + rest.length = stored.length ∧
      ∀ row : Row, Value.itemFloats row = [] →
        (∀ p ∈ input, ∀ q ∈ input, row.sameKey p → row.sameKey q → p.sameKey q) →
        rest.countP (row.sameKey ·) = stored.countP (row.sameKey ·) - input.countP (row.sameKey ·) := by
  refine ⟨fun selected => ⟨fun columns sources able => ?_, ?_⟩, fun input => ?_⟩
  · choose! written done long each using fun r mem (chosen : selected r = true) =>
      assign_spec (fun a inside => (able r mem chosen a inside).1) (fun a inside => (able r mem chosen a inside).2)
    refine ⟨written, ?_, fun r mem chosen => ⟨long r mem chosen, each r mem chosen⟩⟩
    have changes : ((stored.filter selected).mapM fun row => do
        return (row, ← assign params row (columns.zip sources) row)) =
          .ok ((stored.filter selected).map fun r => (r, written r)) := by
      refine mapM_eq_ok.2 (List.forall₂_map_right_iff.2 (List.forall₂_same.2 fun r mem => ?_))
      obtain ⟨mem, chosen⟩ := List.mem_filter.1 mem
      rw [done r mem chosen]
      rfl
    rw [change, changes, ← (replaceAll_and_removeAll (awaited_ofPairs free)).1]
    rfl
  · have awaited : Awaited selected id stored (waitingRows (stored.filter selected)) := awaited_ofPairs free
    rw [change, (replaceAll_and_removeAll awaited).2]
  · obtain ⟨kept, long⟩ := removeAll_eq (waitingRows input) stored
    have sublist := minusAll_sublist stored (waitingRows input)
    refine ⟨_, _, rfl, kept ▸ sublist, by rw [kept, long], fun row here joined => ?_⟩
    have among : Floatless (minusAll stored (waitingRows input)) := fun r mem => free r (sublist.mem mem)
    rw [kept, ← count_eq_countP among here, ← count_eq_countP free here, ← length_queue_waitingRows here joined]
    exact count_minusAll free here

/-- Of four rows two are alike and become a third. One row is doomed three times, and both copies go. -/
theorem change_selected_alike :
    let params : Bindings := fun _ => none
    let field : Expr := .ref 0 .integer false
    let condition : Expr := .call .eq [field, .lit (.int 1)] .boolean
    let stored : List Row := [[.int 1, .int 5], [.int 2, .int 6], [.int 1, .int 5], [.int 2, .int 5]]
    let selected : Row → Bool := fun r => (condition.test r params).toOption.getD false
    change (.update [0] [.call .plus [field, .lit (.int 1)] .integer]) params (stored.filter selected) stored =
        .ok ([[.int 2, .int 5], [.int 2, .int 6], [.int 2, .int 5], [.int 2, .int 5]], 2) ∧
      change .delete params (stored.filter selected) stored = .ok ([[.int 2, .int 6], [.int 2, .int 5]], 2) ∧
      ∃ rest n, change .delete params (List.replicate 3 [.int 1, .int 5]) stored = .ok (rest, n) ∧
        rest.countP (Row.sameKey [.int 1, .int 5] ·) = 2 - 3 := by
  intro params field condition stored selected
  obtain ⟨chosen, doomed⟩ := change_selected params stored (by decide)
  obtain ⟨updates, deletes⟩ := chosen selected
  obtain ⟨written, changed, each⟩ := updates [0] [.call .plus [field, .lit (.int 1)] .integer] (by
    intro r mem here a inside
    rw [List.mem_singleton.1 inside]
    simp only [stored, List.mem_cons, List.not_mem_nil, or_false] at mem
    rcases mem with rfl | rfl | rfl | rfl <;> exact ⟨Nat.zero_lt_succ _, _, rfl⟩)
  have made : written [.int 1, .int 5] = [.int 2, .int 5] := by
    refine List.ext_getElem? fun column => ((each _ List.mem_cons_self rfl).2 column).trans ?_
    rcases column with _ | _ | _ <;> rfl
  have result : (stored.map fun r => if selected r then written r else r) =
      [written [.int 1, .int 5], [.int 2, .int 6], written [.int 1, .int 5], [.int 2, .int 5]] := rfl
  refine ⟨changed.trans (by rw [result, made]; rfl), deletes, ?_⟩
  obtain ⟨rest, n, done, _, _, counts⟩ := doomed (List.replicate 3 [.int 1, .int 5])
  refine ⟨rest, n, done, counts _ rfl ?_⟩
  decide

/-- Both zeros have the key of the integer and not of each other, so they wait apart, and one row stays. -/
theorem change_delete_zeros :
    let stored : List Row := [[.int 0], [.int 0]]
    let input : List Row := [[.float (.zero false)], [.float (.zero true)]]
    (∀ r ∈ stored, stored.countP (r.sameKey ·) = 2 ∧ input.countP (r.sameKey ·) = 2) ∧
      change .delete (fun _ => none) input stored = .ok ([[.int 0]], 1) := by
  have shared (negative : Bool) : Row.sameKey [.int 0] [.float (.zero negative)] = true := by
    cases negative <;> decide +kernel
  have apart : Row.sameKey [.float (.zero true)] [.float (.zero false)] = false := by decide +kernel
  refine ⟨by decide +kernel, ?_⟩
  simp [change, waitingRows, Waiting.ofPairs, Waiting.put, removeAll, Waiting.take, shared, apart]

end FederatedQuery.Rows
