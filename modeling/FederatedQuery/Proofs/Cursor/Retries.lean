import FederatedQuery.Cursor.Combine
import FederatedQuery.Proofs.Error.Outcome

/-!
Advances after a failure. An operator that needs all rows of its inputs pulls them at its first advance, and again at
the next one when that failed. The inputs have moved on, so what it serves in the end is made of the rows that came
after the last failure; the rows before it are lost.
-/
namespace FederatedQuery.Cursor

variable {W S α : Type}

/-- What a reader that pulls all rows reads at each row that the cursor comes to. -/
def reads (c : Cursor W) (s : c.State) (w : W) : List (Except Error Row) :=
  match _advanced : (c.next s w).result with
  | .ok true => match c.current (c.next s w).state with
    | .ok row => .ok row :: reads c (c.next s w).state (c.next s w).world
    | .error e => [.error e]
  | _ => []
termination_by c.finite.wrap s
decreasing_by exact ⟨w, _advanced, rfl⟩

/-- What is read of the second of two cursors, which is pulled only when the first came without a failure. -/
def readsAfter (c d : Cursor W) (s : c.State × d.State) (w : W) : List (Except Error Row) :=
  match (c.drain s.1 w).result with
  | .ok _ => d.reads s.2 (c.drain s.1 w).world
  | .error _ => []

/-- What is read of an input in attempts to pull it, one in each world. -/
def delivered (pull : S → W → Outcome W S α) (read : S → W → List (Except Error Row)) :
    S → List W → List (Except Error Row)
  | _, [] => []
  | s, w :: worlds => read s w ++ delivered pull read (pull s w).state worlds

/-- The answers to advances, one in each world: whether there is a row, and what is read there. -/
def served (c : Cursor W) : c.State → List W → List (Except Error Bool × Except Error Row)
  | _, [] => []
  | s, w :: worlds => ((c.next s w).result, c.current (c.next s w).state) :: served c (c.next s w).state worlds

theorem served_of_next {c : Cursor W} {s s' : c.State} {w w' : W} {found : Except Error Bool} (worlds : List W)
    (advanced : c.next s w = ⟨found, s', w'⟩) :
    c.served s (w :: worlds) = (found, c.current s') :: c.served s' worlds := by
  rw [served, advanced]

/-- Some advances fail, and from then on a cursor answers as a list of rows does. What these rows have to do with
the failed attempts and with the one that succeeded is left open. -/
def Serves (c : Cursor W) (s : c.State) (worlds : List W) (P : List W → W → List Row → Prop) : Prop :=
  ∃ failed later failures rows, worlds = failed ++ later ∧ failures.length = failed.length ∧
    (∀ answer ∈ failures, answer.1.isOk = false) ∧
    c.served s worlds = failures ++ (ofRows rows).served (ofRows rows : Cursor W).start later ∧
    ∀ w rest, later = w :: rest → P failed w rows

/-- What an operator is given of an input after failed attempts comes after what they have read of it, and is all that
the input gives exactly when they have read nothing. -/
structure GivenLast (all : List W → List (Except Error Row)) (failed : List W) (w : W) (given : List Row) : Prop where
  append : all (failed ++ [w]) = all failed ++ given.map .ok
  complete_iff : given.map .ok = all (failed ++ [w]) ↔ all failed = []

theorem delivered_concat (pull : S → W → Outcome W S α) (read : S → W → List (Except Error Row)) (s : S)
    (worlds : List W) (w : W) : delivered pull read s (worlds ++ [w]) =
      delivered pull read s worlds ++ read (worlds.foldl (fun s w => (pull s w).state) s) w := by
  induction worlds generalizing s with
  | nil => exact List.append_nil _
  | cons _ _ ih => rw [List.cons_append, delivered, ih, delivered, List.append_assoc, List.foldl_cons]

theorem givenLast_delivered {pull : S → W → Outcome W S α} {read : S → W → List (Except Error Row)} {s : S}
    {failed : List W} {w : W} {given : List Row}
    (here : read (failed.foldl (fun s w => (pull s w).state) s) w = given.map .ok) :
    GivenLast (delivered pull read s) failed w given := by
  have whole := delivered_concat pull read s failed w
  rw [here] at whole
  refine ⟨whole, ?_⟩
  rw [whole, List.self_eq_append_left]

theorem reads_of_drain (c : Cursor W) (s : c.State) (w : W) :
    ∀ rows, (c.drain s w).result = .ok rows → c.reads s w = rows.map .ok := by
  fun_induction drain c s w with
  | case1 | case3 =>
    intro rows drained
    cases drained
  | case2 s w o ended =>
    intro rows drained
    cases drained
    rw [reads, ended]
    rfl
  | case4 s w o advanced row read rest ih =>
    intro rows drained
    obtain ⟨others, below, rfl⟩ := map_eq_ok.1 drained
    rw [reads, advanced]
    rw [read, ih others below]
    rfl

theorem reads_of_drainBoth {c d : Cursor W} {s : c.State × d.State} {w : W} {given : List Row × List Row}
    (drained : (c.drainBoth d s w).result = .ok given) :
    c.reads s.1 w = given.1.map .ok ∧ c.readsAfter d s w = given.2.map .ok := by
  unfold drainBoth at drained
  unfold readsAfter
  cases first : (c.drain s.1 w).result with
  | error =>
    simp only [first] at drained
    cases drained
  | ok left =>
    simp only [first] at drained
    obtain ⟨right, second, rfl⟩ := map_eq_ok.1 drained
    exact ⟨reads_of_drain c _ _ left first, reads_of_drain d _ _ right second⟩

section Buffered

variable {inputs s : S} {build : S → W → Outcome W S (List Row)} {closeInputs : S → W → Outcome W S Unit}

theorem served_built (rows : List Row) (p : Position) (worlds : List W) :
    (buffered inputs build closeInputs).served (.built s rows p) worlds =
      (ofRows rows : Cursor W).served (some p) worlds := by
  induction worlds generalizing p with
  | nil => rfl
  | cons _ _ ih => exact congrArg (List.cons _) (ih (p.advance rows))

/-- Failed attempts leave the inputs where they are, and the first successful one fixes the rows. -/
theorem serves_buffered (pull : S → W → Outcome W S α) (f : α → Except Error (List Row))
    (moves : ∀ s w, (build s w).state = (pull s w).state)
    (makes : ∀ s w, (build s w).result = (pull s w).result.bind f) {P : List W → W → List Row → Prop}
    (holds : ∀ failed w given rows, (pull (failed.foldl (fun s w => (pull s w).state) s) w).result = .ok given →
      f given = .ok rows → P failed w rows) (worlds : List W) :
    (buffered inputs build closeInputs).Serves (.unbuilt s) worlds P := by
  induction worlds generalizing s P with
  | nil => exact ⟨[], [], [], [], rfl, rfl, List.forall_mem_nil _, rfl, by simp⟩
  | cons w worlds ih =>
    cases built : (build s w).result with
    | ok rows =>
      have next : (buffered inputs build closeInputs).next (.unbuilt s) w =
          ⟨.ok (Position.front rows).isOn, .built (build s w).state rows (.front rows), (build s w).world⟩ := by
        simp only [buffered, built]
      refine ⟨[], w :: worlds, [], rows, rfl, rfl, List.forall_mem_nil _, ?_, ?_⟩
      · exact (served_of_next worlds next).trans (congrArg (_ :: ·) (served_built ..))
      · rintro _ _ ⟨rfl, rfl⟩
        obtain ⟨given, pulled, made⟩ := bind_eq_ok.1 ((makes s w).symm.trans built)
        exact holds [] w given rows pulled made
    | error e =>
      have next : (buffered inputs build closeInputs).next (.unbuilt s) w =
          ⟨.error e, .unbuilt (build s w).state, (build s w).world⟩ := by
        simp only [buffered, built]
      obtain ⟨failed, later, failures, rows, rfl, long, errors, same, last⟩ := ih fun failed' w' given rows pulled =>
        holds (w :: failed') w' given rows (by rwa [List.foldl_cons, ← moves])
      refine ⟨w :: failed, later, _ :: failures, rows, rfl, congrArg (· + 1) long,
        List.forall_mem_cons.2 ⟨?_, errors⟩, (served_of_next _ next).trans (congrArg (_ :: ·) same), last⟩
      rfl

end Buffered

/-- An operator with one input (a sort, an aggregation) or with two (a join, an intersection, a difference) serves what
it makes of the rows that its inputs give in the first advance that succeeds. -/
theorem serves_given_last (worlds : List W) :
    (∀ (input : Cursor W) (f : List Row → Except Error (List Row)),
      let c := input.transformed fun rows w => (f rows, w)
      c.Serves c.start worlds fun failed w rows => ∃ given, f given = .ok rows ∧
        GivenLast (delivered input.drain input.reads input.start) failed w given) ∧
    ∀ (left right : Cursor W) (f : List Row → List Row → Except Error (List Row)),
      let c := left.merged right f
      let all := fun read => delivered (left.drainBoth right) read (left.start, right.start)
      c.Serves c.start worlds fun failed w rows => ∃ first second, f first second = .ok rows ∧
        GivenLast (all fun s => left.reads s.1) failed w first ∧
        GivenLast (all (left.readsAfter right)) failed w second := by
  refine ⟨fun input f => ?_, fun left right f => ?_⟩
  · refine serves_buffered input.drain f ?_ ?_ (fun failed w given rows drained made => ?_) worlds
    · intro s w
      dsimp only
      split <;> rfl
    · intro s w
      dsimp only
      split <;> simp_all [Except.bind]
    · exact ⟨given, made, givenLast_delivered (reads_of_drain _ _ _ _ drained)⟩
  · refine serves_buffered (left.drainBoth right) (fun given => f given.1 given.2) (fun _ _ => rfl) (fun _ _ => rfl)
      (fun failed w given rows drained made => ?_) worlds
    obtain ⟨first, second⟩ := reads_of_drainBoth drained
    exact ⟨given.1, given.2, made, givenLast_delivered first, givenLast_delivered second⟩

end FederatedQuery.Cursor
