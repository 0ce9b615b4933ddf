import FederatedQuery.Foreign.Executor
import FederatedQuery.Proofs.Cursor.Follows

/-!
Cursors whose worlds hold more than is needed. One cursor projects onto another when every call on the one is the same
call on the other, seen through a function on the states and a function on the worlds. Each way to build cursors from
others keeps that, so no use of the cursor tells the two apart.
-/
namespace FederatedQuery

/-- What can be done with a cursor: what a reader asks, and closing it. -/
inductive Use where
  | call (call : Call)
  | close
deriving DecidableEq

/-- What comes back of a use. -/
inductive Reply where
  | answered (answer : Answer)
  | closed (done : Except Error Unit)

/-- An outcome, seen through functions on states and worlds. -/
def Outcome.map {V W S T α : Type} (f : S → T) (g : V → W) (o : Outcome V S α) : Outcome W T α :=
  ⟨o.result, f o.state, g o.world⟩

/-- What is done to the inputs of a buffer is done to the buffer. -/
def Buffer.map {S T : Type} (h : S → T) : Buffer S → Buffer T
  | unbuilt s => unbuilt (h s)
  | built s rows p => built (h s) rows p
  | closed => closed

def Concatenating.map {S S' T T' : Type} (h : S → S') (k : T → T') (s : Concatenating S T) : Concatenating S' T' :=
  ⟨h s.left, k s.right, s.side, s.phase⟩

def Unwinding.map {S T : Type} (h : S → T) : Unwinding S → Unwinding T
  | unstarted s => unstarted (h s)
  | on s rows => on (h s) rows
  | exhausted s => exhausted (h s)
  | closed => closed

def Foreign.Opening.map {S T : Type} (h : S → T) : Foreign.Opening S → Foreign.Opening T
  | unopened => unopened
  | opened s p => opened (h s) p
  | closed => closed

namespace Cursor

variable {V W : Type}

/-- The reply to a use, and the state and the world that it leaves. -/
def serve (c : Cursor W) (s : c.State) (w : W) : Use → Reply × c.State × W
  | .call call =>
    let answered := c.answer s w call
    (.answered answered.1, answered.2)
  | .close => (.closed (c.close s w).result, (c.close s w).state, (c.close s w).world)

/-- The replies to uses that are made one after the other, and what they leave. -/
def serveAll (c : Cursor W) (s : c.State) (w : W) : List Use → List Reply × c.State × W
  | [] => ([], s, w)
  | use :: rest =>
    let first := c.serve s w use
    let later := c.serveAll first.2.1 first.2.2 rest
    (first.1 :: later.1, later.2)

theorem serveAll_next_transformed {input : Cursor W} {f : List Row → W → Except Error (List Row) × W}
    {s s' : input.State} {w w' w'' : W} {rows made : List Row} (drained : input.drain s w = ⟨.ok rows, s', w'⟩)
    (transforms : f rows w' = (.ok made, w'')) (rest : List Use) :
    ((input.transformed f).serveAll (.unbuilt s) w (.call .next :: rest)).2.2 =
      ((input.transformed f).serveAll (.built s' made (.front made)) w'' rest).2.2 := by
  have built : (input.transformed f).next (.unbuilt s) w =
      ⟨.ok (Position.front made).isOn, .built s' made (.front made), w''⟩ := by
    simp only [transformed, buffered, drained, transforms]
  simp only [serveAll, serve, Cursor.answer, built]

/-- Every call on one cursor is, through the functions on states and worlds, the same call on another. -/
structure Projects (r : Cursor V) (c : Cursor W) (f : r.State → c.State) (g : V → W) : Prop where
  start : f r.start = c.start
  next (s : r.State) (w : V) : c.next (f s) (g w) = (r.next s w).map f g
  current (s : r.State) : c.current (f s) = r.current s
  reset (s : r.State) (w : V) : c.reset (f s) (g w) = (r.reset s w).map f g
  close (s : r.State) (w : V) : c.close (f s) (g w) = (r.close s w).map f g

/-- A cursor cannot be told from another in a world with less in it. -/
def Onto (g : V → W) (r : Cursor V) (c : Cursor W) : Prop := ∃ f, r.Projects c f g

section Projects

variable {r : Cursor V} {c : Cursor W} {f : r.State → c.State} {g : V → W}

section

variable (projects : r.Projects c f g)

include projects

theorem Projects.serve (s : r.State) (w : V) (use : Use) :
    c.serve (f s) (g w) use = ((r.serve s w use).1, f (r.serve s w use).2.1, g (r.serve s w use).2.2) := by
  cases use with
  | close => rw [Cursor.serve, projects.close]; rfl
  | call call =>
    cases call with
    | next => rw [Cursor.serve, answer, projects.next]; rfl
    | current => rw [Cursor.serve, answer, projects.current]; rfl
    | reset => rw [Cursor.serve, answer, projects.reset]; rfl

theorem Projects.serveAll (s : r.State) (w : V) (uses : List Use) :
    c.serveAll (f s) (g w) uses =
      ((r.serveAll s w uses).1, f (r.serveAll s w uses).2.1, g (r.serveAll s w uses).2.2) := by
  induction uses generalizing s w with
  | nil => rfl
  | cons _ _ ih => simp only [Cursor.serveAll, projects.serve, ih]

theorem Projects.next_of_result {s : r.State} {w : V} {result : Except Error Bool}
    (advanced : (r.next s w).result = result) :
    c.next (f s) (g w) = ⟨result, f (r.next s w).state, g (r.next s w).world⟩ := by
  rw [projects.next, Outcome.map, advanced]

theorem Projects.pull {β : Type} (q : Row → Except Error (Option β)) (s : r.State)
    (w : V) : c.pull q (f s) (g w) = (r.pull q s w).map f g := by
  fun_induction Cursor.pull r q s w with
  | case1 s w o e failed => exact pull_of_fail (projects.next_of_result failed)
  | case2 s w o ended => exact pull_of_done (projects.next_of_result ended)
  | case3 s w o advanced e unread =>
    exact pull_of_unread (projects.next_of_result advanced) ((projects.current _).trans unread)
  | case4 s w o advanced row read e failed =>
    rw [pull_of_row (projects.next_of_result advanced) ((projects.current _).trans read), failed]
    rfl
  | case5 s w o advanced row read b made =>
    rw [pull_of_row (projects.next_of_result advanced) ((projects.current _).trans read), made]
    rfl
  | case6 s w o advanced row read skipped ih =>
    rw [pull_of_row (projects.next_of_result advanced) ((projects.current _).trans read), skipped]
    exact ih

theorem Projects.drain (s : r.State) (w : V) : c.drain (f s) (g w) = (r.drain s w).map f g := by
  fun_induction Cursor.drain r s w with
  | case1 s w o e failed => exact drain_fail (projects.next_of_result failed)
  | case2 s w o ended => exact drain_done (projects.next_of_result ended)
  | case3 s w o advanced e unread =>
    exact drain_unread (projects.next_of_result advanced) ((projects.current _).trans unread)
  | case4 s w o advanced row read rest ih =>
    exact drain_row (projects.next_of_result advanced) ((projects.current _).trans read) ih

theorem Projects.collect (s : r.State) (w : V) : c.collect (f s) (g w) = ((r.collect s w).1, g (r.collect s w).2) := by
  simp only [Cursor.collect, projects.drain, projects.close, Outcome.map]

end

/-- From its start on, a cursor replies as the one with the larger world, and leaves what that leaves. -/
theorem Onto.serveAll (onto : Onto g r c) (w : V) (uses : List Use) :
    (c.serveAll c.start (g w) uses).1 = (r.serveAll r.start w uses).1 ∧
      (c.serveAll c.start (g w) uses).2.2 = g (r.serveAll r.start w uses).2.2 := by
  obtain ⟨f, projects⟩ := onto
  rw [← projects.start, projects.serveAll]
  exact ⟨rfl, rfl⟩

theorem Onto.collect (onto : Onto g r c) (w : V) (uses : List Use) :
    c.collect (c.serveAll c.start (g w) uses).2.1 (c.serveAll c.start (g w) uses).2.2 =
      ((r.collect (r.serveAll r.start w uses).2.1 (r.serveAll r.start w uses).2.2).1,
        g (r.collect (r.serveAll r.start w uses).2.1 (r.serveAll r.start w uses).2.2).2) := by
  obtain ⟨f, projects⟩ := onto
  rw [← projects.start, projects.serveAll]
  exact projects.collect _ _

end Projects

variable {g : V → W}

theorem Onto.ofRows (rows : List Row) : Onto g (ofRows rows) (ofRows rows) := by
  refine ⟨id, rfl, ?_, fun _ => rfl, ?_, fun _ _ => rfl⟩
  · rintro (_ | p) w <;> rfl
  · rintro (_ | p) w <;> rfl

section Buffered

variable {S T : Type} {inputs : S} {build : S → V → Outcome V S (List Row)} {closeInputs : S → V → Outcome V S Unit}
  {build' : T → W → Outcome W T (List Row)} {closeInputs' : T → W → Outcome W T Unit}

theorem Onto.buffered (h : S → T) (built : ∀ s w, build' (h s) (g w) = (build s w).map h g)
    (closed : ∀ s w, closeInputs' (h s) (g w) = (closeInputs s w).map h g) :
    Onto g (buffered inputs build closeInputs) (buffered (h inputs) build' closeInputs') := by
  refine ⟨Buffer.map h, rfl, ?_, ?_, ?_, ?_⟩
  · rintro (s | ⟨s, rows, p⟩ | _) w
    · simp only [Cursor.buffered, Buffer.map, built, Outcome.map]
      cases (build s w).result <;> rfl
    · rfl
    · rfl
  · rintro (s | ⟨s, rows, p⟩ | _) <;> rfl
  · rintro (s | ⟨s, rows, p⟩ | _) w <;> rfl
  · rintro (s | ⟨s, rows, p⟩ | _) w
    · simp only [Cursor.buffered, Buffer.map, closed]
      rfl
    · simp only [Cursor.buffered, Buffer.map, closed]
      rfl
    · rfl

end Buffered

section Inputs

variable {r q : Cursor V} {c d : Cursor W} {h : r.State → c.State} {k : q.State → d.State}

theorem Onto.transformed {f : List Row → V → Except Error (List Row) × V}
    {f' : List Row → W → Except Error (List Row) × W} (onto : Onto g r c)
    (same : ∀ rows w, f' rows (g w) = ((f rows w).1, g (f rows w).2)) :
    Onto g (r.transformed f) (c.transformed f') := by
  obtain ⟨h, projects⟩ := onto
  rw [Cursor.transformed, Cursor.transformed, ← projects.start]
  refine .buffered h (fun s w => ?_) projects.close
  rw [projects.drain, Outcome.map]
  dsimp only
  cases (r.drain s w).result with
  | error => rfl
  | ok => simp only [same, Outcome.map]

theorem Projects.closeBoth (first : r.Projects c h g) (second : q.Projects d k g) (s : r.State) (t : q.State) (w : V) :
    c.closeBoth d (h s) (k t) (g w) = (r.closeBoth q s t w).map (Prod.map h k) g := by
  simp only [Cursor.closeBoth, first.close, second.close, Outcome.map, Prod.map]

theorem Projects.drainBoth (first : r.Projects c h g) (second : q.Projects d k g) (s : r.State × q.State) (w : V) :
    c.drainBoth d (Prod.map h k s) (g w) = (r.drainBoth q s w).map (Prod.map h k) g := by
  simp only [Cursor.drainBoth, Prod.map, first.drain, Outcome.map]
  cases (r.drain s.1 w).result with
  | error => rfl
  | ok => simp only [second.drain, Outcome.map]

theorem Onto.merged (f : List Row → List Row → Except Error (List Row)) (first : Onto g r c) (second : Onto g q d) :
    Onto g (r.merged q f) (c.merged d f) := by
  obtain ⟨h, first⟩ := first
  obtain ⟨k, second⟩ := second
  rw [Cursor.merged, Cursor.merged, ← first.start, ← second.start]
  refine .buffered (Prod.map h k) (fun s w => ?_) (fun s w => first.closeBoth second s.1 s.2 w)
  simp only [first.drainBoth second, Outcome.map]

section Concatenated

variable {h : r.State → c.State} {k : q.State → d.State}

theorem Projects.nextRight (second : q.Projects d k g) (s : Concatenating r.State q.State) (w : V) :
    c.nextRight d (s.map h k) (g w) = (r.nextRight q s w).map (Concatenating.map h k) g := by
  simp only [Cursor.nextRight, Concatenating.map, second.next, Outcome.map]
  cases (q.next s.right w).result with
  | error => rfl
  | ok found => cases found <;> rfl

theorem Projects.nextLeft (first : r.Projects c h g) (second : q.Projects d k g) (s : Concatenating r.State q.State)
    (w : V) : c.nextLeft d (s.map h k) (g w) = (r.nextLeft q s w).map (Concatenating.map h k) g := by
  simp only [Cursor.nextLeft, Concatenating.map, first.next, Outcome.map]
  cases (r.next s.left w).result with
  | error => rfl
  | ok found =>
    cases found with
    | true => rfl
    | false => exact second.nextRight ⟨_, s.right, s.side, s.phase⟩ _

theorem Projects.concatenated (first : r.Projects c h g) (second : q.Projects d k g) :
    (r.concatenated q).Projects (c.concatenated d) (Concatenating.map h k) g where
  start := by simp only [Cursor.concatenated, Concatenating.map, first.start, second.start]
  next s w := by
    obtain ⟨left, right, side, phase⟩ := s
    simp only [Cursor.concatenated, Concatenating.map]
    split
    · rfl
    · cases side with
      | left => exact first.nextLeft second ⟨left, right, .left, phase⟩ w
      | right => exact second.nextRight ⟨left, right, .right, phase⟩ w
      | done => rfl
  current s := by simp only [Cursor.concatenated, Concatenating.map, first.current, second.current]
  reset s w := by
    simp only [Cursor.concatenated, Concatenating.map]
    split
    · rfl
    · simp only [first.reset, Outcome.map]
      cases (r.reset s.left w).result with
      | error => rfl
      | ok =>
        simp only [second.reset, Outcome.map]
        cases (q.reset s.right (r.reset s.left w).world).result <;> rfl
  close s w := by
    simp only [Cursor.concatenated, Concatenating.map]
    split
    · rfl
    · simp only [first.closeBoth second]
      rfl

end Concatenated

theorem Onto.concatenated (first : Onto g r c) (second : Onto g q d) :
    Onto g (r.concatenated q) (c.concatenated d) := by
  obtain ⟨h, first⟩ := first
  obtain ⟨k, second⟩ := second
  exact ⟨_, first.concatenated second⟩

theorem Onto.distinguished (onto : Onto g r c) : Onto g r.distinguished c.distinguished := by
  obtain ⟨h, projects⟩ := onto
  refine ⟨fun s => ⟨h s.input, s.seen, s.row, s.phase⟩, ?_, fun s w => ?_, fun s => rfl, fun s w => ?_, fun s w => ?_⟩
  · simp only [Cursor.distinguished, projects.start]
  · simp only [Cursor.distinguished]
    split
    · rfl
    · simp only [projects.pull, Outcome.map]
      generalize r.pull _ s.input w = o
      obtain ⟨_ | _ | row, t, v⟩ := o <;> rfl
  · simp only [Cursor.distinguished]
    split
    · rfl
    · simp only [projects.reset, Outcome.map]
      cases (r.reset s.input w).result <;> rfl
  · simp only [Cursor.distinguished]
    split
    · rfl
    · simp only [projects.close]
      rfl

theorem Onto.combined (op : SetOp) (all : Bool) (first : Onto g r c) (second : Onto g q d) :
    Onto g (combined op all r q) (combined op all c d) := by
  unfold Cursor.combined
  split
  · exact first.concatenated second
  · exact (first.concatenated second).distinguished
  · exact first.merged _ second

variable (program : Program) (params : Bindings)

theorem Projects.accept (projects : r.Projects c h g) (s : r.State) (w : V) :
    c.accept program params (h s) (g w) = (r.accept program params s w).map h g := by
  unfold Cursor.accept
  cases program.condition with
  | none => exact projects.next s w
  | some => simp only [projects.pull, Outcome.map]

theorem Onto.calculated (onto : Onto g r c) : Onto g (r.calculated program params) (c.calculated program params) := by
  obtain ⟨h, projects⟩ := onto
  refine ⟨fun s => (h s.1, s.2), ?_, ?_, ?_, ?_, ?_⟩
  · simp only [Cursor.calculated, projects.start]
  · rintro ⟨s, p⟩ w
    simp only [Cursor.calculated]
    split
    · rfl
    · simp only [projects.accept, Outcome.map]
      cases (r.accept program params s w).result <;> rfl
  · rintro ⟨s, p⟩
    simp only [Cursor.calculated, projects.current]
  · rintro ⟨s, p⟩ w
    simp only [Cursor.calculated]
    split
    · rfl
    · simp only [projects.reset, Outcome.map]
      cases (r.reset s w).result <;> rfl
  · rintro ⟨s, p⟩ w
    simp only [Cursor.calculated]
    split
    · rfl
    · simp only [projects.close]
      rfl

theorem Onto.unwound (position : Nat) (onto : Onto g r c) :
    Onto g (r.unwound program position params) (c.unwound program position params) := by
  obtain ⟨h, projects⟩ := onto
  have refill (stay : r.State → Unwinding r.State) (stay' : c.State → Unwinding c.State)
      (kept : ∀ s, stay' (h s) = (stay s).map h) (s : r.State) (w : V) :
      c.refill program position params stay' (h s) (g w) =
        (r.refill program position params stay s w).map (Unwinding.map h) g := by
    simp only [Cursor.refill, projects.pull, Outcome.map]
    generalize r.pull _ s w = o
    obtain ⟨e | _ | rows, t, v⟩ := o
    · simp only [kept]
    · rfl
    · rfl
  refine ⟨Unwinding.map h, ?_, ?_, ?_, ?_, ?_⟩
  · simp only [Cursor.unwound, Unwinding.map, projects.start]
  · rintro (s | ⟨s, rows⟩ | s | _) w
    · exact refill _ _ (fun _ => rfl) s w
    · obtain _ | ⟨row, _ | ⟨next, rest⟩⟩ := rows
      · exact refill (.on · []) (.on · []) (fun _ => rfl) s w
      · exact refill (.on · []) (.on · []) (fun _ => rfl) s w
      · rfl
    · rfl
    · rfl
  · rintro (s | ⟨s, _ | ⟨row, rows⟩⟩ | s | _) <;> rfl
  · rintro (s | ⟨s, rows⟩ | s | _) w
    all_goals try rfl
    all_goals
      simp only [Cursor.unwound, Unwinding.map, projects.reset, Outcome.map]
      cases (r.reset s w).result <;> rfl
  · rintro (s | ⟨s, rows⟩ | s | _) w
    all_goals try rfl
    all_goals
      simp only [Cursor.unwound, Unwinding.map, projects.close]
      rfl

end Inputs

section Opened

open Foreign

variable {e : Executor V} {d : Executor W} {h : e.cursor.State → d.cursor.State}

theorem Projects.advanceOpened (projects : e.cursor.Projects d.cursor h g) (s : e.cursor.State) (p : Phase) (w : V) :
    advanceOpened d.cursor (h s) p (g w) = (advanceOpened e.cursor s p w).map (Opening.map h) g := by
  simp only [Foreign.advanceOpened, projects.next, Outcome.map]
  cases (e.cursor.next s w).result <;> rfl

theorem Projects.open (projects : e.cursor.Projects d.cursor h g) {a : Artifact} {ctx : Context}
    (launched : ∀ w, d.launch a ctx (g w) = ((e.launch a ctx w).1.map h, g (e.launch a ctx w).2)) :
    (e.open a ctx).Projects (d.open a ctx) (Opening.map h) g where
  start := rfl
  next s w := by
    cases s with
    | unopened =>
      simp only [Executor.open, Opening.map, launched]
      obtain ⟨err | s, v⟩ := e.launch a ctx w
      · rfl
      · exact projects.advanceOpened s .unstarted v
    | opened s p => exact projects.advanceOpened s p w
    | closed => rfl
  current s := by
    cases s with
    | unopened | closed => rfl
    | opened => simp only [Executor.open, Opening.map, projects.current]
  reset s w := by
    cases s with
    | unopened | closed => rfl
    | opened s p =>
      simp only [Executor.open, Opening.map, projects.reset, Outcome.map]
      cases (e.cursor.reset s w).result <;> rfl
  close s w := by
    cases s with
    | unopened | closed => rfl
    | opened =>
      simp only [Executor.open, Opening.map, projects.close]
      rfl

end Opened

end Cursor

end FederatedQuery
