import FederatedQuery.Error.Basic

/-!
Cursors: machines that give rows one at a time. A call takes the state of the cursor and the state of
the world around it, and gives both back with its result, also when it fails. The world is whatever the
rows come from and go to.

A cursor never advances forever: the states that successful advances lead through are well-founded,
whatever the world does in between. Pulling rows until one fits, and pulling all rows, recurse on that
relation.
-/
namespace FederatedQuery

/-- What a call leaves behind. -/
structure Outcome (W S α : Type) where
  result : Except Error α
  state : S
  world : W

/-- Succeeds only on a row. -/
def Phase.onRow (p : Phase) : Except Error Unit :=
  if p = .positioned then .ok () else .error (.contract (.noCurrentRow p))

namespace Outcome

variable {W S T α β : Type}

/-- The same outcome of a machine that this one is a part of. -/
def lift (f : S → T) (o : Outcome W S α) : Outcome W T α := ⟨o.result, f o.state, o.world⟩

end Outcome

structure Cursor (W : Type) where
  State : Type
  start : State
  /-- Advances; false past the last row. -/
  next : State → W → Outcome W State Bool
  current : State → Except Error Row
  /-- Goes back before the first row. -/
  reset : State → W → Outcome W State Unit
  close : State → W → Outcome W State Unit
  /-- There is no endless chain of successful advances. -/
  finite : WellFounded fun s' s => ∃ w, (next s w).result = .ok true ∧ (next s w).state = s'

namespace Cursor

variable {W β : Type}

def closedError (call : String) : Error := .contract (.closedCursor call)

/-- One state is reached from another by a successful advance. -/
def Advances (c : Cursor W) (s' s : c.State) : Prop :=
  ∃ w, (c.next s w).result = .ok true ∧ (c.next s w).state = s'

/-- Advances to the first row of which the function makes something; none when there is no such row. -/
def pull (c : Cursor W) (f : Row → Except Error (Option β)) (s : c.State) (w : W) :
    Outcome W c.State (Option β) :=
  let o := c.next s w
  match _advanced : o.result with
  | .error e => ⟨.error e, o.state, o.world⟩
  | .ok false => ⟨.ok none, o.state, o.world⟩
  | .ok true =>
    match c.current o.state with
    | .error e => ⟨.error e, o.state, o.world⟩
    | .ok row =>
      match f row with
      | .error e => ⟨.error e, o.state, o.world⟩
      | .ok (some b) => ⟨.ok (some b), o.state, o.world⟩
      | .ok none => pull c f o.state o.world
termination_by c.finite.wrap s
decreasing_by exact ⟨w, _advanced, rfl⟩

def drain (c : Cursor W) (s : c.State) (w : W) : Outcome W c.State (List Row) :=
  let o := c.next s w
  match _advanced : o.result with
  | .error e => ⟨.error e, o.state, o.world⟩
  | .ok false => ⟨.ok [], o.state, o.world⟩
  | .ok true =>
    match c.current o.state with
    | .error e => ⟨.error e, o.state, o.world⟩
    | .ok row =>
      let rest := drain c o.state o.world
      ⟨rest.result.map (row :: ·), rest.state, rest.world⟩
termination_by c.finite.wrap s
decreasing_by exact ⟨w, _advanced, rfl⟩

/-- Pulls every row and closes the cursor. A failure to pull is reported before a failure to close. -/
def collect (c : Cursor W) (s : c.State) (w : W) : Except Error (List Row) × W :=
  let drained := c.drain s w
  let closed := c.close drained.state drained.world
  (do let rows ← drained.result; closed.result; return rows, closed.world)

/-- Closes two cursors, the second one also when the first fails; the first failure is reported. -/
def closeBoth (c d : Cursor W) (s : c.State) (t : d.State) (w : W) : Outcome W (c.State × d.State) Unit :=
  let first := c.close s w
  let second := d.close t first.world
  ⟨do first.result; second.result, (first.state, second.state), second.world⟩

/-- A successful pull has advanced at least once. -/
theorem pull_advances (c : Cursor W) (f : Row → Except Error (Option β)) (s : c.State) (w : W) {b : β}
    (found : (c.pull f s w).result = .ok (some b)) :
    Relation.TransGen c.Advances (c.pull f s w).state s := by
  fun_induction pull c f s w with
  | case1 | case2 | case3 | case4 => simp at found
  | case5 s w o advanced => exact .single ⟨w, advanced, rfl⟩
  | case6 s w o advanced row read passed ih => exact .tail (ih found) ⟨w, advanced, rfl⟩

end Cursor

end FederatedQuery
