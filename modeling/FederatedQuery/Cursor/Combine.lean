import FederatedQuery.Cursor.Rows
import FederatedQuery.Rows.SetOperation

/-!
Set operations on two cursors. A union passes the rows of the left input on and then those of the right;
intersection and difference are built at the first advance.
-/
namespace FederatedQuery

/-- The input that a concatenation is reading. -/
inductive Side where
  | left
  | right
  | done
deriving DecidableEq

structure Concatenating (S T : Type) where
  left : S
  right : T
  side : Side
  phase : Phase

namespace Cursor

variable {W : Type}

def nextRight (c d : Cursor W) (s : Concatenating c.State d.State) (w : W) :
    Outcome W (Concatenating c.State d.State) Bool :=
  let o := d.next s.right w
  match o.result with
  | .ok true => ⟨.ok true, { s with right := o.state, side := .right, phase := .positioned }, o.world⟩
  | .ok false => ⟨.ok false, { s with right := o.state, side := .done, phase := .exhausted }, o.world⟩
  | .error e => ⟨.error e, { s with right := o.state, side := .right }, o.world⟩

/-- Advances the left input of a concatenation, and the right one when the left one has ended. -/
def nextLeft (c d : Cursor W) (s : Concatenating c.State d.State) (w : W) :
    Outcome W (Concatenating c.State d.State) Bool :=
  let o := c.next s.left w
  match o.result with
  | .ok true => ⟨.ok true, { s with left := o.state, phase := .positioned }, o.world⟩
  | .ok false => c.nextRight d { s with left := o.state } o.world
  | .error e => ⟨.error e, { s with left := o.state }, o.world⟩

theorem nextRight_advances (c d : Cursor W) (s : Concatenating c.State d.State) (w : W)
    (found : (c.nextRight d s w).result = .ok true) :
    d.Advances (c.nextRight d s w).state.right s.right := by
  unfold nextRight at found ⊢
  dsimp only at found ⊢
  split at found
  · next advanced => exact ⟨w, advanced, rfl⟩
  · simp at found
  · simp at found

theorem nextLeft_advances (c d : Cursor W) (s : Concatenating c.State d.State) (w : W)
    (found : (c.nextLeft d s w).result = .ok true) :
    d.Advances (c.nextLeft d s w).state.right s.right ∨
      (c.nextLeft d s w).state.right = s.right ∧ c.Advances (c.nextLeft d s w).state.left s.left := by
  unfold nextLeft at found ⊢
  dsimp only at found ⊢
  split at found
  · next advanced => exact .inr ⟨rfl, w, advanced, rfl⟩
  · exact .inl (nextRight_advances c d _ _ found)
  · simp at found

/-- The rows of the left input, then those of the right one. -/
def concatenated (c d : Cursor W) : Cursor W where
  State := Concatenating c.State d.State
  start := ⟨c.start, d.start, .left, .unstarted⟩
  next s w :=
    if s.phase = .closed then ⟨.error (closedError "move_next"), s, w⟩
    else match s.side with
      | .left => c.nextLeft d s w
      | .right => c.nextRight d s w
      | .done => ⟨.ok false, { s with phase := .exhausted }, w⟩
  current s := do
    s.phase.onRow
    if s.side = .left then c.current s.left else d.current s.right
  reset s w :=
    if s.phase = .closed then ⟨.error (closedError "reset"), s, w⟩
    else
      let o := c.reset s.left w
      match o.result with
      | .error e => ⟨.error e, { s with left := o.state }, o.world⟩
      | .ok _ =>
        let p := d.reset s.right o.world
        match p.result with
        | .error e => ⟨.error e, { s with left := o.state, right := p.state }, p.world⟩
        | .ok _ => ⟨.ok (), ⟨o.state, p.state, .left, .unstarted⟩, p.world⟩
  close s w :=
    if s.phase = .closed then ⟨.ok (), s, w⟩
    else (c.closeBoth d s.left s.right w).lift fun (left, right) => ⟨left, right, s.side, .closed⟩
  finite := by
    refine Subrelation.wf ?_ (InvImage.wf (fun s => (s.right, s.left))
      (Prod.lex ⟨_, d.finite⟩ ⟨_, c.finite⟩).wf)
    rintro s' s ⟨w, found, reached⟩
    revert found reached
    split
    · intro found; simp at found
    · split <;> intro found reached
      · subst reached
        rcases nextLeft_advances c d s w found with advanced | ⟨same, advanced⟩
        · exact Prod.Lex.left _ _ advanced
        · show Prod.Lex _ _ (_, _) (_, _)
          rw [same]
          exact Prod.Lex.right _ advanced
      · subst reached
        exact Prod.Lex.left _ _ (nextRight_advances c d s w found)
      · simp at found

end Cursor

/-- The state of a cursor without repetitions: the rows it has given, and the current one. -/
structure Distinguishing (S : Type) where
  input : S
  seen : List Row
  row : Option Row
  phase : Phase

namespace Cursor

variable {W : Type}

/-- The rows of an input whose keys have not come before. -/
def distinguished (input : Cursor W) : Cursor W where
  State := Distinguishing input.State
  start := ⟨input.start, [], none, .unstarted⟩
  next s w :=
    if s.phase = .closed then ⟨.error (closedError "move_next"), s, w⟩
    else
      let o := input.pull (fun row => .ok (if Rows.hasKey s.seen row then none else some row)) s.input w
      match o.result with
      | .ok (some row) => ⟨.ok true, ⟨o.state, s.seen ++ [row], some row, .positioned⟩, o.world⟩
      | .ok none => ⟨.ok false, ⟨o.state, s.seen, none, .exhausted⟩, o.world⟩
      | .error e => ⟨.error e, ⟨o.state, s.seen, none, s.phase⟩, o.world⟩
  current s := do
    s.phase.onRow
    match s.row with
    | some row => return row
    | none => .error (.contract .noDistinctRow)
  reset s w :=
    if s.phase = .closed then ⟨.error (closedError "reset"), s, w⟩
    else
      let o := input.reset s.input w
      match o.result with
      | .ok _ => ⟨.ok (), ⟨o.state, [], none, .unstarted⟩, o.world⟩
      | .error e => ⟨.error e, { s with input := o.state }, o.world⟩
  close s w :=
    if s.phase = .closed then ⟨.ok (), s, w⟩
    else (input.close s.input w).lift fun i => ⟨i, [], s.row, .closed⟩
  finite := by
    refine Subrelation.wf ?_ (InvImage.wf Distinguishing.input input.finite.transGen)
    rintro s' s ⟨w, found, reached⟩
    revert found reached
    dsimp only
    split
    · intro found; simp at found
    · split <;> intro found reached
      · next pulled =>
        subst reached
        exact pull_advances _ _ _ _ pulled
      · simp at found
      · simp at found

/-- Pulls all rows of two cursors, the second ones only when the first came without a failure. -/
def drainBoth (c d : Cursor W) (s : c.State × d.State) (w : W) :
    Outcome W (c.State × d.State) (List Row × List Row) :=
  let o := c.drain s.1 w
  match o.result with
  | .error e => ⟨.error e, (o.state, s.2), o.world⟩
  | .ok left =>
    let p := d.drain s.2 o.world
    ⟨p.result.map fun right => (left, right), (o.state, p.state), p.world⟩

/-- A cursor over what a function makes of all rows of an input. -/
def transformed (input : Cursor W) (f : List Row → W → Except Error (List Row) × W) : Cursor W :=
  buffered input.start
    (fun s w =>
      let o := input.drain s w
      match o.result with
      | .error e => ⟨.error e, o.state, o.world⟩
      | .ok rows => ⟨(f rows o.world).1, o.state, (f rows o.world).2⟩)
    input.close

/-- A cursor over what a function makes of all rows of two inputs. -/
def merged (c d : Cursor W) (f : List Row → List Row → Except Error (List Row)) : Cursor W :=
  buffered (c.start, d.start)
    (fun s w =>
      let o := c.drainBoth d s w
      ⟨o.result.bind fun (left, right) => f left right, o.state, o.world⟩)
    (fun (s, t) w => c.closeBoth d s t w)

def combined (op : SetOp) (all : Bool) (c d : Cursor W) : Cursor W :=
  match op, all with
  | .union, true => c.concatenated d
  | .union, false => (c.concatenated d).distinguished
  | op, all => c.merged d fun left right => .ok (Rows.setOperation op all left right)

end Cursor

end FederatedQuery
