import FederatedQuery.Cursor.Basic
import FederatedQuery.Rows.Unwind

/-!
Programs over a cursor. Without an unwind the projections are evaluated when the current row is asked
for, and the input is not looked at unless there is a condition. With an unwind each accepted row is
expanded when it is reached.
-/
namespace FederatedQuery

namespace Cursor

variable {W : Type}

def accept (input : Cursor W) (program : Program) (params : Bindings) (s : input.State) (w : W) :
    Outcome W input.State Bool :=
  match program.condition with
  | none => input.next s w
  | some condition =>
    let o := input.pull (fun row => do return if ← condition.test row params then some () else none) s w
    ⟨o.result.map Option.isSome, o.state, o.world⟩

theorem exists_of_map_isSome {β : Type} {r : Except Error (Option β)}
    (found : r.map Option.isSome = .ok true) : ∃ b, r = .ok (some b) := by
  cases r with
  | error e => simp [Except.map] at found
  | ok b => cases b with
    | none => simp [Except.map] at found
    | some b => exact ⟨b, rfl⟩

theorem accept_advances (input : Cursor W) (program : Program) (params : Bindings) (s : input.State) (w : W)
    (found : (input.accept program params s w).result = .ok true) :
    Relation.TransGen input.Advances (input.accept program params s w).state s := by
  unfold accept at found ⊢
  split at found
  · exact .single ⟨w, found, rfl⟩
  · obtain ⟨b, pulled⟩ := exists_of_map_isSome found
    exact pull_advances _ _ _ _ pulled

def calculated (input : Cursor W) (program : Program) (params : Bindings) : Cursor W where
  State := input.State × Phase
  start := (input.start, .unstarted)
  next := fun (s, p) w =>
    if p = .closed then ⟨.error (closedError "move_next"), (s, p), w⟩
    else
      let o := input.accept program params s w
      match o.result with
      | .ok found => ⟨.ok found, (o.state, .advanced found), o.world⟩
      | .error e => ⟨.error e, (o.state, p), o.world⟩
  current := fun (s, p) => do
    p.onRow
    program.projectRow (← input.current s) params
  reset := fun (s, p) w =>
    if p = .closed then ⟨.error (closedError "reset"), (s, p), w⟩
    else
      let o := input.reset s w
      match o.result with
      | .ok _ => ⟨.ok (), (o.state, .unstarted), o.world⟩
      | .error e => ⟨.error e, (o.state, p), o.world⟩
  close := fun (s, p) w =>
    if p = .closed then ⟨.ok (), (s, p), w⟩ else (input.close s w).lift fun s => (s, .closed)
  finite := by
    refine Subrelation.wf ?_ (InvImage.wf Prod.fst input.finite.transGen)
    rintro s' ⟨s, p⟩ ⟨w, found, reached⟩
    revert found reached
    dsimp only
    split
    · intro found; simp at found
    · split <;> intro found reached
      · next accepted =>
        subst reached
        obtain rfl : _ = true := by simpa using found
        exact accept_advances input program params s w accepted
      · simp at found

end Cursor

/-- The state of an unwinding cursor. The rows are those of the last expanded row from the current one
on; a failed advance leaves none. -/
inductive Unwinding (S : Type) where
  | unstarted (input : S)
  | on (input : S) (rows : List Row)
  | exhausted (input : S)
  | closed

namespace Unwinding

variable {S : Type}

def phase : Unwinding S → Phase
  | unstarted _ => .unstarted
  | on .. => .positioned
  | exhausted _ => .exhausted
  | closed => .closed

/-- The state of the input, and the rows still to come before the input is asked again. -/
def rank (start : S) : Unwinding S → S × Nat
  | unstarted s => (s, 0)
  | on s rows => (s, rows.length)
  | exhausted s => (s, 0)
  | closed => (start, 0)

end Unwinding

namespace Cursor

variable {W : Type}

/-- Pulls the next row that expands to something. A failure leaves the state as `stay` says. -/
def refill (input : Cursor W) (program : Program) (position : Nat) (params : Bindings)
    (stay : input.State → Unwinding input.State) (s : input.State) (w : W) :
    Outcome W (Unwinding input.State) Bool :=
  let o := input.pull (fun row => do
    let rows ← Rows.unwindRow program position params row
    return if rows.isEmpty then none else some rows) s w
  match o.result with
  | .ok (some rows) => ⟨.ok true, .on o.state rows, o.world⟩
  | .ok none => ⟨.ok false, .exhausted o.state, o.world⟩
  | .error e => ⟨.error e, stay o.state, o.world⟩

theorem refill_advances (input : Cursor W) (program : Program) (position : Nat) (params : Bindings)
    (stay : input.State → Unwinding input.State) (s start : input.State) (w : W)
    (found : (input.refill program position params stay s w).result = .ok true) :
    Relation.TransGen input.Advances
      ((input.refill program position params stay s w).state.rank start).1 s := by
  unfold refill at found ⊢
  dsimp only at found ⊢
  split at found
  · next rows pulled => exact pull_advances _ _ _ _ pulled
  · simp at found
  · simp at found

def unwound (input : Cursor W) (program : Program) (position : Nat) (params : Bindings) : Cursor W where
  State := Unwinding input.State
  start := .unstarted input.start
  next
    | .unstarted s, w => input.refill program position params .unstarted s w
    | .on s rows, w => match rows.tail with
      | [] => input.refill program position params (.on · []) s w
      | row :: rest => ⟨.ok true, .on s (row :: rest), w⟩
    | .exhausted s, w => ⟨.ok false, .exhausted s, w⟩
    | .closed, w => ⟨.error (closedError "move_next"), .closed, w⟩
  current
    | .on _ (row :: _) => .ok row
    | .on _ [] => .error (.contract .noUnwoundRow)
    | s => .error (.contract (.noCurrentRow s.phase))
  reset s w :=
    let rewind (s : input.State) (stay : input.State → Unwinding input.State) :=
      let o := input.reset s w
      match o.result with
      | .ok _ => ⟨.ok (), .unstarted o.state, o.world⟩
      | .error e => ⟨.error e, stay o.state, o.world⟩
    match s with
    | .unstarted s => rewind s .unstarted
    | .on s rows => rewind s (.on · rows)
    | .exhausted s => rewind s .exhausted
    | .closed => ⟨.error (closedError "reset"), .closed, w⟩
  close
    | .unstarted s, w | .on s _, w | .exhausted s, w => (input.close s w).lift fun _ => .closed
    | .closed, w => ⟨.ok (), .closed, w⟩
  finite := by
    refine Subrelation.wf ?_ (InvImage.wf (Unwinding.rank input.start)
      (Prod.lex ⟨_, input.finite.transGen⟩ Nat.lt_wfRel).wf)
    rintro s' (s | ⟨s, rows⟩ | s | _) ⟨w, found, reached⟩
    · subst reached
      exact Prod.Lex.left _ _ (refill_advances input _ _ _ _ _ _ _ found)
    · revert found reached
      dsimp only
      split
      · intro found reached
        subst reached
        exact Prod.Lex.left _ _ (refill_advances input _ _ _ _ _ _ _ found)
      · next row rest tail =>
        intro found reached
        subst reached
        refine Prod.Lex.right _ ?_
        cases rows with
        | nil => simp at tail
        | cons r rows =>
          simp only [List.tail_cons] at tail
          subst tail
          exact Nat.lt_succ_self _
    · simp at found
    · simp at found

end Cursor

end FederatedQuery
