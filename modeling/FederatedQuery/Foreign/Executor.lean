import FederatedQuery.Cursor.Rows
import FederatedQuery.Foreign.Runner

/-!
Executors open artifacts, and a foreign cursor opens its artifact at the first advance.
-/
namespace FederatedQuery

def Cursor.loaded {W : Type} : Cursor W where
  State := Option (List Row × Position)
  start := none
  next
    | some (rows, p), w => ⟨.ok (p.advance rows).isOn, some (rows, p.advance rows), w⟩
    | none, w => ⟨.error (closedError "move_next"), none, w⟩
  current
    | some (_, p) => p.row
    | none => .error (.contract (.noCurrentRow .closed))
  reset
    | some (rows, _), w => ⟨.ok (), some (rows, .unstarted), w⟩
    | none, w => ⟨.error (closedError "reset"), none, w⟩
  close _ w := ⟨.ok (), none, w⟩
  finite := by
    refine Subrelation.wf ?_ (measure fun s => (s.map fun (rows, p) => Position.left rows p).getD 0).wf
    rintro s' (_ | ⟨rows, p⟩) ⟨w, found, reached⟩
    · simp at found
    · subst reached
      exact Position.left_advance_lt (by simpa using found)

namespace Foreign

/-- Opens artifacts of one kind: each gives a state of one cursor. -/
structure Executor (W : Type) where
  cursor : Cursor W
  launch : Artifact → Context → W → Except Error cursor.State × W

def Runner.executor {σ : Type} (r : Runner σ) : Executor (World σ) where
  cursor := .loaded
  launch a ctx w :=
    let result := r.run a ctx w
    (result.1.map fun rows => some (rows, .unstarted), result.2)

inductive Opening (S : Type) where
  | unopened
  | opened (state : S) (phase : Phase)
  | closed

/-- What is not opened ranks above all that is. -/
def Opening.rank {S : Type} (start : S) : Opening S → Nat × S
  | unopened => (1, start)
  | opened s _ => (0, s)
  | closed => (0, start)

def advanceOpened {W : Type} (c : Cursor W) (s : c.State) (p : Phase) (w : W) :
    Outcome W (Opening c.State) Bool :=
  let o := c.next s w
  match o.result with
  | .ok found => ⟨.ok found, .opened o.state (.advanced found), o.world⟩
  | .error e => ⟨.error e, .opened o.state p, o.world⟩

theorem advanceOpened_advances {W : Type} (c : Cursor W) (s : c.State) (p : Phase) (w : W)
    (found : (advanceOpened c s p w).result = .ok true) :
    ∃ s' p', (advanceOpened c s p w).state = .opened s' p' ∧ c.Advances s' s := by
  unfold advanceOpened at found ⊢
  dsimp only at found ⊢
  split at found
  · next b advanced =>
    have : b = true := by simpa using found
    subst this
    exact ⟨_, _, rfl, w, advanced, rfl⟩
  · simp at found

/-- A cursor over an artifact. A failure to open it leaves it unopened, and the next advance tries
again. -/
def Executor.open {W : Type} (e : Executor W) (a : Artifact) (ctx : Context) : Cursor W where
  State := Opening e.cursor.State
  start := .unopened
  next
    | .unopened, w => match e.launch a ctx w with
      | (.ok s, w) => advanceOpened e.cursor s .unstarted w
      | (.error err, w) => ⟨.error err, .unopened, w⟩
    | .opened s p, w => advanceOpened e.cursor s p w
    | .closed, w => ⟨.error (Cursor.closedError "move_next"), .closed, w⟩
  current
    | .unopened => .error (.contract (.noCurrentRow .unstarted))
    | .opened s p => do
      p.onRow
      e.cursor.current s
    | .closed => .error (.contract (.noCurrentRow .closed))
  reset
    | .unopened, w => ⟨.ok (), .unopened, w⟩
    | .opened s p, w =>
      let o := e.cursor.reset s w
      match o.result with
      | .ok _ => ⟨.ok (), .opened o.state .unstarted, o.world⟩
      | .error err => ⟨.error err, .opened o.state p, o.world⟩
    | .closed, w => ⟨.error (Cursor.closedError "reset"), .closed, w⟩
  close
    | .unopened, w => ⟨.ok (), .closed, w⟩
    | .opened s _, w => (e.cursor.close s w).lift fun _ => .closed
    | .closed, w => ⟨.ok (), .closed, w⟩
  finite := by
    refine Subrelation.wf ?_ (InvImage.wf (Opening.rank e.cursor.start)
      (Prod.lex Nat.lt_wfRel ⟨_, e.cursor.finite⟩).wf)
    rintro s' (_ | ⟨s, p⟩ | _) ⟨w, found, reached⟩
    · revert found reached
      dsimp only
      split <;> intro found reached
      · obtain ⟨t, q, same, _⟩ := advanceOpened_advances _ _ _ _ found
        rw [same] at reached
        subst reached
        exact Prod.Lex.left _ _ Nat.zero_lt_one
      · simp at found
    · obtain ⟨t, q, same, advanced⟩ := advanceOpened_advances _ _ _ _ found
      dsimp only at reached
      rw [same] at reached
      subst reached
      exact Prod.Lex.right _ advanced
    · simp at found

end Foreign

end FederatedQuery
