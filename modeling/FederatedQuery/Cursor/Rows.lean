import FederatedQuery.Cursor.Basic

/-!
Cursors over rows held in memory: rows given from the start, and rows built from inputs at the first
advance and kept. A reset goes back to the first row and builds nothing again.
-/
namespace FederatedQuery

/-- A place in a list of rows: before it, on a row with others to follow, or past it. -/
inductive Position where
  | unstarted
  | on (row : Row) (rest : List Row)
  | exhausted

namespace Position

def phase : Position → Phase
  | unstarted => .unstarted
  | on .. => .positioned
  | exhausted => .exhausted

def front : List Row → Position
  | [] => exhausted
  | row :: rest => on row rest

def isOn : Position → Bool
  | on .. => true
  | _ => false

def advance (rows : List Row) : Position → Position
  | unstarted => front rows
  | on _ rest => front rest
  | exhausted => exhausted

def row : Position → Except Error Row
  | on row _ => .ok row
  | p => .error (.contract (.noCurrentRow p.phase))

/-- How many advances can still succeed, at most. -/
def left (rows : List Row) : Position → Nat
  | unstarted => rows.length + 1
  | on _ rest => rest.length
  | exhausted => 0

theorem left_advance_lt {rows : List Row} {p : Position} (found : (p.advance rows).isOn = true) :
    (p.advance rows).left rows < p.left rows := by
  cases p with
  | unstarted => cases rows with
    | nil => simp [advance, front, isOn] at found
    | cons row rest =>
      simp only [advance, front, left, List.length_cons]
      omega
  | on row rest => cases rest with
    | nil => simp [advance, front, isOn] at found
    | cons next rest => simp [advance, front, left]
  | exhausted => simp [advance, isOn] at found

end Position

namespace Cursor

variable {W : Type}

/-- A cursor over given rows. Its state is its place, or nothing once it is closed. -/
def ofRows (rows : List Row) : Cursor W where
  State := Option Position
  start := some .unstarted
  next
    | some p, w => ⟨.ok (p.advance rows).isOn, some (p.advance rows), w⟩
    | none, w => ⟨.error (closedError "move_next"), none, w⟩
  current
    | some p => p.row
    | none => .error (.contract (.noCurrentRow .closed))
  reset
    | some _, w => ⟨.ok (), some .unstarted, w⟩
    | none, w => ⟨.error (closedError "reset"), none, w⟩
  close _ w := ⟨.ok (), none, w⟩
  finite := by
    refine Subrelation.wf ?_ (measure fun s => (s.map (Position.left rows)).getD 0).wf
    rintro s' (_ | p) ⟨w, found, reached⟩
    · simp at found
    · subst reached
      exact Position.left_advance_lt (by simpa using found)

end Cursor

inductive Buffer (S : Type) where
  | unbuilt (inputs : S)
  | built (inputs : S) (rows : List Row) (position : Position)
  | closed

namespace Buffer

variable {S : Type}

/-- Unbuilt rows rank above all built ones, which rank by what is left of them. -/
def rank : Buffer S → Nat × Nat
  | unbuilt _ => (1, 0)
  | built _ rows p => (0, p.left rows)
  | closed => (0, 0)

end Buffer

namespace Cursor

variable {W S : Type}

/-- A cursor whose rows are built from its inputs at the first advance. A failed build leaves the inputs
where they are, and the next advance tries again. -/
def buffered (inputs : S) (build : S → W → Outcome W S (List Row)) (closeInputs : S → W → Outcome W S Unit) :
    Cursor W where
  State := Buffer S
  start := .unbuilt inputs
  next
    | .unbuilt s, w =>
      let o := build s w
      match o.result with
      | .ok rows => ⟨.ok (Position.front rows).isOn, .built o.state rows (.front rows), o.world⟩
      | .error e => ⟨.error e, .unbuilt o.state, o.world⟩
    | .built s rows p, w => ⟨.ok (p.advance rows).isOn, .built s rows (p.advance rows), w⟩
    | .closed, w => ⟨.error (closedError "move_next"), .closed, w⟩
  current
    | .unbuilt _ => .error (.contract (.noCurrentRow .unstarted))
    | .built _ _ p => p.row
    | .closed => .error (.contract (.noCurrentRow .closed))
  reset
    | .unbuilt s, w => ⟨.ok (), .unbuilt s, w⟩
    | .built s rows _, w => ⟨.ok (), .built s rows .unstarted, w⟩
    | .closed, w => ⟨.error (closedError "reset"), .closed, w⟩
  close
    | .unbuilt s, w => (closeInputs s w).lift fun _ => .closed
    | .built s _ _, w => (closeInputs s w).lift fun _ => .closed
    | .closed, w => ⟨.ok (), .closed, w⟩
  finite := by
    refine Subrelation.wf ?_ (InvImage.wf Buffer.rank (Prod.lex Nat.lt_wfRel Nat.lt_wfRel).wf)
    rintro s' (s | ⟨s, rows, p⟩ | _) ⟨w, found, reached⟩
    · revert found reached
      dsimp only
      split <;> intro found reached
      · subst reached
        exact Prod.Lex.left _ _ Nat.zero_lt_one
      · simp at found
    · subst reached
      exact Prod.Lex.right _ (Position.left_advance_lt (by simpa using found))
    · simp at found

end Cursor

end FederatedQuery
