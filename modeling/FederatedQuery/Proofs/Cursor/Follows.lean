import FederatedQuery.Proofs.Cursor.Feed
import FederatedQuery.Proofs.Rows.Distinct

/-!
Cursors that cannot be told from a cursor over a list of rows. Whatever a reader does, advancing past the end and
going back included, such a cursor stands at a place in the list and answers as that place does. Each way to build
cursors from others makes a cursor that follows a list from cursors that follow lists.
-/
namespace FederatedQuery

namespace Position

def ahead (rows : List Row) : Position → List Row
  | unstarted => rows
  | on _ rest => rest
  | exhausted => []

theorem advance_eq_front (rows : List Row) (p : Position) : p.advance rows = front (p.ahead rows) := by
  cases p <;> rfl

end Position

/-- What a reader asks of a cursor. -/
inductive Call where
  | next
  | current
  | reset
deriving DecidableEq

inductive Answer where
  | advanced (found : Except Error Bool)
  | read (row : Except Error Row)
  | rewound (done : Except Error Unit)

namespace Cursor

variable {W : Type} {rows : List Row} {w : W}

/-- The answer to a call, and the state and the world that it leaves. -/
def answer (c : Cursor W) (s : c.State) (w : W) : Call → Answer × c.State × W
  | .next => (.advanced (c.next s w).result, (c.next s w).state, (c.next s w).world)
  | .current => (.read (c.current s), s, w)
  | .reset => (.rewound (c.reset s w).result, (c.reset s w).state, (c.reset s w).world)

/-- The answers to calls that are made one after the other, and the world after them. -/
def answers (c : Cursor W) (s : c.State) (w : W) : List Call → List Answer × W
  | [] => ([], w)
  | call :: rest =>
    let first := c.answer s w call
    let later := c.answers first.2.1 first.2.2 rest
    (first.1 :: later.1, later.2)

/-- The answers of a cursor from its start on. -/
def transcript (c : Cursor W) (w : W) (calls : List Call) : List Answer × W := c.answers c.start w calls

/-- In a world that it leaves as it is, the states of a cursor stand for places in a list. -/
structure Tracks (c : Cursor W) (w : W) (rows : List Row) (R : c.State → Position → Prop) : Prop where
  start : R c.start .unstarted
  next {s : c.State} {p : Position} (here : R s p) :
    ∃ s', c.next s w = ⟨.ok (p.advance rows).isOn, s', w⟩ ∧ R s' (p.advance rows)
  current {s : c.State} {p : Position} (here : R s p) : c.current s = p.row
  reset {s : c.State} {p : Position} (here : R s p) : ∃ s', c.reset s w = ⟨.ok (), s', w⟩ ∧ R s' .unstarted

/-- A cursor goes through a list of rows. -/
def Follows (c : Cursor W) (w : W) (rows : List Row) : Prop := ∃ R, c.Tracks w rows R

section Tracks

variable {c : Cursor W} {w : W} {rows : List Row} {R : c.State → Position → Prop} {s : c.State} {p : Position}

section

variable (tracks : c.Tracks w rows R)

include tracks

theorem Tracks.answer (here : R s p) (call : Call) :
    ∃ a s' p', c.answer s w call = (a, s', w) ∧ (ofRows rows).answer (some p) w call = (a, some p', w) ∧ R s' p' := by
  cases call with
  | next =>
    obtain ⟨s', advanced, there⟩ := tracks.next here
    refine ⟨_, s', _, ?_, rfl, there⟩
    rw [Cursor.answer, advanced]
    rfl
  | current => exact ⟨_, s, p, rfl, by rw [tracks.current here]; rfl, here⟩
  | reset =>
    obtain ⟨s', rewound, there⟩ := tracks.reset here
    refine ⟨_, s', _, ?_, rfl, there⟩
    rw [Cursor.answer, rewound]
    rfl

/-- No sequence of calls tells a cursor from the rows that it goes through. -/
theorem Tracks.answers (here : R s p) (calls : List Call) :
    c.answers s w calls = (ofRows rows).answers (some p) w calls := by
  induction calls generalizing s p with
  | nil => rfl
  | cons call rest ih =>
    obtain ⟨a, s', p', left, right, there⟩ := tracks.answer here call
    simp only [Cursor.answers, left, right]
    rw [ih there]

theorem Tracks.done (here : R s p) (ended : p.ahead rows = []) :
    ∃ s', c.next s w = ⟨.ok false, s', w⟩ ∧ R s' .exhausted := by
  have advanced := tracks.next here
  rwa [Position.advance_eq_front, ended] at advanced

theorem Tracks.row (here : R s p) {r : Row} {rest : List Row} (more : p.ahead rows = r :: rest) :
    ∃ s', c.next s w = ⟨.ok true, s', w⟩ ∧ R s' (.on r rest) ∧ c.current s' = .ok r := by
  obtain ⟨s', advanced, there⟩ := tracks.next here
  rw [Position.advance_eq_front, more] at advanced there
  exact ⟨s', advanced, there, tracks.current there⟩

/-- Pulling goes on to the first row of which something is made, or past the last one. -/
theorem Tracks.pull {β : Type} {f : Row → Except Error (Option β)} {g : Row → Option β}
    (here : R s p) (each : ∀ r ∈ p.ahead rows, f r = .ok (g r)) :
    (∃ s', c.pull f s w = ⟨.ok none, s', w⟩ ∧ R s' .exhausted ∧ ∀ r ∈ p.ahead rows, g r = none) ∨
    ∃ s' b before r rest, c.pull f s w = ⟨.ok (some b), s', w⟩ ∧ R s' (.on r rest) ∧
      p.ahead rows = before ++ r :: rest ∧ (∀ x ∈ before, g x = none) ∧ g r = some b := by
  -- A row of which nothing is made leaves the same question for the rows after it.
  generalize left : p.ahead rows = l at each
  induction l generalizing s p with
  | nil =>
    obtain ⟨s', ended, there⟩ := tracks.done here left
    exact .inl ⟨s', pull_of_done ended, there, nofun⟩
  | cons r rest ih =>
    obtain ⟨s', advanced, there, read⟩ := tracks.row here left
    rw [List.forall_mem_cons] at each
    rw [pull_of_row advanced read, each.1]
    cases made : g r with
    | some b => exact .inr ⟨s', b, [], r, rest, rfl, there, rfl, nofun, made⟩
    | none =>
      rcases ih there rfl each.2 with ⟨s'', pulled, after, unmade⟩ | ⟨s'', b, before, x, later, pulled, after, split⟩
      · exact .inl ⟨s'', pulled, after, List.forall_mem_cons.2 ⟨made, unmade⟩⟩
      · obtain ⟨rfl, skipped, found⟩ := split
        exact .inr ⟨s'', b, r :: before, x, later, pulled, after, rfl, List.forall_mem_cons.2 ⟨made, skipped⟩, found⟩

theorem Tracks.drain (here : R s p) : ∃ s', c.drain s w = ⟨.ok (p.ahead rows), s', w⟩ := by
  generalize left : p.ahead rows = l
  induction l generalizing s p with
  | nil =>
    obtain ⟨s', ended, _⟩ := tracks.done here left
    exact ⟨s', drain_done ended⟩
  | cons _ _ ih =>
    obtain ⟨s', advanced, there, read⟩ := tracks.row here left
    obtain ⟨s'', drained⟩ := ih there rfl
    exact ⟨s'', drain_row advanced read drained⟩

end

theorem Follows.transcript (follows : c.Follows w rows) (calls : List Call) :
    c.transcript w calls = (ofRows rows).transcript w calls := by
  obtain ⟨R, tracks⟩ := follows
  exact tracks.answers tracks.start calls

end Tracks

theorem follows_ofRows (w : W) (rows : List Row) : (ofRows rows : Cursor W).Follows w rows :=
  ⟨fun s p => s = some p, rfl, fun here => by subst here; exact ⟨_, rfl, rfl⟩, fun here => by subst here; rfl,
    fun here => by subst here; exact ⟨_, rfl, rfl⟩⟩

theorem follows_buffered {S : Type} {inputs : S} {build : S → W → Outcome W S (List Row)}
    {closeInputs : S → W → Outcome W S Unit}
    (built : ∃ s', build inputs w = ⟨.ok rows, s', w⟩) : (buffered inputs build closeInputs).Follows w rows := by
  obtain ⟨s', built⟩ := built
  have first : (buffered inputs build closeInputs).next (.unbuilt inputs) w =
      ⟨.ok (Position.front rows).isOn, .built s' rows (.front rows), w⟩ := by
    simp only [buffered, built]
  refine ⟨fun b p => b = .unbuilt inputs ∧ p = .unstarted ∨ ∃ s, b = .built s rows p, .inl ⟨rfl, rfl⟩, ?_, ?_, ?_⟩
  · rintro b p (⟨rfl, rfl⟩ | ⟨s, rfl⟩)
    · exact ⟨_, first, .inr ⟨s', rfl⟩⟩
    · exact ⟨_, rfl, .inr ⟨s, rfl⟩⟩
  · rintro b p (⟨rfl, rfl⟩ | ⟨s, rfl⟩) <;> rfl
  · rintro b p (⟨rfl, rfl⟩ | ⟨s, rfl⟩)
    · exact ⟨_, rfl, .inl ⟨rfl, rfl⟩⟩
    · exact ⟨_, rfl, .inr ⟨s, rfl⟩⟩

section Combinators

variable {c d : Cursor W} {w : W} {rows others : List Row} {out : List Row}

theorem Follows.drain (follows : c.Follows w rows) : ∃ s', c.drain c.start w = ⟨.ok rows, s', w⟩ := by
  obtain ⟨R, tracks⟩ := follows
  exact tracks.drain tracks.start

theorem Follows.transformed {f : List Row → Except Error (List Row)} (follows : c.Follows w rows)
    (made : f rows = .ok out) : (c.transformed fun rows w => (f rows, w)).Follows w out := by
  obtain ⟨s', drained⟩ := follows.drain
  refine follows_buffered ⟨s', ?_⟩
  rw [drained]
  simp only [made]

theorem Follows.merged {f : List Row → List Row → Except Error (List Row)}
    (first : c.Follows w rows) (second : d.Follows w others) (made : f rows others = .ok out) :
    (c.merged d f).Follows w out := by
  obtain ⟨s', drained⟩ := first.drain
  obtain ⟨t', drained'⟩ := second.drain
  have both : c.drainBoth d (c.start, d.start) w = ⟨.ok (rows, others), (s', t'), w⟩ := by
    rw [drainBoth, drained]
    simp only [drained']
    rfl
  refine follows_buffered ⟨(s', t'), ?_⟩
  rw [both]
  exact congrArg (Outcome.mk · (s', t') w) made

end Combinators

section Calculated

variable {c : Cursor W} {w : W} {rows : List Row} {R : c.State → Position → Prop} {s : c.State} {q : Position}
  {program : Program} {params : Bindings} {out : Row → List Row} {p : Position} {phase : Phase}

theorem calculateRow_cases {r : Row} {made : List Row} (success : Rows.calculateRow program params r = .ok made) :
    program.accepts r params = .ok false ∧ made = [] ∨
      ∃ row, program.accepts r params = .ok true ∧ program.projectRow r params = .ok row ∧ made = [row] := by
  obtain ⟨accepted, tested, success⟩ := bind_eq_ok.1 success
  cases accepted with
  | false =>
    cases success
    exact .inl ⟨tested, rfl⟩
  | true =>
    obtain ⟨row, projected, success⟩ := bind_eq_ok.1 success
    cases success
    exact .inr ⟨row, tested, projected, rfl⟩

/-- Accepting goes on to the first row of which the program makes one, or past the last one. -/
theorem Tracks.accept (tracks : c.Tracks w rows R) (here : R s q)
    (each : ∀ r ∈ q.ahead rows, Rows.calculateRow program params r = .ok (out r)) :
    (∃ s', c.accept program params s w = ⟨.ok false, s', w⟩ ∧ R s' .exhausted ∧ (q.ahead rows).flatMap out = []) ∨
    ∃ s' r rest made, c.accept program params s w = ⟨.ok true, s', w⟩ ∧ R s' (.on r rest) ∧
      (∀ x ∈ rest, x ∈ q.ahead rows) ∧ program.projectRow r params = .ok made ∧
      (q.ahead rows).flatMap out = made :: rest.flatMap out := by
  generalize left : q.ahead rows = l at each
  induction l generalizing s q with
  | nil =>
    obtain ⟨s', ended, there⟩ := tracks.done here left
    exact .inl ⟨s', accept_of_done ended, there, rfl⟩
  | cons r rest ih =>
    obtain ⟨s', advanced, there, read⟩ := tracks.row here left
    have accepted : c.accept program params s w = _ := accept_of_row advanced read
    rw [List.forall_mem_cons] at each
    rw [List.flatMap_cons]
    rcases calculateRow_cases each.1 with ⟨refused, empty⟩ | ⟨made, passed, projected, one⟩
    · rw [refused] at accepted
      rw [accepted, empty]
      rcases ih there rfl each.2 with ended | ⟨s'', x, later, made, found, after, inside, projected, split⟩
      · exact .inl ended
      · refine .inr ⟨s'', x, later, made, found, after, fun y mem => ?_, projected, split⟩
        exact .tail _ (inside y mem)
    · rw [passed] at accepted
      rw [one]
      exact .inr ⟨s', r, rest, made, accepted, there, fun y mem => .tail _ mem, projected, rfl⟩

/-- How a place in the rows of a program goes with a place in its input. -/
inductive Calculating (program : Program) (params : Bindings) (out : Row → List Row) :
    Position → Phase → Position → Prop
  | unstarted : Calculating program params out .unstarted .unstarted .unstarted
  | on {r made : Row} {rest : List Row} (projected : program.projectRow r params = .ok made) :
      Calculating program params out (.on r rest) .positioned (.on made (rest.flatMap out))
  | exhausted : Calculating program params out .exhausted .exhausted .exhausted

theorem Calculating.opened (stands : Calculating program params out q phase p) : phase ≠ .closed := by
  cases stands <;> exact nofun

theorem Calculating.ahead (stands : Calculating program params out q phase p) :
    p.ahead (rows.flatMap out) = (q.ahead rows).flatMap out := by
  cases stands <;> rfl

theorem Follows.calculated (follows : c.Follows w rows)
    (each : ∀ r ∈ rows, Rows.calculateRow program params r = .ok (out r)) :
    (c.calculated program params).Follows w (rows.flatMap out) := by
  obtain ⟨R, tracks⟩ := follows
  refine ⟨fun s p => ∃ q, R s.1 q ∧ (∀ x ∈ q.ahead rows, x ∈ rows) ∧ Calculating program params out q s.2 p,
    ⟨.unstarted, tracks.start, fun _ => id, .unstarted⟩, ?_, ?_, ?_⟩
  · rintro ⟨s, phase⟩ p ⟨q, here, inside, stands⟩
    rw [Position.advance_eq_front, stands.ahead]
    rcases tracks.accept here fun r mem => each r (inside r mem) with
      ⟨s', ended, there, empty⟩ | ⟨s', r, rest, made, found, there, later, projected, split⟩
    · rw [empty]
      refine ⟨_, calculated_next stands.opened ended, .exhausted, there, fun _ mem => ?_, .exhausted⟩
      exact absurd mem List.not_mem_nil
    · rw [split]
      refine ⟨_, calculated_next stands.opened found, .on r rest, there, fun x mem => ?_, .on projected⟩
      exact inside x (later x mem)
  · rintro ⟨s, phase⟩ p ⟨q, here, inside, stands⟩
    have read := tracks.current here
    cases stands with
    | unstarted | exhausted => rfl
    | on projected =>
      simp only [Cursor.calculated, read]
      exact projected
  · rintro ⟨s, phase⟩ p ⟨q, here, inside, stands⟩
    obtain ⟨s', rewound, there⟩ := tracks.reset here
    refine ⟨(s', .unstarted), ?_, .unstarted, there, fun _ => id, .unstarted⟩
    simp only [Cursor.calculated, stands.opened, if_false, rewound]

end Calculated

section Unwound

variable {c : Cursor W} {w : W} {rows : List Row} {R : c.State → Position → Prop} {s : c.State} {q : Position}
  {program : Program} {position : Nat} {params : Bindings} {out : Row → List Row}

/-- Refilling goes on to the first row that expands to something, or past the last one. -/
theorem Tracks.refill (tracks : c.Tracks w rows R) (here : R s q) {stay : c.State → Unwinding c.State}
    (each : ∀ r ∈ q.ahead rows, Rows.unwindRow program position params r = .ok (out r)) :
    (∃ s', c.refill program position params stay s w = ⟨.ok false, .exhausted s', w⟩ ∧ R s' .exhausted ∧
      (q.ahead rows).flatMap out = []) ∨
    ∃ s' r rest first more, c.refill program position params stay s w = ⟨.ok true, .on s' (first :: more), w⟩ ∧
      R s' (.on r rest) ∧ (∀ x ∈ rest, x ∈ q.ahead rows) ∧
      (q.ahead rows).flatMap out = first :: (more ++ rest.flatMap out) := by
  have made : ∀ r ∈ q.ahead rows, (do
      let rows ← Rows.unwindRow program position params r
      return if rows.isEmpty then none else some rows : Except Error (Option (List Row))) =
        .ok (if (out r).isEmpty then none else some (out r)) := by
    intro r mem
    rw [each r mem]
    rfl
  have empty {r : Row} (dropped : (if (out r).isEmpty then none else some (out r)) = none) : out r = [] := by
    by_contra more
    rw [if_neg (by simpa using more)] at dropped
    cases dropped
  unfold Cursor.refill
  rcases tracks.pull here made with ⟨s', pulled, there, unmade⟩ |
    ⟨s', b, before, r, rest, pulled, there, split, skipped, found⟩
  · rw [pulled]
    exact .inl ⟨s', rfl, there, List.flatMap_eq_nil_iff.2 fun r mem => empty (unmade r mem)⟩
  · obtain ⟨first, more, expanded⟩ : ∃ first more, out r = first :: more := by
      cases expanded : out r with
      | nil =>
        rw [expanded] at found
        cases found
      | cons first more => exact ⟨first, more, rfl⟩
    rw [expanded] at found
    cases found
    rw [pulled, split, List.flatMap_append, List.flatMap_eq_nil_iff.2 fun r mem => empty (skipped r mem),
      List.flatMap_cons, expanded]
    refine .inr ⟨s', r, rest, first, more, rfl, there, fun x mem => ?_, rfl⟩
    exact List.mem_append_right _ (.tail _ mem)

/-- How an unwinding cursor goes with a place in its rows. -/
inductive Unrolling (c : Cursor W) (rows : List Row) (R : c.State → Position → Prop) (out : Row → List Row) :
    Unwinding c.State → Position → Prop
  | unstarted {s : c.State} (here : R s .unstarted) : Unrolling c rows R out (.unstarted s) .unstarted
  -- The buffer comes first, and then what the rows ahead in the input expand to.
  | on {s : c.State} {q : Position} {row : Row} {more : List Row} (here : R s q)
      (inside : ∀ x ∈ q.ahead rows, x ∈ rows) :
      Unrolling c rows R out (.on s (row :: more)) (.on row (more ++ (q.ahead rows).flatMap out))
  | exhausted {s : c.State} {q : Position} (here : R s q) : Unrolling c rows R out (.exhausted s) .exhausted

/-- Where an advance refills an unwinding cursor, it goes to the front of what is left of the input. -/
theorem Tracks.unrolling_refill (tracks : c.Tracks w rows R) (here : R s q) (inside : ∀ x ∈ q.ahead rows, x ∈ rows)
    (each : ∀ r ∈ rows, Rows.unwindRow program position params r = .ok (out r)) (stay : c.State → Unwinding c.State) :
    ∃ u, c.refill program position params stay s w = ⟨.ok (Position.front ((q.ahead rows).flatMap out)).isOn, u, w⟩ ∧
      Unrolling c rows R out u (.front ((q.ahead rows).flatMap out)) := by
  rcases tracks.refill here fun r mem => each r (inside r mem) with
    ⟨s', ended, there, empty⟩ | ⟨s', r, rest, first, more, found, there, later, split⟩
  · rw [empty]
    exact ⟨_, ended, .exhausted there⟩
  · rw [split]
    exact ⟨_, found, .on there fun x mem => inside x (later x mem)⟩

theorem Follows.unwound (follows : c.Follows w rows)
    (each : ∀ r ∈ rows, Rows.unwindRow program position params r = .ok (out r)) :
    (c.unwound program position params).Follows w (rows.flatMap out) := by
  obtain ⟨R, tracks⟩ := follows
  refine ⟨Unrolling c rows R out, .unstarted tracks.start, ?_, ?_, ?_⟩
  · intro u p stands
    cases stands with
    | unstarted here => exact tracks.unrolling_refill here (fun _ => id) each .unstarted
    | @on s q row more here inside =>
      cases more with
      | nil => exact tracks.unrolling_refill here inside each (.on · [])
      | cons => exact ⟨_, rfl, .on here inside⟩
    | exhausted here => exact ⟨_, rfl, .exhausted here⟩
  · intro u p stands
    cases stands <;> rfl
  · intro u p stands
    cases stands with
    | unstarted here | on here _ | exhausted here =>
      obtain ⟨s', rewound, there⟩ := tracks.reset here
      refine ⟨.unstarted s', ?_, .unstarted there⟩
      simp only [Cursor.unwound, rewound]

end Unwound

section Concatenated

variable {c d : Cursor W} {w : W} {rows others : List Row} {R : c.State → Position → Prop}
  {T : d.State → Position → Prop} {q : Position} {s : c.State} {t : d.State}

/-- How a concatenation goes with a place in its rows. -/
inductive Joining (c d : Cursor W) (others : List Row) (R : c.State → Position → Prop) (T : d.State → Position → Prop) :
    Concatenating c.State d.State → Position → Prop
  | unstarted {s : c.State} {t : d.State} (left : R s .unstarted) (right : T t .unstarted) :
      Joining c d others R T ⟨s, t, .left, .unstarted⟩ .unstarted
  -- Going back takes both inputs back, so the second is at its start for as long as the first is read.
  | onLeft {s : c.State} {t : d.State} {r : Row} {rest : List Row} (left : R s (.on r rest)) (right : T t .unstarted) :
      Joining c d others R T ⟨s, t, .left, .positioned⟩ (.on r (rest ++ others))
  | onRight {s : c.State} {t : d.State} {q : Position} {r : Row} {rest : List Row} (left : R s q)
      (right : T t (.on r rest)) : Joining c d others R T ⟨s, t, .right, .positioned⟩ (.on r rest)
  | exhausted {s : c.State} {t : d.State} {q q' : Position} (left : R s q) (right : T t q') :
      Joining c d others R T ⟨s, t, .done, .exhausted⟩ .exhausted

theorem Tracks.nextRight (tracks : d.Tracks w others T) {q' : Position} (left : R s q) (right : T t q') (side : Side)
    (phase : Phase) :
    ∃ u, c.nextRight d ⟨s, t, side, phase⟩ w = ⟨.ok (Position.front (q'.ahead others)).isOn, u, w⟩ ∧
      Joining c d others R T u (.front (q'.ahead others)) := by
  unfold Cursor.nextRight
  cases more : q'.ahead others with
  | nil =>
    obtain ⟨t', ended, there⟩ := tracks.done right more
    rw [ended]
    exact ⟨_, rfl, .exhausted left there⟩
  | cons =>
    obtain ⟨t', advanced, there, _⟩ := tracks.row right more
    rw [advanced]
    exact ⟨_, rfl, .onRight left there⟩

theorem Tracks.nextLeft (first : c.Tracks w rows R)
    (second : d.Tracks w others T) (left : R s q) (right : T t .unstarted) (phase : Phase) :
    ∃ u, c.nextLeft d ⟨s, t, .left, phase⟩ w = ⟨.ok (Position.front (q.ahead rows ++ others)).isOn, u, w⟩ ∧
      Joining c d others R T u (.front (q.ahead rows ++ others)) := by
  unfold Cursor.nextLeft
  cases more : q.ahead rows with
  | nil =>
    obtain ⟨s', ended, there⟩ := first.done left more
    rw [ended]
    exact second.nextRight there right .left phase
  | cons =>
    obtain ⟨s', advanced, there, _⟩ := first.row left more
    rw [advanced]
    exact ⟨_, rfl, .onLeft there right⟩

theorem Follows.concatenated (first : c.Follows w rows) (second : d.Follows w others) :
    (c.concatenated d).Follows w (rows ++ others) := by
  obtain ⟨R, first⟩ := first
  obtain ⟨T, second⟩ := second
  refine ⟨Joining c d others R T, .unstarted first.start second.start, ?_, ?_, ?_⟩
  · intro u p stands
    cases stands with
    | unstarted left right => exact first.nextLeft second left right .unstarted
    | onLeft left right => exact first.nextLeft second left right .positioned
    | onRight left right => exact second.nextRight left right .right .positioned
    | exhausted left right => exact ⟨_, rfl, .exhausted left right⟩
  · intro u p stands
    cases stands with
    | unstarted | exhausted => rfl
    | onLeft left right => exact (first.current left :)
    | onRight left right => exact second.current right
  · intro u p stands
    cases stands with
    | unstarted left right | onLeft left right | onRight left right | exhausted left right =>
      obtain ⟨s', rewound, there⟩ := first.reset left
      obtain ⟨t', rewound', there'⟩ := second.reset right
      refine ⟨⟨s', t', .left, .unstarted⟩, ?_, .unstarted there there'⟩
      simp only [Cursor.concatenated, rewound, rewound']
      rfl

end Concatenated

section Distinguished

variable {c : Cursor W} {w : W} {rows : List Row}

/-- How a cursor without repetitions goes with a place in its rows. -/
inductive Distinguished (c : Cursor W) (rows : List Row) (R : c.State → Position → Prop) :
    Distinguishing c.State → Position → Prop
  | unstarted {s : c.State} (here : R s .unstarted) : Distinguished c rows R ⟨s, [], none, .unstarted⟩ .unstarted
  | on {s : c.State} {q : Position} {seen : List Row} {r : Row} (here : R s q) :
      Distinguished c rows R ⟨s, seen, some r, .positioned⟩ (.on r (Rows.distinctFrom seen (q.ahead rows)))
  | exhausted {s : c.State} {seen : List Row} (here : R s .exhausted) :
      Distinguished c rows R ⟨s, seen, none, .exhausted⟩ .exhausted

theorem Tracks.distinguish {R : c.State → Position → Prop} (tracks : c.Tracks w rows R) {s : c.State} {q : Position}
    (here : R s q) (seen : List Row) (row : Option Row) {phase : Phase} (opened : phase ≠ .closed) :
    ∃ u, c.distinguished.next ⟨s, seen, row, phase⟩ w =
        ⟨.ok (Position.front (Rows.distinctFrom seen (q.ahead rows))).isOn, u, w⟩ ∧
      Distinguished c rows R u (.front (Rows.distinctFrom seen (q.ahead rows))) := by
  have known {r : Row} (dropped : (if Rows.hasKey seen r then none else some r) = none) :
      Rows.hasKey seen r = true := by
    by_contra fresh
    rw [if_neg fresh] at dropped
    cases dropped
  rcases tracks.pull here (g := fun r => if Rows.hasKey seen r then none else some r) fun _ _ => rfl with
    ⟨s', pulled, there, repeated⟩ | ⟨s', b, before, r, rest, pulled, there, split, skipped, found⟩
  · rw [Rows.distinctFrom_eq_nil fun r mem => known (repeated r mem)]
    refine ⟨⟨s', seen, none, .exhausted⟩, ?_, .exhausted there⟩
    simp only [Cursor.distinguished, opened, if_false, pulled]
    rfl
  · have fresh : Rows.hasKey seen r = false := by
      by_contra repeated
      rw [if_pos (Bool.eq_true_of_not_eq_false repeated)] at found
      cases found
    rw [fresh] at found
    obtain rfl : r = b := Option.some.inj found
    rw [split, Rows.distinctFrom_append, Rows.distinctFrom_eq_nil fun r mem => known (skipped r mem),
      List.nil_append, List.append_nil, Rows.distinctFrom, fresh]
    refine ⟨⟨s', seen ++ [r], some r, .positioned⟩, ?_, .on there⟩
    simp only [Cursor.distinguished, opened, if_false, pulled]
    rfl

theorem Follows.distinguished (follows : c.Follows w rows) : c.distinguished.Follows w (Rows.distinct rows) := by
  obtain ⟨R, tracks⟩ := follows
  refine ⟨Distinguished c rows R, .unstarted tracks.start, ?_, ?_, ?_⟩
  · intro u p stands
    cases stands with
    | unstarted here => exact tracks.distinguish here [] none nofun
    | on here => exact tracks.distinguish here _ _ nofun
    | exhausted here => exact tracks.distinguish here _ none nofun
  · intro u p stands
    cases stands <;> rfl
  · intro u p stands
    cases stands with
    | unstarted here | on here | exhausted here =>
      obtain ⟨s', rewound, there⟩ := tracks.reset here
      refine ⟨⟨s', [], none, .unstarted⟩, ?_, .unstarted there⟩
      simp only [Cursor.distinguished, rewound]
      rfl

end Distinguished

theorem Follows.combined {c d : Cursor W} {others : List Row} (op : SetOp) (all : Bool)
    (first : c.Follows w rows) (second : d.Follows w others) :
    (combined op all c d).Follows w (Rows.setOperation op all rows others) := by
  unfold Cursor.combined
  split
  · exact first.concatenated second
  · exact (first.concatenated second).distinguished
  · exact first.merged second rfl

end Cursor

end FederatedQuery
