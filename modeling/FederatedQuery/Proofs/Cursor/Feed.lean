import FederatedQuery.Cursor.Combine
import FederatedQuery.Cursor.Program
import FederatedQuery.Proofs.Feed.Basic

/-!
What a cursor delivers to a reader that reads every row. A cursor that leaves the world as it is delivers
one feed, and each way to build cursors from others is a function on their feeds.
-/
namespace FederatedQuery

namespace Cursor

variable {W : Type}

/-- From a state on, in a world that it leaves as it is, a cursor delivers a feed. -/
inductive Yields (c : Cursor W) (w : W) : c.State → Feed → Prop
  | done {s s' : c.State} (ended : c.next s w = ⟨.ok false, s', w⟩) : Yields c w s .done
  | fail {s s' : c.State} {e : Error} (failed : c.next s w = ⟨.error e, s', w⟩) : Yields c w s (.fail e)
  | unread {s s' : c.State} {e : Error} (advanced : c.next s w = ⟨.ok true, s', w⟩)
      (failed : c.current s' = .error e) : Yields c w s (.fail e)
  | row {s s' : c.State} {r : Row} {rest : Feed} (advanced : c.next s w = ⟨.ok true, s', w⟩)
      (read : c.current s' = .ok r) (more : Yields c w s' rest) : Yields c w s (.row r rest)

/-- Closing succeeds and leaves the world as it is. -/
def Quiet (c : Cursor W) : Prop := ∀ s w, (c.close s w).result = .ok () ∧ (c.close s w).world = w

/-- The rows that a reader gets before the end or a failure. -/
def emitted (c : Cursor W) (s : c.State) (w : W) : List Row :=
  match _advanced : (c.next s w).result with
  | .ok true => match c.current (c.next s w).state with
    | .ok row => row :: emitted c (c.next s w).state (c.next s w).world
    | .error _ => []
  | _ => []
termination_by c.finite.wrap s
decreasing_by exact ⟨w, _advanced, rfl⟩

/-- From its start on, a cursor delivers a feed, and it closes without a trace. -/
def Delivers (c : Cursor W) (w : W) (F : Feed) : Prop := Yields c w c.start F ∧ c.Quiet

variable {c d : Cursor W} {w : W} {F : Feed} {s : c.State} {G : Feed} {u : Distinguishing c.State}

theorem Yields.of_next_eq {t : c.State} (same : c.next s w = c.next t w) (yields : Yields c w t F) :
    Yields c w s F := by
  cases yields with
  | done ended => exact .done (same.trans ended)
  | fail failed => exact .fail (same.trans failed)
  | unread advanced failed => exact .unread (same.trans advanced) failed
  | row advanced read more => exact .row (same.trans advanced) read more

section Pull

variable {β : Type} {f : Row → Except Error (Option β)} {s s' : c.State} {w' : W} {r : Row} {e : Error}

theorem drain_fail (failed : c.next s w = ⟨.error e, s', w'⟩) : c.drain s w = ⟨.error e, s', w'⟩ := by
  rw [Cursor.drain, failed]

theorem drain_done (ended : c.next s w = ⟨.ok false, s', w'⟩) : c.drain s w = ⟨.ok [], s', w'⟩ := by
  rw [Cursor.drain, ended]

theorem pull_of_fail (failed : c.next s w = ⟨.error e, s', w'⟩) : c.pull f s w = ⟨.error e, s', w'⟩ := by
  rw [Cursor.pull, failed]

theorem pull_of_done (ended : c.next s w = ⟨.ok false, s', w'⟩) : c.pull f s w = ⟨.ok none, s', w'⟩ := by
  rw [Cursor.pull, ended]

section

variable (advanced : c.next s w = ⟨.ok true, s', w'⟩)

include advanced

theorem drain_unread (failed : c.current s' = .error e) : c.drain s w = ⟨.error e, s', w'⟩ := by
  rw [Cursor.drain, advanced]
  simp only [failed]

theorem drain_row {s'' : c.State} {w'' : W} {result : Except Error (List Row)} (read : c.current s' = .ok r)
    (rest : c.drain s' w' = ⟨result, s'', w''⟩) : c.drain s w = ⟨result.map (r :: ·), s'', w''⟩ := by
  rw [Cursor.drain, advanced]
  simp only [read, rest]

theorem pull_of_unread (failed : c.current s' = .error e) : c.pull f s w = ⟨.error e, s', w'⟩ := by
  rw [Cursor.pull, advanced]
  simp only [failed]

theorem pull_of_row (read : c.current s' = .ok r) :
    c.pull f s w = match f r with
      | .error e => ⟨.error e, s', w'⟩
      | .ok (some b) => ⟨.ok (some b), s', w'⟩
      | .ok none => c.pull f s' w' := by
  cases outcome : f r with
  | error =>
    rw [Cursor.pull, advanced]
    simp only [read, outcome]
  | ok made =>
    cases made <;>
    · rw [Cursor.pull, advanced]
      simp only [read, outcome]

end

end Pull

theorem Yields.drain (yields : Yields c w s F) : ∃ s', c.drain s w = ⟨F.result, s', w⟩ := by
  induction yields with
  | done ended => exact ⟨_, drain_done ended⟩
  | fail failed => exact ⟨_, drain_fail failed⟩
  | unread advanced failed => exact ⟨_, drain_unread advanced failed⟩
  | row advanced read _ ih =>
    obtain ⟨s', rest⟩ := ih
    exact ⟨s', drain_row advanced read rest⟩

theorem Yields.emitted (yields : Yields c w s F) : c.emitted s w = F.rows := by
  induction yields with
  | done ended =>
    rw [Cursor.emitted, ended]
    rfl
  | fail failed =>
    rw [Cursor.emitted, failed]
    rfl
  | unread advanced failed =>
    rw [Cursor.emitted, advanced]
    simp only [failed]
    rfl
  | row advanced read _ ih =>
    rw [Cursor.emitted, advanced]
    simp only [read, ih]
    rfl

theorem Delivers.collect (delivers : c.Delivers w F) : c.collect c.start w = (F.result, w) := by
  obtain ⟨s', drained⟩ := delivers.1.drain
  obtain ⟨closed, world⟩ := delivers.2 s' w
  rw [Cursor.collect, drained]
  rw [closed, world]
  cases F.result <;> rfl

theorem yields_on (rows : List Row) (r : Row) (rest : List Row) :
    Yields (Cursor.ofRows rows) w (some (.on r rest)) (.ofRows rest) := by
  induction rest generalizing r with
  | nil => exact .done rfl
  | cons next rest ih => exact .row rfl rfl (ih next)

theorem yields_ofRows (rows : List Row) :
    Yields (Cursor.ofRows rows) w (Cursor.ofRows rows : Cursor W).start (.ofRows rows) := by
  cases rows with
  | nil => exact .done rfl
  | cons r rest => exact .row rfl rfl (yields_on (r :: rest) r rest)

theorem quiet_ofRows (rows : List Row) : (Cursor.ofRows rows : Cursor W).Quiet := fun _ _ => ⟨rfl, rfl⟩

section Buffered

variable {S : Type} {inputs : S} {build : S → W → Outcome W S (List Row)} {closeInputs : S → W → Outcome W S Unit}

theorem yields_built (s : S) (rows : List Row) (r : Row) (rest : List Row) :
    Yields (buffered inputs build closeInputs) w (.built s rows (.on r rest)) (.ofRows rest) := by
  induction rest generalizing r with
  | nil => exact .done rfl
  | cons next rest ih => exact .row rfl rfl (ih next)

theorem yields_buffered {result : Except Error (List Row)} (built : ∃ s', build inputs w = ⟨result, s', w⟩) :
    Yields (buffered inputs build closeInputs) w (.unbuilt inputs) (.ofResult result) := by
  obtain ⟨s', built⟩ := built
  cases result with
  | error e =>
    have next : (buffered inputs build closeInputs).next (.unbuilt inputs) w =
        ⟨.error e, .unbuilt s', w⟩ := by
      simp only [buffered, built]
    exact .fail next
  | ok rows =>
    have next : (buffered inputs build closeInputs).next (.unbuilt inputs) w =
        ⟨.ok (Position.front rows).isOn, .built s' rows (.front rows), w⟩ := by
      simp only [buffered, built]
    cases rows with
    | nil => exact .done next
    | cons r rest => exact .row next rfl (yields_built s' (r :: rest) r rest)

theorem quiet_buffered (quiet : ∀ s w, (closeInputs s w).result = .ok () ∧ (closeInputs s w).world = w) :
    (buffered inputs build closeInputs).Quiet := by
  intro s w
  cases s with
  | unbuilt s | built s rows p => exact quiet s w
  | closed => exact ⟨rfl, rfl⟩

end Buffered

theorem quiet_closeBoth (first : c.Quiet) (second : d.Quiet) (s : c.State) (t : d.State) (w : W) :
    (c.closeBoth d s t w).result = .ok () ∧ (c.closeBoth d s t w).world = w := by
  obtain ⟨closed, world⟩ := first s w
  obtain ⟨closed', world'⟩ := second t w
  simp only [closeBoth, closed, world, closed', world']
  exact ⟨rfl, trivial⟩

theorem yields_transformed (f : List Row → Except Error (List Row)) (yields : Yields c w c.start F) :
    Yields (c.transformed fun rows w => (f rows, w)) w (.unbuilt c.start) (.ofResult (F.result >>= f)) := by
  obtain ⟨s', drained⟩ := yields.drain
  refine yields_buffered ⟨s', ?_⟩
  rw [drained]
  cases F.result <;> rfl

theorem quiet_transformed (f : List Row → W → Except Error (List Row) × W) (quiet : c.Quiet) :
    (c.transformed f).Quiet :=
  quiet_buffered quiet

theorem yields_merged (f : List Row → List Row → Except Error (List Row)) (first : Yields c w c.start F)
    (second : Yields d w d.start G) :
    Yields (c.merged d f) w (.unbuilt (c.start, d.start))
      (.ofResult (do f (← F.result) (← G.result))) := by
  obtain ⟨s', drained⟩ := first.drain
  obtain ⟨t', drained'⟩ := second.drain
  have both : ∃ u, c.drainBoth d (c.start, d.start) w =
      ⟨do return (← F.result, ← G.result), u, w⟩ := by
    rw [drainBoth, drained]
    cases F.result with
    | error => exact ⟨_, rfl⟩
    | ok =>
      simp only [drained']
      cases G.result <;> exact ⟨_, rfl⟩
  obtain ⟨u, both⟩ := both
  refine yields_buffered ⟨u, ?_⟩
  rw [both]
  cases F.result with
  | error => rfl
  | ok => cases G.result <;> rfl

theorem quiet_merged (f : List Row → List Row → Except Error (List Row)) (first : c.Quiet)
    (second : d.Quiet) : (c.merged d f).Quiet :=
  quiet_buffered fun s w => quiet_closeBoth first second s.1 s.2 w

section Calculated

variable {program : Program} {params : Bindings} {s s' : c.State} {p : Phase} {e : Error}

theorem accept_of_fail (failed : c.next s w = ⟨.error e, s', w⟩) : c.accept program params s w = ⟨.error e, s', w⟩ := by
  cases condition : program.condition with
  | none => simp only [accept, condition, failed]
  | some => simp only [accept, condition, pull_of_fail failed, Except.map]

theorem accept_of_done (ended : c.next s w = ⟨.ok false, s', w⟩) :
    c.accept program params s w = ⟨.ok false, s', w⟩ := by
  cases condition : program.condition with
  | none => simp only [accept, condition, ended]
  | some => simp only [accept, condition, pull_of_done ended, Except.map, Option.isSome]

theorem accept_of_row {r : Row} (advanced : c.next s w = ⟨.ok true, s', w⟩) (read : c.current s' = .ok r) :
    c.accept program params s w = match program.accepts r params with
      | .error e => ⟨.error e, s', w⟩
      | .ok true => ⟨.ok true, s', w⟩
      | .ok false => c.accept program params s' w := by
  cases condition : program.condition with
  | none => simp only [accept, Program.accepts, condition, advanced]
  | some e =>
    simp only [accept, Program.accepts, condition, pull_of_row advanced read]
    cases e.test r params with
    | error => rfl
    | ok passed => cases passed <;> rfl

theorem calculated_next (opened : p ≠ .closed) {found : Bool}
    (accepted : c.accept program params s w = ⟨.ok found, s', w⟩) :
    (c.calculated program params).next (s, p) w = ⟨.ok found, (s', .advanced found), w⟩ := by
  simp only [calculated, opened, if_false, accepted]

theorem calculated_next_fail (opened : p ≠ .closed) (failed : c.accept program params s w = ⟨.error e, s', w⟩) :
    (c.calculated program params).next (s, p) w = ⟨.error e, (s', p), w⟩ := by
  simp only [calculated, opened, if_false, failed]

/-- A program without an unwind makes at most one row of each row. -/
theorem yields_calculated {F : Feed} (yields : Yields c w s F) (opened : p ≠ .closed) :
    Yields (c.calculated program params) w (s, p) (F.expand (Rows.calculateRow program params)) := by
  induction yields generalizing p with
  | done ended => exact .done (calculated_next opened (accept_of_done ended))
  | fail failed => exact .fail (calculated_next_fail opened (accept_of_fail failed))
  | @unread s s' e advanced failed =>
    cases condition : program.condition with
    | none =>
      -- The input is not read before the current row is asked for.
      have accepted : c.accept program params s w = ⟨.ok true, s', w⟩ := by
        simp only [accept, condition, advanced]
      refine .unread (calculated_next opened accepted) ?_
      simp only [calculated, failed]
      rfl
    | some =>
      have failed : c.accept program params s w = ⟨.error e, s', w⟩ := by
        simp only [accept, condition, pull_of_unread advanced failed, Except.map]
      exact .fail (calculated_next_fail opened failed)
  | @row s s' r rest advanced read more ih =>
    have accepted : c.accept program params s w = _ := accept_of_row advanced read
    rw [Feed.expand, Rows.calculateRow]
    cases passes : program.accepts r params with
    | error =>
      rw [passes] at accepted
      exact .fail (calculated_next_fail opened accepted)
    | ok passed =>
      rw [passes] at accepted
      cases passed with
      | false =>
        refine .of_next_eq ?_ (ih opened)
        simp only [calculated, opened, if_false, accepted]
      | true =>
        have advanced := calculated_next opened accepted
        have current : (c.calculated program params).current (s', .positioned) =
            program.projectRow r params := by
          simp only [calculated, read]
          rfl
        cases projected : program.projectRow r params with
        | error => exact .unread advanced (current.trans projected)
        | ok => exact .row advanced (current.trans projected) (ih Phase.noConfusion)

theorem quiet_calculated (quiet : c.Quiet) : (c.calculated program params).Quiet := by
  rintro ⟨s, p⟩ w
  simp only [calculated]
  split
  · exact ⟨rfl, rfl⟩
  · exact quiet s w

end Calculated

section Unwound

variable {program : Program} {position : Nat} {params : Bindings}

/-- From any state whose advance refills it, an unwinding cursor delivers what its input expands to. -/
theorem yields_refill {s : c.State} {F : Feed} (yields : Yields c w s F)
    {u : Unwinding c.State} {stay : c.State → Unwinding c.State}
    (refills : (c.unwound program position params).next u w = c.refill program position params stay s w) :
    Yields (c.unwound program position params) w u
      (F.expand (Rows.unwindRow program position params)) := by
  induction yields generalizing u stay with
  | done ended =>
    rw [refill, pull_of_done ended] at refills
    exact .done refills
  | fail failed =>
    rw [refill, pull_of_fail failed] at refills
    exact .fail refills
  | unread advanced failed =>
    rw [refill, pull_of_unread advanced failed] at refills
    exact .fail refills
  | @row s s' r rest advanced read more ih =>
    rw [refill, pull_of_row advanced read] at refills
    rw [Feed.expand]
    cases unwound : Rows.unwindRow program position params r with
    | error =>
      rw [unwound] at refills
      exact .fail refills
    | ok made =>
      rw [unwound] at refills
      cases made with
      | nil => exact ih refills
      | cons first made =>
        -- The rows of one array come before the input is asked again.
        refine .row refills rfl ?_
        clear refills unwound
        induction made generalizing first with
        | nil => exact @ih _ (.on · []) rfl
        | cons second made later => exact .row rfl rfl (later second)

theorem yields_unwound {F : Feed} (yields : Yields c w c.start F) :
    Yields (c.unwound program position params) w (.unstarted c.start)
      (F.expand (Rows.unwindRow program position params)) :=
  yields_refill yields rfl

theorem quiet_unwound (quiet : c.Quiet) : (c.unwound program position params).Quiet := by
  intro u w
  cases u with
  | unstarted s | on s _ | exhausted s => exact quiet s w
  | closed => exact ⟨rfl, rfl⟩

end Unwound

section Concatenated

variable {G : Feed} {t : d.State} {u v : Concatenating c.State d.State}

/-- From any state whose advance reads the right input, a concatenation delivers what is left of that. -/
theorem yields_nextRight (yields : Yields d w t G)
    (right : v.right = t) (reads : (c.concatenated d).next u w = c.nextRight d v w) :
    Yields (c.concatenated d) w u G := by
  induction yields generalizing u v with
  | done ended =>
    rw [nextRight, right, ended] at reads
    exact .done reads
  | fail failed =>
    rw [nextRight, right, failed] at reads
    exact .fail reads
  | unread advanced failed =>
    rw [nextRight, right, advanced] at reads
    exact .unread reads failed
  | row advanced read more ih =>
    rw [nextRight, right, advanced] at reads
    exact .row reads read (ih rfl rfl)

theorem yields_nextLeft {s : c.State} {F : Feed} (first : Yields c w s F) (second : Yields d w t G) (left : v.left = s)
    (right : v.right = t) (side : v.side = .left) (reads : (c.concatenated d).next u w = c.nextLeft d v w) :
    Yields (c.concatenated d) w u (F.append G) := by
  induction first generalizing u v with
  | @done s s' ended =>
    rw [nextLeft, left, ended] at reads
    exact yields_nextRight second (v := { v with left := s' }) right reads
  | fail failed =>
    rw [nextLeft, left, failed] at reads
    exact .fail reads
  | unread advanced failed =>
    rw [nextLeft, left, advanced] at reads
    refine .unread reads ?_
    simp only [concatenated, side, if_true, failed]
    rfl
  | row advanced read more ih =>
    rw [nextLeft, left, advanced] at reads
    refine .row reads ?_ (ih (v := { v with left := _, phase := .positioned }) rfl right side ?_)
    · simp only [concatenated, side, if_true, read]
      rfl
    · simp only [concatenated, side]
      rfl

theorem yields_concatenated {F : Feed} (first : Yields c w c.start F) (second : Yields d w d.start G) :
    Yields (c.concatenated d) w (c.concatenated d).start (F.append G) :=
  yields_nextLeft first second rfl rfl rfl rfl

theorem quiet_concatenated (first : c.Quiet) (second : d.Quiet) : (c.concatenated d).Quiet := by
  intro s w
  simp only [concatenated]
  split
  · exact ⟨rfl, rfl⟩
  · exact quiet_closeBoth first second s.left s.right w

end Concatenated

theorem distinguished_next (opened : u.phase ≠ .closed) :
    c.distinguished.next u w =
      let o := c.pull (fun row => .ok (if Rows.hasKey u.seen row then none else some row)) u.input w
      match o.result with
      | .ok (some row) => ⟨.ok true, ⟨o.state, u.seen ++ [row], some row, .positioned⟩, o.world⟩
      | .ok none => ⟨.ok false, ⟨o.state, u.seen, none, .exhausted⟩, o.world⟩
      | .error e => ⟨.error e, ⟨o.state, u.seen, none, u.phase⟩, o.world⟩ :=
  if_neg opened

theorem yields_distinguished (yields : Yields c w s F)
    (opened : u.phase ≠ .closed) (input : u.input = s) : Yields c.distinguished w u (F.distinctFrom u.seen) := by
  induction yields generalizing u with
  | done ended =>
    have reads := distinguished_next (w := w) opened
    rw [input, pull_of_done ended] at reads
    exact .done reads
  | fail failed =>
    have reads := distinguished_next (w := w) opened
    rw [input, pull_of_fail failed] at reads
    exact .fail reads
  | unread advanced failed =>
    have reads := distinguished_next (w := w) opened
    rw [input, pull_of_unread advanced failed] at reads
    exact .fail reads
  | @row s s' r rest advanced read more ih =>
    have reads := distinguished_next (w := w) opened
    rw [input, pull_of_row advanced read] at reads
    rw [Feed.distinctFrom]
    split
    · next known =>
      rw [known] at reads
      have later := distinguished_next (u := { u with input := s' }) (w := w) opened
      exact .of_next_eq (reads.trans later.symm) (ih (u := { u with input := s' }) opened rfl)
    · next fresh =>
      rw [Bool.eq_false_iff.2 fresh] at reads
      exact .row reads rfl (ih Phase.noConfusion rfl)

theorem quiet_distinguished (quiet : c.Quiet) : c.distinguished.Quiet := by
  intro s w
  simp only [distinguished]
  split
  · exact ⟨rfl, rfl⟩
  · exact quiet s.input w

theorem yields_combined (op : SetOp) (all : Bool) (first : Yields c w c.start F) (second : Yields d w d.start G) :
    Yields (combined op all c d) w (combined op all c d).start (.combine op all F G) := by
  cases op with
  | union =>
    cases all with
    | true => exact yields_concatenated first second
    | false => exact yields_distinguished (yields_concatenated first second) Phase.noConfusion rfl
  | intersect => exact yields_merged (fun left right => .ok (Rows.setOperation .intersect all left right)) first second
  | minus => exact yields_merged (fun left right => .ok (Rows.setOperation .minus all left right)) first second

theorem quiet_combined (op : SetOp) (all : Bool) (first : c.Quiet) (second : d.Quiet) :
    (combined op all c d).Quiet := by
  unfold combined
  split
  · exact quiet_concatenated first second
  · exact quiet_distinguished (quiet_concatenated first second)
  · exact quiet_merged _ first second

end Cursor

end FederatedQuery
