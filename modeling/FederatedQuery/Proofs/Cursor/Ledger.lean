import FederatedQuery.Proofs.Cursor.Projection
import FederatedQuery.Proofs.Foreign.Journal
import Mathlib.Data.List.Perm.Basic

/-!
What a tree of cursors does to the world, in a journal. A deed is a table that is changed or an artifact that is
opened, at a numbered site of the tree. A tree keeps a ledger when its state tells which deeds it has done: every call
does only deeds that are not done yet, and closing it closes what is open, from left to right, each once and whatever
fails. Where the systems outside keep apart from the tables, deeds are all that happens to these. Each way to build
cursors from others keeps a ledger when they do.
-/
namespace FederatedQuery

open Foreign

/-- What a site of a tree does, once. -/
inductive Deed where
  | changed (site : Nat) (table : String) (rows : List Row)
  | opened (site : Nat)

namespace Deed

def site : Deed → Nat
  | changed k .. | opened k => k

def opened? : Deed → Option Nat
  | changed .. => none
  | opened k => some k

def write (store : Store) : Deed → Store
  | changed _ table rows => store.put table rows
  | opened _ => store

end Deed

/-- How the cursor that was opened at a site has closed. -/
structure Ending where
  site : Nat
  result : Except Error Unit

/-- What is written in the journal. -/
inductive Event where
  | did (deed : Deed)
  | closed (ending : Ending)

namespace Event

def deed? : Event → Option Deed
  | did deed => some deed
  | closed _ => none

end Event

/-- The first failure among endings, if there is one. -/
def firstFailure : List Ending → Except Error Unit
  | [] => .ok ()
  | e :: rest => match e.result with
    | .error cause => .error cause
    | .ok _ => firstFailure rest

theorem firstFailure_append (first second : List Ending) :
    firstFailure (first ++ second) = (do firstFailure first; firstFailure second) := by
  induction first with
  | nil => rfl
  | cons e rest ih =>
    rw [List.cons_append, firstFailure, firstFailure]
    cases e.result with
    | error => rfl
    | ok => exact ih

/-- Deeds at sites in a range, from left to right and one at most for each site. -/
structure Within (lo hi : Nat) (deeds : List Deed) : Prop where
  range : lo ≤ hi
  inside : ∀ d ∈ deeds, lo ≤ d.site ∧ d.site < hi
  ordered : deeds.Pairwise fun d e => d.site < e.site

namespace Within

variable {lo mid hi : Nat} {deeds others : List Deed}

theorem nil (range : lo ≤ hi) : Within lo hi [] := ⟨range, nofun, .nil⟩

theorem single (d : Deed) : Within d.site (d.site + 1) [d] := by
  refine ⟨Nat.le_succ _, fun e mem => ?_, List.pairwise_singleton _ _⟩
  rw [List.mem_singleton.1 mem]
  exact ⟨Nat.le_refl _, Nat.lt_succ_self _⟩

theorem append (first : Within lo mid deeds) (second : Within mid hi others) : Within lo hi (deeds ++ others) := by
  have below := first.range
  have above := second.range
  refine ⟨Nat.le_trans below above, fun d mem => ?_, List.pairwise_append.2 ⟨first.ordered, second.ordered, ?_⟩⟩
  · rcases List.mem_append.1 mem with mem | mem
    · have := first.inside d mem
      omega
    · have := second.inside d mem
      omega
  · intro d left e right
    have := first.inside d left
    have := second.inside e right
    omega

theorem widen {wide : Nat} (within : Within lo hi deeds) (more : hi ≤ wide) : Within lo wide deeds := by
  refine ⟨Nat.le_trans within.range more, fun d mem => ?_, within.ordered⟩
  have := within.inside d mem
  omega

theorem nodup (within : Within lo hi deeds) : (deeds.map Deed.site).Nodup :=
  (List.pairwise_map.2 within.ordered).imp Nat.ne_of_lt

end Within

/-- A world in whose journal events are written. -/
abbrev Book (σ : Type) := World (Noted Event σ)

variable {σ S T α β : Type} {apart : Prop} {deeds : List Deed} {w : Book σ}

/-- From one world to another the journal gains deeds, and they are all that happens to the tables if the systems
outside keep apart from these. -/
structure Stepped (apart : Prop) (w w' : Book σ) (more : List Deed) : Prop where
  journal : w'.journal = w.journal ++ more.map .did
  store : apart → w'.store = more.foldl Deed.write w.store

namespace Stepped

variable {apart : Prop} {w w' w'' : Book σ} {more later : List Deed}

theorem refl (w : Book σ) : Stepped apart w w [] := ⟨(List.append_nil _).symm, fun _ => rfl⟩

theorem trans (first : Stepped apart w w' more) (second : Stepped apart w' w'' later) :
    Stepped apart w w'' (more ++ later) where
  journal := by rw [second.journal, first.journal, List.map_append, List.append_assoc]
  store keeps := by rw [second.store keeps, first.store keeps, List.foldl_append]

end Stepped

/-- After a call there are new deeds, and the state tells of them and of those before. -/
def Adds (apart : Prop) (R : S → List Deed → Prop) (deeds : List Deed) (w : Book σ)
    (o : Outcome (Book σ) S α) : Prop :=
  ∃ more after, Stepped apart w o.world more ∧ (deeds ++ more).Perm after ∧ R o.state after

namespace Adds

variable {apart : Prop} {R : S → List Deed → Prop} {deeds : List Deed} {w : Book σ} {o : Outcome (Book σ) S α}
  {R' : T → List Deed → Prop} {p : Outcome (Book σ) T β}

theorem of_stepped {more : List Deed} (stepped : Stepped apart w o.world more) (here : R o.state (deeds ++ more)) :
    Adds apart R deeds w o :=
  ⟨more, _, stepped, .refl _, here⟩

theorem none {state : S} {result : Except Error α} (here : R state deeds) : Adds apart R deeds w ⟨result, state, w⟩ :=
  of_stepped (.refl w) (by rwa [List.append_nil])

theorem trans (first : Adds apart R deeds w o)
    (second : ∀ after, R o.state after → Adds apart R' after o.world p) : Adds apart R' deeds w p := by
  obtain ⟨more, middle, stepped, perm, here⟩ := first
  obtain ⟨later, after, stepped', perm', there⟩ := second middle here
  refine ⟨more ++ later, after, stepped.trans stepped', ?_, there⟩
  rw [← List.append_assoc]
  exact (perm.append_right later).trans perm'

/-- The same deeds in a state that the first one is a part of. -/
theorem lift (adds : Adds apart R deeds w o)
    (world : p.world = o.world) (part : ∀ after, R o.state after → R' p.state after) : Adds apart R' deeds w p := by
  obtain ⟨more, after, stepped, perm, here⟩ := adds
  exact ⟨more, after, world ▸ stepped, perm, part after here⟩

end Adds

/-- The deeds of two states side by side. -/
def Beside (R : S → List Deed → Prop) (Q : T → List Deed → Prop) (s : S) (t : T) (deeds : List Deed) : Prop :=
  ∃ first second, R s first ∧ Q t second ∧ deeds = first ++ second

section Beside

variable {apart : Prop} {R : S → List Deed → Prop} {Q : T → List Deed → Prop} {first second : List Deed} {w : Book σ}

theorem Adds.left {o : Outcome (Book σ) S α} {t : T} (adds : Adds apart R first w o)
    (other : Q t second) : Adds apart (fun s => Beside R Q s t) (first ++ second) w o := by
  obtain ⟨more, after, stepped, perm, here⟩ := adds
  refine ⟨more, after ++ second, stepped, ?_, after, second, here, other, rfl⟩
  calc first ++ second ++ more
    _ = first ++ (second ++ more) := List.append_assoc ..
    List.Perm _ (first ++ (more ++ second)) := List.perm_append_comm.append_left first
    _ = first ++ more ++ second := (List.append_assoc ..).symm
    List.Perm _ (after ++ second) := perm.append_right second

theorem Adds.right {o : Outcome (Book σ) T α} {s : S} (other : R s first)
    (adds : Adds apart Q second w o) : Adds apart (fun t => Beside R Q s t) (first ++ second) w o := by
  obtain ⟨more, after, stepped, perm, here⟩ := adds
  refine ⟨more, first ++ after, stepped, ?_, first, after, other, here, rfl⟩
  rw [List.append_assoc]
  exact perm.append_left first

end Beside

/-- Closing closes what is open of the deeds, from left to right, and reports the first failure. -/
structure Closes (apart : Prop) (deeds : List Deed) (w : Book σ)
    (o : Outcome (Book σ) S Unit) : Prop where
  ended : ∃ ends : List Ending, o.world.journal = w.journal ++ ends.map .closed ∧
    ends.map Ending.site = deeds.filterMap Deed.opened? ∧ o.result = firstFailure ends
  store : apart → o.world.store = w.store

theorem Closes.none {state : S}
    (unopened : deeds.filterMap Deed.opened? = []) : Closes apart deeds w ⟨.ok (), state, w⟩ :=
  ⟨⟨[], (List.append_nil _).symm, unopened.symm, rfl⟩, fun _ => rfl⟩

theorem Closes.lift {o : Outcome (Book σ) S Unit} (closes : Closes apart deeds w o) (f : S → T) :
    Closes apart deeds w (o.lift f) :=
  ⟨closes.ended, closes.store⟩

namespace Cursor

/-- A state tells of deeds, or the cursor is shut for good. -/
structure Keeps (apart : Prop) (c : Cursor (Book σ)) (lo hi : Nat) (R : c.State → List Deed → Prop)
    (Shut : c.State → Prop) : Prop where
  within {s : c.State} {deeds : List Deed} (here : R s deeds) : Within lo hi deeds
  start : R c.start []
  next {s : c.State} {deeds : List Deed} (here : R s deeds) (w : Book σ) : Adds apart R deeds w (c.next s w)
  reset {s : c.State} {deeds : List Deed} (here : R s deeds) (w : Book σ) :
    Stepped apart w (c.reset s w).world [] ∧ R (c.reset s w).state deeds
  close {s : c.State} {deeds : List Deed} (here : R s deeds) (w : Book σ) :
    Closes apart deeds w (c.close s w) ∧ Shut (c.close s w).state
  shut_next {s : c.State} (shut : Shut s) (w : Book σ) : c.next s w = ⟨.error (closedError "move_next"), s, w⟩
  shut_reset {s : c.State} (shut : Shut s) (w : Book σ) : c.reset s w = ⟨.error (closedError "reset"), s, w⟩
  shut_close {s : c.State} (shut : Shut s) (w : Book σ) : c.close s w = ⟨.ok (), s, w⟩

/-- A cursor keeps a ledger of what it does at a range of sites. -/
def Ledgered (apart : Prop) (c : Cursor (Book σ)) (lo hi : Nat) : Prop := ∃ R Shut, Keeps apart c lo hi R Shut

variable {apart : Prop}

section Keeps

variable {c d : Cursor (Book σ)} {lo mid hi : Nat} {R : c.State → List Deed → Prop} {Shut : c.State → Prop}
  {s : c.State} {deeds : List Deed}

theorem Keeps.pull (keeps : c.Keeps apart lo hi R Shut) (f : Row → Except Error (Option β)) (s : c.State)
    (w : Book σ) : ∀ deeds, R s deeds → Adds apart R deeds w (c.pull f s w) := by
  fun_induction Cursor.pull c f s w with
  | case1 s w | case2 s w | case3 s w | case4 s w | case5 s w =>
    intro deeds here
    exact (keeps.next here w).lift rfl fun _ => id
  | case6 s w o advanced row read skipped ih =>
    intro deeds here
    exact (keeps.next here w).trans ih

theorem Keeps.drain (keeps : c.Keeps apart lo hi R Shut) (s : c.State) (w : Book σ) :
    ∀ deeds, R s deeds → Adds apart R deeds w (c.drain s w) := by
  fun_induction Cursor.drain c s w with
  | case1 s w | case2 s w | case3 s w =>
    intro deeds here
    exact (keeps.next here w).lift rfl fun _ => id
  | case4 s w o advanced row read rest ih =>
    intro deeds here
    exact (keeps.next here w).trans fun after there => (ih after there).lift rfl fun _ => id

end Keeps

theorem Ledgered.ofRows {lo hi : Nat} (range : lo ≤ hi) (rows : List Row) :
    (ofRows rows : Cursor (Book σ)).Ledgered apart lo hi := by
  refine ⟨fun s deeds => s.isSome = true ∧ deeds = [], fun s => s = none, ?_, ⟨rfl, rfl⟩, ?_, ?_, ?_, ?_, ?_, ?_⟩
  · rintro s deeds ⟨_, rfl⟩
    exact .nil range
  · rintro (_ | p) deeds ⟨opened, rfl⟩ w
    · cases opened
    · exact .none ⟨rfl, rfl⟩
  · rintro (_ | p) deeds ⟨opened, rfl⟩ w
    · cases opened
    · exact ⟨.refl w, rfl, rfl⟩
  · rintro s deeds ⟨_, rfl⟩ w
    exact ⟨.none rfl, rfl⟩
  all_goals
    rintro s rfl w
    rfl

section Buffered

variable {lo hi : Nat} {inputs : S} {build : S → Book σ → Outcome (Book σ) S (List Row)}
  {closeInputs : S → Book σ → Outcome (Book σ) S Unit}

/-- How the state of a buffer tells of deeds: as its inputs do before and after it is built. -/
def Buffering (R Q : S → List Deed → Prop) : Buffer S → List Deed → Prop
  | .unbuilt s, deeds => R s deeds
  | .built s _ _, deeds => Q s deeds
  | .closed, _ => False

/-- A buffer keeps a ledger when a build that fails leaves its inputs as unbuilt ones are. -/
theorem Ledgered.buffered {R Q : S → List Deed → Prop} (start : R inputs [])
    (within : ∀ s deeds, R s deeds ∨ Q s deeds → Within lo hi deeds) (built : ∀ s deeds, R s deeds → ∀ w,
      Adds apart (if (build s w).result.isOk then Q else R) deeds w (build s w))
    (closed : ∀ s deeds, R s deeds ∨ Q s deeds → ∀ w, Closes apart deeds w (closeInputs s w)) :
    (buffered inputs build closeInputs).Ledgered apart lo hi := by
  refine ⟨Buffering R Q, fun s => s = .closed, ?_, start, ?_, ?_, ?_, ?_, ?_, ?_⟩
  · rintro (s | ⟨s, rows, p⟩ | _) deeds here
    · exact within s deeds (.inl here)
    · exact within s deeds (.inr here)
    · cases here
  · rintro (s | ⟨s, rows, p⟩ | _) deeds here w
    · have adds := built s deeds here w
      simp only [Cursor.buffered]
      cases result : (build s w).result with
      | ok | error =>
        rw [result] at adds
        exact adds.lift rfl fun _ => id
    · exact .none here
    · cases here
  · rintro (s | ⟨s, rows, p⟩ | _) deeds here w
    · exact ⟨.refl w, here⟩
    · exact ⟨.refl w, here⟩
    · cases here
  · rintro (s | ⟨s, rows, p⟩ | _) deeds here w
    · exact ⟨(closed s deeds (.inl here) w).lift fun _ => Buffer.closed, rfl⟩
    · exact ⟨(closed s deeds (.inr here) w).lift fun _ => Buffer.closed, rfl⟩
    · cases here
  all_goals
    rintro s rfl w
    rfl

end Buffered

section Inputs

variable {c d : Cursor (Book σ)} {lo mid hi : Nat} {f : List Row → Book σ → Except Error (List Row) × Book σ}

/-- A function that does deeds of its own when it succeeds, at sites after those of its input and none of them an
opening, and nothing when it fails. -/
theorem Ledgered.transformed {top : Nat} (ledgered : c.Ledgered apart lo hi) (range : hi ≤ top)
    (done : ∀ rows w out, (f rows w).1 = .ok out →
      ∃ own, Stepped apart w (f rows w).2 own ∧ Within hi top own ∧ own.filterMap Deed.opened? = [])
    (failed : ∀ rows w e, (f rows w).1 = .error e → (f rows w).2 = w) : (c.transformed f).Ledgered apart lo top := by
  obtain ⟨R, Shut, keeps⟩ := ledgered
  let Q (s : c.State) (deeds : List Deed) : Prop :=
    ∃ before own, R s before ∧ Within hi top own ∧ own.filterMap Deed.opened? = [] ∧ deeds = before ++ own
  refine .buffered (R := R) (Q := Q) keeps.start ?_ ?_ ?_
  · rintro s deeds (here | ⟨before, own, here, within, -, rfl⟩)
    · exact (keeps.within here).widen range
    · exact (keeps.within here).append within
  · intro s deeds here w
    have drained := keeps.drain s w deeds here
    cases result : (c.drain s w).result with
    | error =>
      simp only [result]
      exact drained.lift rfl fun _ => id
    | ok rows =>
      simp only [result]
      cases made : (f rows (c.drain s w).world).1 with
      | error e => exact drained.lift (failed rows _ e made) fun _ => id
      | ok out =>
        obtain ⟨own, stepped, within, silent⟩ := done rows _ out made
        exact drained.trans fun before there => .of_stepped stepped ⟨before, own, there, within, silent, rfl⟩
  · rintro s deeds (here | ⟨before, own, here, -, silent, rfl⟩) w
    · exact (keeps.close here w).1
    · obtain ⟨⟨ends, journal, sites, result⟩, store⟩ := (keeps.close here w).1
      refine ⟨⟨ends, journal, ?_, result⟩, store⟩
      rw [sites, List.filterMap_append, silent, List.append_nil]

section Beside

variable {R : c.State → List Deed → Prop} {Q : d.State → List Deed → Prop} {Shut : c.State → Prop}
  {Shut' : d.State → Prop} {s : c.State} {t : d.State} {deeds : List Deed}

theorem Keeps.closeBoth (first : c.Keeps apart lo mid R Shut) (second : d.Keeps apart mid hi Q Shut')
    (here : Beside R Q s t deeds) (w : Book σ) : Closes apart deeds w (c.closeBoth d s t w) := by
  obtain ⟨left, right, here, there, rfl⟩ := here
  obtain ⟨⟨ends, journal, sites, result⟩, store⟩ := (first.close here w).1
  obtain ⟨⟨ends', journal', sites', result'⟩, store'⟩ := (second.close there (c.close s w).world).1
  refine ⟨⟨ends ++ ends', ?_, ?_, ?_⟩, fun keeps => (store' keeps).trans (store keeps)⟩
  · rw [List.map_append, ← List.append_assoc, ← journal]
    exact journal'
  · rw [List.map_append, List.filterMap_append, sites, sites']
  · rw [firstFailure_append, ← result, ← result']
    rfl

theorem Keeps.within_beside (first : c.Keeps apart lo mid R Shut) (second : d.Keeps apart mid hi Q Shut')
    (here : Beside R Q s t deeds) : Within lo hi deeds := by
  obtain ⟨left, right, here, there, rfl⟩ := here
  exact (first.within here).append (second.within there)

theorem Keeps.drainBoth (first : c.Keeps apart lo mid R Shut) (second : d.Keeps apart mid hi Q Shut')
    (here : Beside R Q s t deeds) (w : Book σ) :
    Adds apart (fun s => Beside R Q s.1 s.2) deeds w (c.drainBoth d (s, t) w) := by
  obtain ⟨left, right, here, there, rfl⟩ := here
  have drained := (first.drain s w left here).left there
  unfold Cursor.drainBoth
  cases result : (c.drain s w).result with
  | error =>
    simp only [result]
    exact drained.lift rfl fun _ => id
  | ok =>
    simp only [result]
    refine drained.trans ?_
    rintro after ⟨left, right, here, there, rfl⟩
    exact (Adds.right here (second.drain t _ right there)).lift rfl fun _ => id

end Beside

theorem Ledgered.merged (f : List Row → List Row → Except Error (List Row)) (first : c.Ledgered apart lo mid)
    (second : d.Ledgered apart mid hi) : (c.merged d f).Ledgered apart lo hi := by
  obtain ⟨R, Shut, first⟩ := first
  obtain ⟨Q, Shut', second⟩ := second
  refine .buffered (R := fun s => Beside R Q s.1 s.2) (Q := fun s => Beside R Q s.1 s.2)
    ⟨[], [], first.start, second.start, rfl⟩ ?_ ?_ ?_
  · rintro s deeds (here | here) <;> exact first.within_beside second here
  · intro s deeds here w
    rw [ite_self]
    exact (first.drainBoth second here w).lift rfl fun _ => id
  · rintro s deeds (here | here) w <;> exact first.closeBoth second here w

section Concatenated

variable {R : c.State → List Deed → Prop} {Q : d.State → List Deed → Prop} {Shut : c.State → Prop}
  {Shut' : d.State → Prop} {s : Concatenating c.State d.State} {deeds : List Deed}

/-- How the state of a concatenation tells of deeds: as its inputs do, side by side. -/
def Joined (R : c.State → List Deed → Prop) (Q : d.State → List Deed → Prop) (s : Concatenating c.State d.State)
    (deeds : List Deed) : Prop :=
  s.phase ≠ .closed ∧ Beside R Q s.left s.right deeds

theorem Keeps.nextRight (second : d.Keeps apart mid hi Q Shut') (here : Joined R Q s deeds)
    (w : Book σ) : Adds apart (Joined R Q) deeds w (c.nextRight d s w) := by
  obtain ⟨opened, left, right, here, there, rfl⟩ := here
  have adds := Adds.right here (second.next there w)
  unfold Cursor.nextRight
  cases result : (d.next s.right w).result with
  | error =>
    simp only [result]
    exact adds.lift rfl fun _ there => ⟨opened, there⟩
  | ok found => cases found with
    | true | false =>
      simp only [result]
      exact adds.lift rfl fun _ there => ⟨nofun, there⟩

theorem Keeps.nextLeft (first : c.Keeps apart lo mid R Shut) (second : d.Keeps apart mid hi Q Shut')
    (here : Joined R Q s deeds) (w : Book σ) : Adds apart (Joined R Q) deeds w (c.nextLeft d s w) := by
  obtain ⟨opened, left, right, here, there, rfl⟩ := here
  have adds := (first.next here w).left there
  unfold Cursor.nextLeft
  cases result : (c.next s.left w).result with
  | error =>
    simp only [result]
    exact adds.lift rfl fun _ there => ⟨opened, there⟩
  | ok found => cases found with
    | true =>
      simp only [result]
      exact adds.lift rfl fun _ there => ⟨nofun, there⟩
    | false =>
      simp only [result]
      refine adds.trans fun _ there => ?_
      exact second.nextRight (s := ⟨(c.next s.left w).state, s.right, s.side, s.phase⟩) ⟨opened, there⟩ _

theorem Keeps.concatenated (first : c.Keeps apart lo mid R Shut) (second : d.Keeps apart mid hi Q Shut') :
    (c.concatenated d).Keeps apart lo hi (Joined R Q) (fun s => s.phase = .closed) where
  within here := first.within_beside second here.2
  start := ⟨nofun, [], [], first.start, second.start, rfl⟩
  next := by
    intro s deeds here w
    simp only [Cursor.concatenated]
    rw [if_neg here.1]
    cases side : s.side with
    | left => exact first.nextLeft second here w
    | right => exact second.nextRight here w
    | done => exact .none ⟨nofun, here.2⟩
  reset := by
    rintro s _ ⟨opened, left, right, here, there, rfl⟩ w
    obtain ⟨quiet, rewound⟩ := first.reset here w
    obtain ⟨quiet', rewound'⟩ := second.reset there (c.reset s.left w).world
    simp only [Cursor.concatenated]
    rw [if_neg opened]
    cases result : (c.reset s.left w).result with
    | error => exact ⟨quiet, opened, left, right, rewound, there, rfl⟩
    | ok =>
      cases result' : (d.reset s.right (c.reset s.left w).world).result with
      | error => exact ⟨quiet.trans quiet', opened, left, right, rewound, rewound', rfl⟩
      | ok => exact ⟨quiet.trans quiet', nofun, left, right, rewound, rewound', rfl⟩
  close := by
    intro s deeds here w
    simp only [Cursor.concatenated]
    rw [if_neg here.1]
    exact ⟨(first.closeBoth second here.2 w).lift _, rfl⟩
  shut_next shut w := if_pos shut
  shut_reset shut w := if_pos shut
  shut_close shut w := if_pos shut

end Concatenated

theorem Ledgered.concatenated (first : c.Ledgered apart lo mid) (second : d.Ledgered apart mid hi) :
    (c.concatenated d).Ledgered apart lo hi := by
  obtain ⟨R, Shut, first⟩ := first
  obtain ⟨Q, Shut', second⟩ := second
  exact ⟨_, _, first.concatenated second⟩

theorem Ledgered.distinguished (ledgered : c.Ledgered apart lo hi) : c.distinguished.Ledgered apart lo hi := by
  obtain ⟨R, Shut, keeps⟩ := ledgered
  refine ⟨fun s deeds => s.phase ≠ .closed ∧ R s.input deeds, fun s => s.phase = .closed,
    fun here => keeps.within here.2, ⟨nofun, keeps.start⟩, ?_, ?_, ?_, fun shut _ => if_pos shut,
    fun shut _ => if_pos shut, fun shut _ => if_pos shut⟩
  · rintro s deeds ⟨opened, here⟩ w
    simp only [Cursor.distinguished]
    rw [if_neg opened]
    have adds := keeps.pull (fun row => .ok (if Rows.hasKey s.seen row then none else some row)) s.input w deeds here
    generalize c.pull _ s.input w = o at adds
    obtain ⟨e | _ | row, t, v⟩ := o
    · exact adds.lift rfl fun _ there => ⟨opened, there⟩
    all_goals exact adds.lift rfl fun _ there => ⟨nofun, there⟩
  · rintro s deeds ⟨opened, here⟩ w
    obtain ⟨quiet, rewound⟩ := keeps.reset here w
    simp only [Cursor.distinguished]
    rw [if_neg opened]
    cases result : (c.reset s.input w).result with
    | error => exact ⟨quiet, opened, rewound⟩
    | ok => exact ⟨quiet, nofun, rewound⟩
  · rintro s deeds ⟨opened, here⟩ w
    simp only [Cursor.distinguished]
    rw [if_neg opened]
    exact ⟨(keeps.close here w).1.lift _, rfl⟩

theorem Ledgered.combined (op : SetOp) (all : Bool) (first : c.Ledgered apart lo mid)
    (second : d.Ledgered apart mid hi) : (Cursor.combined op all c d).Ledgered apart lo hi := by
  unfold Cursor.combined
  split
  · exact first.concatenated second
  · exact (first.concatenated second).distinguished
  · exact first.merged _ second

variable (program : Program) (params : Bindings)

theorem Keeps.accept {R : c.State → List Deed → Prop} {Shut : c.State → Prop} (keeps : c.Keeps apart lo hi R Shut)
    {s : c.State} {deeds : List Deed} (here : R s deeds) (w : Book σ) :
    Adds apart R deeds w (c.accept program params s w) := by
  unfold Cursor.accept
  cases program.condition with
  | none => exact keeps.next here w
  | some => exact (keeps.pull _ s w deeds here).lift rfl fun _ => id

theorem Ledgered.calculated (ledgered : c.Ledgered apart lo hi) :
    (c.calculated program params).Ledgered apart lo hi := by
  obtain ⟨R, Shut, keeps⟩ := ledgered
  refine ⟨fun s deeds => s.2 ≠ .closed ∧ R s.1 deeds, fun s => s.2 = .closed, fun here => keeps.within here.2,
    ⟨nofun, keeps.start⟩, ?_, ?_, ?_, fun shut _ => if_pos shut, fun shut _ => if_pos shut,
    fun shut _ => if_pos shut⟩
  · rintro ⟨s, p⟩ deeds ⟨opened, here⟩ w
    simp only [Cursor.calculated]
    rw [if_neg opened]
    have adds := keeps.accept program params here w
    cases result : (c.accept program params s w).result with
    | error => exact adds.lift rfl fun _ there => ⟨opened, there⟩
    | ok found => exact adds.lift rfl fun _ there => ⟨by cases found <;> exact nofun, there⟩
  · rintro ⟨s, p⟩ deeds ⟨opened, here⟩ w
    obtain ⟨quiet, rewound⟩ := keeps.reset here w
    simp only [Cursor.calculated]
    rw [if_neg opened]
    cases result : (c.reset s w).result with
    | error => exact ⟨quiet, opened, rewound⟩
    | ok => exact ⟨quiet, nofun, rewound⟩
  · rintro ⟨s, p⟩ deeds ⟨opened, here⟩ w
    simp only [Cursor.calculated]
    rw [if_neg opened]
    exact ⟨(keeps.close here w).1.lift _, rfl⟩

/-- How the state of an unwinding cursor tells of deeds: as its input does. -/
def Unrolled (R : S → List Deed → Prop) : Unwinding S → List Deed → Prop
  | .unstarted s, deeds | .on s _, deeds | .exhausted s, deeds => R s deeds
  | .closed, _ => False

theorem Ledgered.unwound (position : Nat) (ledgered : c.Ledgered apart lo hi) :
    (c.unwound program position params).Ledgered apart lo hi := by
  obtain ⟨R, Shut, keeps⟩ := ledgered
  have refill {stay : c.State → Unwinding c.State} (kept : ∀ s deeds, R s deeds → Unrolled R (stay s) deeds)
      {s : c.State} {deeds : List Deed} (here : R s deeds) (w : Book σ) :
      Adds apart (Unrolled R) deeds w (c.refill program position params stay s w) := by
    unfold Cursor.refill
    have adds := keeps.pull (fun row => do
      let rows ← Rows.unwindRow program position params row
      return if rows.isEmpty then none else some rows) s w deeds here
    generalize c.pull _ s w = o at adds
    obtain ⟨e | _ | rows, t, v⟩ := o
    · exact adds.lift rfl fun after there => kept t after there
    all_goals exact adds.lift rfl fun _ => id
  refine ⟨Unrolled R, fun s => s = .closed, ?_, keeps.start, ?_, ?_, ?_, ?_, ?_, ?_⟩
  · rintro (s | ⟨s, rows⟩ | s | _) deeds here
    on_goal 4 => cases here
    all_goals exact keeps.within here
  · rintro (s | ⟨s, rows⟩ | s | _) deeds here w
    · exact refill (fun _ _ => id) here w
    · obtain _ | ⟨row, _ | ⟨next, rest⟩⟩ := rows
      · exact refill (fun _ _ => id) here w
      · exact refill (fun _ _ => id) here w
      · exact .none here
    · exact .none here
    · cases here
  · rintro (s | ⟨s, rows⟩ | s | _) deeds here w
    on_goal 4 => cases here
    all_goals
      obtain ⟨quiet, rewound⟩ := keeps.reset (R := R) here w
      simp only [Cursor.unwound]
      cases (c.reset s w).result <;> exact ⟨quiet, rewound⟩
  · rintro (s | ⟨s, rows⟩ | s | _) deeds here w
    on_goal 4 => cases here
    all_goals exact ⟨(keeps.close (R := R) here w).1.lift fun _ => Unwinding.closed, rfl⟩
  all_goals
    rintro s rfl w
    rfl

end Inputs

end Cursor

end FederatedQuery
