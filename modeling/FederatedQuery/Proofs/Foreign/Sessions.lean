import FederatedQuery.Foreign.Runner
import FederatedQuery.Proofs.Foreign.Journal
import Mathlib.Data.List.Nodup

/-!
The protocol of sessions. Whatever a runner is asked to do, and whatever the store answers, the sessions of each
transaction follow one another: one starts when none is open, and only the open one ends, once. A request in one
transaction leaves the sessions of the others alone, and a call that the store fails leaves its transaction without
a session.
-/
namespace FederatedQuery.Foreign

/-- What a store is told of sessions, and the calls that it fails. -/
inductive SessionEvent where
  | started (session : Session)
  | committed (session : Session)
  | aborted (session : Session)
  | refused (session : Option Session)

namespace SessionEvent

/-- Whether a session of the transaction starts or ends. -/
def marks (tx : Nat) : SessionEvent → Bool
  | started s | committed s | aborted s => decide (s.transaction = tx)
  | refused _ => false

/-- The open session of a transaction after one of its sessions starts or ends; nothing when that breaks the
protocol. -/
def follow : Option Session → SessionEvent → Option (Option Session)
  | none, started s => some (some s)
  | some s, committed t | some s, aborted t => if t = s then some none else none
  | _, _ => none

def isRefused : SessionEvent → Bool
  | refused _ => true
  | _ => false

/-- What is written down of a start that is asked for: the session, when it has started. -/
def ofStart (tx : Nat) (adapter : String) : Except Error Nat → List SessionEvent
  | .ok id => [started ⟨tx, adapter, id⟩]
  | .error _ => []

/-- What is written down of a call to a store: that it failed, when the store itself is the cause. -/
def ofCall {α : Type} (session : Option Session) : Except Error α → List SessionEvent
  | .error (.backend ..) => [refused session]
  | _ => []

end SessionEvent

open SessionEvent

/-- A world in whose journal the events of sessions are written. -/
abbrev Log (σ : Type) := World (Noted SessionEvent σ)

variable {σ : Type}

/-- A backend that writes down the sessions it starts, and every end that it is told of. -/
def Backend.noted (b : Backend σ) : Backend (Noted SessionEvent σ) where
  adapter := b.adapter
  start tx := Noted.act (ofStart tx b.adapter) (b.start tx)
  commit session := Noted.act (fun _ => [committed session]) (b.commit session)
  abort session := Noted.act (fun _ => [aborted session]) (b.abort session)

/-- A store that writes down the calls it fails. -/
def DocumentStore.noted (d : DocumentStore σ) : DocumentStore (Noted SessionEvent σ) where
  aggregate session collection stages := Noted.act (ofCall session) (d.aggregate session collection stages)
  insert session collection documents := Noted.act (ofCall session) (d.insert session collection documents)
  update session collection filter change one :=
    Noted.act (ofCall session) (d.update session collection filter change one)
  delete session collection filter one := Noted.act (ofCall session) (d.delete session collection filter one)
  deleteAll session collection deletions := Noted.act (ofCall session) (d.deleteAll session collection deletions)

def Runner.noted (r : Runner σ) : Runner (Noted SessionEvent σ) := ⟨r.store.noted, r.backend.noted⟩

/-- What a runner and its sessions can be asked for. -/
inductive Request where
  | acquire (tx : Nat)
  | sessionFor (tx : Nat)
  | commit (tx : Nat)
  | rollback (tx : Nat)
  | query (q : Pipeline.Prepared) (params : Bindings) (tx : Option Nat)
  | write (q : Pipeline.PreparedWrite) (sets : List Bindings) (tx : Option Nat)

def Request.transaction? : Request → Option Nat
  | acquire tx | sessionFor tx | commit tx | rollback tx => some tx
  | query _ _ tx | write _ _ tx => tx

namespace Runner

/-- Serves a request; only whether it fails, and why, is kept of its result. -/
def perform (r : Runner σ) (w : World σ) : Request → Except Error Unit × World σ
  | .acquire tx => ((r.backend.acquire tx w).1.map fun _ => (), (r.backend.acquire tx w).2)
  | .sessionFor tx => ((r.backend.sessionFor tx w).1.map fun _ => (), (r.backend.sessionFor tx w).2)
  | .commit tx => ((r.backend.commitSession tx w).1.map fun _ => (), (r.backend.commitSession tx w).2)
  | .rollback tx => ((r.backend.rollback tx w).1.map fun _ => (), (r.backend.rollback tx w).2)
  | .query q params tx => ((r.runQuery q params tx w).1.map fun _ => (), (r.runQuery q params tx w).2)
  | .write q sets tx => ((r.executeBatch q sets tx w).1.map fun _ => (), (r.executeBatch q sets tx w).2)

def performAll (r : Runner σ) : World σ → List Request → World σ
  | w, [] => w
  | w, request :: rest => r.performAll (r.perform w request).2 rest

end Runner

namespace World

theorem session?_forget_self (w : World σ) (tx : Nat) : (w.forget tx).session? tx = none := by
  rw [session?, List.find?_eq_none]
  intro s mem
  have kept := (List.mem_filter.1 mem).2
  simpa using kept

variable {tx : Nat} {w : World σ}

theorem session?_forget_of_ne (w : World σ) {other : Nat} (different : other ≠ tx) :
    (w.forget tx).session? other = w.session? other := by
  rw [session?, forget, List.find?_filter]
  congr 1
  funext s
  by_cases mine : s.transaction = other <;> simp [mine, different]

theorem transaction_of_session? {s : Session} (found : w.session? tx = some s) : s.transaction = tx := by
  simpa using List.find?_some found

theorem session?_congr {τ : Type} {v : World τ} (same : w.sessions = v.sessions) (tx : Nat) :
    w.session? tx = v.session? tx := by
  rw [session?, session?, same]

end World

/-- What may happen to sessions while a transaction is served: its sessions follow one another, from the one that is
open before to the one that is open after, and nothing happens to those of other transactions. -/
structure Moves (tx : Option Nat) (w w' : Log σ) (more : List SessionEvent) : Prop where
  journal : w'.journal = w.journal ++ more
  own : ∀ e ∈ more, ∀ t, e.marks t = true → tx = some t
  others : ∀ t, tx ≠ some t → w'.session? t = w.session? t
  distinct : (w.sessions.map Session.transaction).Nodup → (w'.sessions.map Session.transaction).Nodup
  follows : ∀ t, tx = some t → (more.filter (marks t)).foldlM follow (w.session? t) = some (w'.session? t)

namespace Moves

variable {tx : Option Nat} {w w' w'' : Log σ} {more later : List SessionEvent} {s : Session}

theorem trans (first : Moves tx w w' more) (second : Moves tx w' w'' later) : Moves tx w w'' (more ++ later) where
  journal := by rw [second.journal, first.journal, List.append_assoc]
  own e mem t marked := by
    rcases List.mem_append.1 mem with here | there
    · exact first.own e here t marked
    · exact second.own e there t marked
  others t other := (second.others t other).trans (first.others t other)
  distinct before := second.distinct (first.distinct before)
  follows t mine := by
    rw [List.filter_append, List.foldlM_append, first.follows t mine]
    exact second.follows t mine

theorem of_refusals (sessions : w'.sessions = w.sessions) (journal : w'.journal = w.journal ++ more)
    (refusals : ∀ e ∈ more, e.isRefused = true) : Moves tx w w' more where
  journal := journal
  own e mem t marked := by
    have refusal := refusals e mem
    cases e with
    | refused => cases marked
    | _ => cases refusal
  others t _ := World.session?_congr sessions t
  distinct before := sessions ▸ before
  follows t _ := by
    have unmarked : more.filter (marks t) = [] := by
      rw [List.filter_eq_nil_iff]
      intro e mem
      have refusal := refusals e mem
      cases e with
      | refused => exact nofun
      | _ => cases refusal
    rw [unmarked, World.session?_congr sessions t]
    rfl

theorem refl (w : Log σ) : Moves tx w w [] := of_refusals rfl (List.append_nil _).symm nofun

theorem start (free : w.session? s.transaction = none) (sessions : w'.sessions = s :: w.sessions)
    (journal : w'.journal = w.journal ++ [started s]) : Moves (some s.transaction) w w' [started s] where
  journal := journal
  own e mem t marked := by
    rw [List.mem_singleton.1 mem] at marked
    exact congrArg some (of_decide_eq_true marked)
  others t other := by
    have different : s.transaction ≠ t := fun same => other (congrArg some same)
    rw [World.session?, sessions]
    exact List.find?_cons_of_neg (by simpa using different)
  distinct before := by
    rw [sessions, List.map_cons, List.nodup_cons]
    refine ⟨fun present => ?_, before⟩
    obtain ⟨other, mem, same⟩ := List.mem_map.1 present
    exact List.find?_eq_none.1 free other mem (decide_eq_true same)
  follows t mine := by
    cases mine
    have opened : w'.session? s.transaction = some s := by
      rw [World.session?, sessions]
      exact List.find?_cons_of_pos (decide_eq_true rfl)
    rw [free, opened]
    simp [marks, follow]

theorem finish {t : Nat} {e : SessionEvent} (opened : w.session? t = some s)
    (ending : e = committed s ∨ e = aborted s) (sessions : w'.sessions = (w.forget t).sessions)
    (journal : w'.journal = w.journal ++ [e]) : Moves (some t) w w' [e] where
  journal := journal
  own e' mem other marked := by
    rw [List.mem_singleton.1 mem] at marked
    have owner := World.transaction_of_session? opened
    rcases ending with rfl | rfl <;> exact congrArg some (owner.symm.trans (of_decide_eq_true marked))
  others other different := by
    rw [World.session?_congr sessions]
    exact World.session?_forget_of_ne w fun same => different (congrArg some same.symm)
  distinct before := by
    rw [sessions]
    exact before.sublist (List.filter_sublist.map _)
  follows other mine := by
    cases mine
    have owner := World.transaction_of_session? opened
    have ended : w'.session? t = none := by
      rw [World.session?_congr sessions]
      exact World.session?_forget_self w t
    rw [opened, ended]
    rcases ending with rfl | rfl <;> simp [marks, follow, owner]

/-- What is open at the end of a life that follows the protocol from the start is what is open in the world. -/
theorem lives (moves : Moves tx w w' more)
    (before : ∀ t, (w.journal.filter (marks t)).foldlM follow none = some (w.session? t)) (t : Nat) :
    (w'.journal.filter (marks t)).foldlM follow none = some (w'.session? t) := by
  rw [moves.journal, List.filter_append, List.foldlM_append, before t]
  by_cases mine : tx = some t
  · exact moves.follows t mine
  · have unmarked : more.filter (marks t) = [] := by
      rw [List.filter_eq_nil_iff]
      intro e mem marked
      exact mine (moves.own e mem t marked)
    rw [unmarked, moves.others t mine]
    rfl

end Moves

/-- What starting and ending sessions leaves: the transaction's own sessions moved on, and no refusal. -/
def Steers (tx : Option Nat) (w w' : Log σ) : Prop := ∃ more, Moves tx w w' more ∧ ∀ e ∈ more, e.isRefused = false

theorem Steers.refl (tx : Option Nat) (w : Log σ) : Steers tx w w := ⟨[], .refl w, nofun⟩

namespace Backend

variable (b : Backend σ) {tx : Nat} {w : Log σ}

theorem steers_startSession (free : w.session? tx = none) : Steers (some tx) w (b.noted.startSession tx w).2 := by
  have sessions := World.sessions_act (b.noted.start tx) w
  have journal := World.journal_act_noted w (ofStart tx b.adapter) (b.start tx)
  change (w.act (b.noted.start tx)).2.journal =
    w.journal ++ ofStart tx b.adapter (w.act (b.noted.start tx)).1 at journal
  unfold startSession
  generalize w.act (b.noted.start tx) = acted at sessions journal
  obtain ⟨_ | id, w'⟩ := acted
  · exact ⟨[], .of_refusals sessions journal nofun, nofun⟩
  · have opening : World.session? w (Session.mk tx b.adapter id).transaction = none := free
    refine ⟨[started ⟨tx, b.adapter, id⟩], .start opening ?_ journal, List.forall_mem_singleton.2 rfl⟩
    exact congrArg (_ :: ·) sessions

theorem steers_sessionFor : Steers (some tx) w (b.noted.sessionFor tx w).2 := by
  unfold sessionFor
  cases opened : w.session? tx with
  | some => exact .refl _ w
  | none => exact b.steers_startSession opened

theorem acquire_of_isOpen (c : Backend σ) (w : World σ) (opened : w.isOpen tx = true) :
    c.acquire tx w = (.error (.contract (.sessionOpen tx c.adapter)), w) := if_pos opened

theorem steers_acquire : Steers (some tx) w (b.noted.acquire tx w).2 := by
  cases opened : w.isOpen tx with
  | true =>
    rw [acquire_of_isOpen _ _ opened]
    exact .refl _ w
  | false =>
    rw [acquire, opened]
    exact b.steers_startSession (Option.not_isSome_iff_eq_none.1 (by simpa [World.isOpen] using opened))

/-- Ending a session, by a commit or an abort, leaves the transaction without one. -/
theorem steers_finish (finishing : Session → σ → Except Error Unit × σ) {event : Session → SessionEvent}
    (ending : ∀ s, event s = committed s ∨ event s = aborted s) (tx : Nat) (w : Log σ) :
    Steers (some tx) w (finish (fun s => Noted.act (fun _ => [event s]) (finishing s)) tx w).2 ∧
      (finish (fun s => Noted.act (fun _ => [event s]) (finishing s)) tx w).2.session? tx = none := by
  unfold finish
  cases opened : w.session? tx with
  | none => exact ⟨.refl _ w, opened⟩
  | some s =>
    refine ⟨⟨[event s], .finish opened (ending s) rfl rfl, List.forall_mem_singleton.2 ?_⟩, ?_⟩
    · rcases ending s with same | same <;> rw [same] <;> rfl
    · exact World.session?_forget_self w tx

theorem steers_commitSession (tx : Nat) (w : Log σ) : Steers (some tx) w (b.noted.commitSession tx w).2 :=
  (steers_finish b.commit (fun _ => .inl rfl) tx w).1

theorem steers_rollback (tx : Nat) (w : Log σ) :
    Steers (some tx) w (b.noted.rollback tx w).2 ∧ (b.noted.rollback tx w).2.session? tx = none :=
  steers_finish b.abort (fun _ => .inr rfl) tx w

end Backend

/-- What calls to a store leave: the sessions as they were, and refusals only behind a failure of the store. -/
structure Called {α : Type} (w : Log σ) (o : Except Error α × Log σ)
    (more : List SessionEvent) : Prop where
  sessions : o.2.sessions = w.sessions
  journal : o.2.journal = w.journal ++ more
  refusals : ∀ e ∈ more, e.isRefused = true
  failed : more ≠ [] → ∃ adapter message, o.1 = .error (.backend adapter message)

/-- What serving a request in a transaction leaves: its own sessions moved on, and none of them open after a
refusal. -/
structure Served (tx : Option Nat) (w w' : Log σ) (more : List SessionEvent) : Prop where
  moves : Moves tx w w' more
  ended : (∃ e ∈ more, e.isRefused = true) → ∀ t, tx = some t → w'.session? t = none

namespace Called

variable {α : Type} {w w' : Log σ}

theorem done (w : Log σ) (result : Except Error α) : Called w (result, w) [] :=
  ⟨rfl, (List.append_nil _).symm, nofun, fun more => absurd rfl more⟩

theorem act (w : Log σ) (session : Option Session) (f : σ → Except Error α × σ) :
    Called w (w.act (Noted.act (ofCall session) f)) (ofCall session (w.act (Noted.act (ofCall session) f)).1) := by
  refine ⟨rfl, rfl, ?_, ?_⟩ <;> generalize (w.act (Noted.act (ofCall session) f)).1 = result
  · rcases result with e | a
    · cases e with
      | backend => exact List.forall_mem_singleton.2 rfl
      | _ => exact nofun
    · exact nofun
  · intro more
    rcases result with e | a
    · cases e with
      | backend adapter message => exact ⟨adapter, message, rfl⟩
      | _ => exact absurd rfl more
    · exact absurd rfl more

/-- After calls that succeed, others can be made. -/
theorem trans {β : Type} {a : α} {o : Except Error β × Log σ} {more later : List SessionEvent}
    (first : Called w (.ok a, w') more) (second : Called w' o later) : Called w o later := by
  have quiet : more = [] := by
    by_contra noted
    obtain ⟨_, _, failed⟩ := first.failed noted
    cases failed
  refine ⟨second.sessions.trans first.sessions, ?_, second.refusals, second.failed⟩
  rw [second.journal, first.journal, quiet, List.append_nil]

end Called

namespace Served

variable {tx : Option Nat} {w w' w'' : Log σ} {more later : List SessionEvent}

theorem of_moves (moves : Moves tx w w' more) (quiet : ∀ e ∈ more, e.isRefused = false) : Served tx w w' more := by
  refine ⟨moves, ?_⟩
  rintro ⟨e, mem, refused⟩
  exact absurd refused (Bool.eq_false_iff.1 (quiet e mem))

theorem after (second : Served tx w' w'' later) (first : Steers tx w w') : ∃ more, Served tx w w'' more := by
  obtain ⟨more, moves, quiet⟩ := first
  refine ⟨more ++ later, moves.trans second.moves, ?_⟩
  rintro ⟨e, mem, refused⟩
  apply second.ended
  rcases List.mem_append.1 mem with here | there
  · exact absurd refused (Bool.eq_false_iff.1 (quiet e here))
  · exact ⟨e, there, refused⟩

end Served

theorem Steers.served {tx : Option Nat} {w w' : Log σ} (steers : Steers tx w w') : ∃ more, Served tx w w' more := by
  obtain ⟨more, moves, quiet⟩ := steers
  exact ⟨more, .of_moves moves quiet⟩

namespace Runner

variable (r : Runner σ) {w : Log σ} {o : Except Error α × Log σ} {α : Type} {tx : Option Nat} {w' : Log σ}

theorem called_write (session : Option Session) (write : Pipeline.Write) (w : Log σ) :
    ∃ more, Called w (r.noted.write session write w) more := by
  cases write <;> exact ⟨_, .act w session _⟩

theorem called_writeEach (session : Option Session) (q : Pipeline.PreparedWrite) (sets : List Bindings)
    (w : Log σ) : ∃ more, Called w (r.noted.writeEach session q sets w) more := by
  induction sets generalizing w with
  | nil => exact ⟨[], .done w _⟩
  | cons set sets ih =>
    rw [writeEach]
    cases q.bind set with
    | error => exact ⟨[], .done w _⟩
    | ok write =>
      obtain ⟨more, first⟩ := r.called_write session write w
      dsimp only
      generalize r.noted.write session write w = written at first
      obtain ⟨_ | n, w'⟩ := written
      · exact ⟨more, first⟩
      · obtain ⟨later, rest⟩ := ih w'
        refine ⟨later, first.trans ⟨rest.sessions, rest.journal, rest.refusals, fun noted => ?_⟩⟩
        obtain ⟨adapter, message, failed⟩ := rest.failed noted
        exact ⟨adapter, message, congrArg (Except.map (n + ·)) failed⟩

theorem called_writeBatch (session : Option Session) (q : Pipeline.PreparedWrite) (sets : List Bindings)
    (w : Log σ) : ∃ more, Called w (r.noted.writeBatch session q sets w) more := by
  unfold writeBatch
  split
  · exact r.called_write session _ w
  · split
    · exact ⟨[], .done w _⟩
    · exact ⟨_, .act w session _⟩
  · exact r.called_writeEach session q sets w
  · split
    · exact ⟨[], .done w _⟩
    · exact ⟨_, .act w session _⟩

/-- A failure of the store ends the session of the transaction, whether or not the store can abort it. -/
theorem served_recovered (tx : Option Nat) {more : List SessionEvent} (called : Called w o more) :
    ∃ more, Served tx w (r.noted.recovered tx o).2 more := by
  have moves : Moves tx w o.2 more := .of_refusals called.sessions called.journal called.refusals
  have unrefused (other : ∀ adapter message, o.1 ≠ .error (.backend adapter message)) : Served tx w o.2 more := by
    refine .of_moves moves fun e mem => ?_
    obtain ⟨adapter, message, failed⟩ := called.failed (List.ne_nil_of_mem mem)
    exact absurd failed (other adapter message)
  obtain ⟨e | a, w'⟩ := o
  · cases e with
    | backend =>
      cases tx with
      | none =>
        refine ⟨more, moves, ?_⟩
        rintro _ t ⟨⟩
      | some t =>
        obtain ⟨⟨later, ended, -⟩, free⟩ := r.backend.steers_rollback t w'
        refine ⟨more ++ later, moves.trans ended, ?_⟩
        rintro _ t ⟨⟩
        exact free
    | _ => exact ⟨more, unrefused nofun⟩
  · exact ⟨more, unrefused nofun⟩

theorem steers_session (tx : Option Nat) (w : Log σ) : Steers tx w (r.noted.session tx w).2 := by
  cases tx with
  | none => exact .refl _ w
  | some => exact r.backend.steers_sessionFor

theorem served_calls {w : Log σ} {session : Option Session} {calls : List SessionEvent}
    (opened : r.noted.session tx w = (.ok session, w')) (called : Called w' o calls) :
    ∃ more, Served tx w (r.noted.recovered tx o).2 more := by
  have steers := r.steers_session tx w
  rw [opened] at steers
  obtain ⟨later, served⟩ := r.served_recovered tx called
  exact served.after steers

theorem served_session {w : Log σ}
    {result : Except Error (Option Session)} (opened : r.noted.session tx w = (result, w')) :
    ∃ more, Served tx w w' more := by
  have steers := r.steers_session tx w
  rw [opened] at steers
  exact steers.served

theorem served_executeBatch (q : Pipeline.PreparedWrite) (sets : List Bindings) (tx : Option Nat)
    (w : Log σ) : ∃ more, Served tx w (r.noted.executeBatch q sets tx w).2 more := by
  unfold executeBatch
  cases opened : r.noted.session tx w with
  | mk result w' =>
    cases result with
    | error => exact r.served_session opened
    | ok session =>
      obtain ⟨_, called⟩ := r.called_writeBatch session q sets w'
      exact r.served_calls opened called

theorem served_runQuery (q : Pipeline.Prepared) (params : Bindings) (tx : Option Nat)
    (w : Log σ) : ∃ more, Served tx w (r.noted.runQuery q params tx w).2 more := by
  -- Counting the template is no matter of sessions.
  have counted : Moves tx w (if q.mode = .prepared then { w with binds := w.binds + 1 } else w) [] := by
    refine .of_refusals ?_ ?_ nofun
    · split <;> rfl
    · rw [List.append_nil]
      split <;> rfl
  have from_counted {w' : Log σ}
      (rest : ∃ more, Served tx (if q.mode = .prepared then { w with binds := w.binds + 1 } else w) w' more) :
      ∃ more, Served tx w w' more := by
    obtain ⟨more, served⟩ := rest
    exact served.after ⟨[], counted, nofun⟩
  unfold runQuery
  apply from_counted
  generalize (if q.mode = .prepared then { w with binds := w.binds + 1 } else w) = w
  cases q.bind params with
  | error => exact ⟨[], .of_moves (.refl w) nofun⟩
  | ok stages =>
    dsimp only
    cases opened : r.noted.session tx w with
    | mk result w' =>
      cases result with
      | error => exact r.served_session opened
      | ok session =>
        obtain ⟨more, served⟩ := r.served_calls opened (.act w' session (r.store.aggregate session q.collection stages))
        change Served tx w (r.noted.recovered tx (w'.act (r.noted.store.aggregate session q.collection stages))).2 more
          at served
        refine ⟨more, ?_⟩
        dsimp only
        generalize r.noted.recovered tx (w'.act (r.noted.store.aggregate session q.collection stages)) = o at served
        obtain ⟨_ | documents, v⟩ := o <;> exact served

theorem served_perform (request : Request) (w : Log σ) :
    ∃ more, Served request.transaction? w (r.noted.perform w request).2 more := by
  cases request with
  | acquire => exact r.backend.steers_acquire.served
  | sessionFor => exact r.backend.steers_sessionFor.served
  | commit tx => exact (r.backend.steers_commitSession tx w).served
  | rollback tx => exact (r.backend.steers_rollback tx w).1.served
  | query q params tx => exact r.served_runQuery q params tx w
  | write q sets tx => exact r.served_executeBatch q sets tx w

/-- Sessions that are in order: each transaction has one at most, and what is open is what its life so far leaves
open. -/
structure Orderly (w : World (Noted SessionEvent σ)) : Prop where
  distinct : (w.sessions.map Session.transaction).Nodup
  lives : ∀ tx, (w.journal.filter (marks tx)).foldlM follow none = some (w.session? tx)

theorem orderly_perform (request : Request) {w : Log σ} (orderly : Orderly w) :
    Orderly (r.noted.perform w request).2 := by
  obtain ⟨more, served⟩ := r.served_perform request w
  exact ⟨served.moves.distinct orderly.distinct, served.moves.lives orderly.lives⟩

theorem orderly_performAll (requests : List Request) {w : Log σ} (orderly : Orderly w) :
    Orderly (r.noted.performAll w requests) := by
  induction requests generalizing w with
  | nil => exact orderly
  | cons request rest ih => exact ih (r.orderly_perform request orderly)

end Runner

/-! The journal changes nothing: without it, a runner does what it did. -/

open World (plainly)

namespace Backend

variable (b : Backend σ) (tx : Nat) (w : Log σ)

theorem plainly_startSession : plainly (b.noted.startSession tx w) = b.startSession tx w.plain := by
  have acted : plainly (w.act (b.noted.start tx)) = w.plain.act (b.start tx) := rfl
  unfold startSession
  rw [← acted]
  generalize w.act (b.noted.start tx) = o
  obtain ⟨_ | id, w'⟩ := o <;> rfl

theorem plainly_sessionFor : plainly (b.noted.sessionFor tx w) = b.sessionFor tx w.plain := by
  have same : w.plain.session? tx = w.session? tx := rfl
  unfold sessionFor
  rw [same]
  cases w.session? tx with
  | some => rfl
  | none => exact b.plainly_startSession tx w

theorem plainly_acquire : plainly (b.noted.acquire tx w) = b.acquire tx w.plain := by
  have same : w.plain.isOpen tx = w.isOpen tx := rfl
  unfold acquire
  rw [same]
  cases w.isOpen tx with
  | true => rfl
  | false => exact b.plainly_startSession tx w

theorem plainly_finish (finishing : Session → σ → Except Error Unit × σ) (notes : Session → List SessionEvent) :
    plainly (finish (fun s => Noted.act (fun _ => notes s) (finishing s)) tx w) = finish finishing tx w.plain := by
  have same : w.plain.session? tx = w.session? tx := rfl
  unfold finish
  rw [same]
  cases w.session? tx <;> rfl

end Backend

namespace Runner

variable (r : Runner σ) (tx : Option Nat) (w : Log σ)

theorem plainly_session : plainly (r.noted.session tx w) = r.session tx w.plain := by
  cases tx with
  | none => rfl
  | some tx =>
    have same := r.backend.plainly_sessionFor tx w
    exact congrArg (fun o => (o.1.map some, o.2)) same

theorem plainly_recovered {α : Type} (o : Except Error α × Log σ) :
    plainly (r.noted.recovered tx o) = r.recovered tx (plainly o) := by
  obtain ⟨e | a, v⟩ := o
  · cases e with
    | backend =>
      cases tx with
      | none => rfl
      | some tx =>
        have rolled : (r.noted.backend.rollback tx v).2.plain = (r.backend.rollback tx v.plain).2 :=
          congrArg Prod.snd (Backend.plainly_finish tx v r.backend.abort _)
        refine Prod.ext rfl ?_
        exact rolled
    | _ => rfl
  · rfl

theorem plainly_write (session : Option Session) (write : Pipeline.Write) :
    plainly (r.noted.write session write w) = r.write session write w.plain := by
  cases write <;> rfl

theorem plainly_writeEach (session : Option Session) (q : Pipeline.PreparedWrite) (sets : List Bindings) :
    plainly (r.noted.writeEach session q sets w) = r.writeEach session q sets w.plain := by
  induction sets generalizing w with
  | nil => rfl
  | cons set sets ih =>
    rw [writeEach, writeEach]
    cases q.bind set with
    | error => rfl
    | ok write =>
      dsimp only
      rw [← r.plainly_write w session write]
      generalize r.noted.write session write w = o
      obtain ⟨_ | n, v⟩ := o
      · rfl
      · dsimp only [plainly]
        rw [← ih v]
        rfl

theorem plainly_writeBatch (session : Option Session) (q : Pipeline.PreparedWrite) (sets : List Bindings) :
    plainly (r.noted.writeBatch session q sets w) = r.writeBatch session q sets w.plain := by
  unfold writeBatch
  split
  · exact r.plainly_write w session _
  · split <;> rfl
  · exact r.plainly_writeEach w session q sets
  · split <;> rfl

theorem plainly_executeBatch (q : Pipeline.PreparedWrite) (sets : List Bindings) :
    plainly (r.noted.executeBatch q sets tx w) = r.executeBatch q sets tx w.plain := by
  unfold executeBatch
  rw [← r.plainly_session tx w]
  generalize r.noted.session tx w = o
  obtain ⟨_ | session, v⟩ := o
  · rfl
  · dsimp only [plainly]
    rw [← r.plainly_writeBatch v session q sets]
    exact r.plainly_recovered tx _

theorem plainly_runQuery (q : Pipeline.Prepared) (params : Bindings) :
    plainly (r.noted.runQuery q params tx w) = r.runQuery q params tx w.plain := by
  have counted : (if q.mode = .prepared then { w.plain with binds := w.plain.binds + 1 } else w.plain) =
      (if q.mode = .prepared then { w with binds := w.binds + 1 } else w).plain := by
    split <;> rfl
  unfold runQuery
  rw [counted]
  generalize (if q.mode = .prepared then { w with binds := w.binds + 1 } else w) = w
  cases q.bind params with
  | error => rfl
  | ok stages =>
    dsimp only
    rw [← r.plainly_session tx w]
    generalize r.noted.session tx w = o
    obtain ⟨_ | session, v⟩ := o
    · rfl
    · dsimp only [plainly]
      have called : plainly (v.act (r.noted.store.aggregate session q.collection stages)) =
          v.plain.act (r.store.aggregate session q.collection stages) := rfl
      rw [← called, ← r.plainly_recovered tx]
      generalize r.noted.recovered tx (v.act (r.noted.store.aggregate session q.collection stages)) = o
      obtain ⟨_ | documents, u⟩ := o <;> rfl

theorem plainly_perform (request : Request) : plainly (r.noted.perform w request) = r.perform w.plain request := by
  have mapped {α : Type} {o : Except Error α × Log σ} {o' : Except Error α × World σ}
      (same : plainly o = o') : plainly (o.1.map fun _ => (), o.2) = (o'.1.map fun _ => (), o'.2) := by
    subst same
    rfl
  cases request with
  | acquire tx => exact mapped (r.backend.plainly_acquire tx w)
  | sessionFor tx => exact mapped (r.backend.plainly_sessionFor tx w)
  | commit tx => exact mapped (Backend.plainly_finish tx w r.backend.commit _)
  | rollback tx => exact mapped (Backend.plainly_finish tx w r.backend.abort _)
  | query q params tx => exact mapped (r.plainly_runQuery tx w q params)
  | write q sets tx => exact mapped (r.plainly_executeBatch tx w q sets)

theorem plain_performAll (requests : List Request) :
    (r.noted.performAll w requests).plain = r.performAll w.plain requests := by
  induction requests generalizing w with
  | nil => rfl
  | cons request rest ih =>
    rw [performAll, performAll, ih, ← r.plainly_perform w request]
    rfl

/-- From an empty registry on, whatever is asked for and whatever the store answers: the sessions are in order, and
each further request writes down only its own transaction's sessions and leaves all others as they are. A second
acquisition is refused and changes nothing, and a call that the store fails leaves its transaction without a
session. The journal is of what the runner does without it. -/
theorem sessions_in_order (r : Runner σ) (store : Store) (binds : Nat) (outside : σ) (requests : List Request) :
    let fresh : World σ := ⟨store, [], binds, outside⟩
    let reached := r.noted.performAll (fresh.noted SessionEvent) requests
    Orderly reached ∧ reached.plain = r.performAll fresh requests ∧
    ∀ request, ∃ more,
      let served := r.noted.perform reached request
      plainly served = r.perform reached.plain request ∧
      served.2.journal = reached.journal ++ more ∧
      (∀ tx, request.transaction? ≠ some tx →
        (∀ e ∈ more, e.marks tx = false) ∧ served.2.session? tx = reached.session? tx) ∧
      (∀ tx, request = .acquire tx → reached.isOpen tx = true →
        served = (.error (.contract (.sessionOpen tx r.backend.adapter)), reached)) ∧
      ∀ tx, request.transaction? = some tx → (∃ e ∈ more, e.isRefused = true) → served.2.session? tx = none := by
  intro fresh reached
  have start : Orderly (fresh.noted SessionEvent) := ⟨List.nodup_nil, fun _ => rfl⟩
  refine ⟨r.orderly_performAll requests start, r.plain_performAll _ requests, fun request => ?_⟩
  obtain ⟨more, served⟩ := r.served_perform request reached
  refine ⟨more, r.plainly_perform reached request, served.moves.journal, fun tx other => ⟨fun e mem => ?_, ?_⟩, ?_, ?_⟩
  · exact Bool.eq_false_iff.2 fun marked => other (served.moves.own e mem tx marked)
  · exact served.moves.others tx other
  · rintro tx rfl opened
    change ((r.noted.backend.acquire tx reached).1.map fun _ => (), (r.noted.backend.acquire tx reached).2) = _
    rw [Backend.acquire_of_isOpen _ _ opened]
    rfl
  · exact fun tx mine refused => served.ended refused tx mine

end Runner

end FederatedQuery.Foreign
