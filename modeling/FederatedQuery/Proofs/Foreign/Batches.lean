import FederatedQuery.Foreign.Runner
import FederatedQuery.Proofs.Document.Markers
import FederatedQuery.Proofs.Foreign.Journal

/-!
Batches of writes with a set of parameters that does not bind. Such a batch always fails. Insertions and deletions are
bound before the store is called at all. Updates are bound and made one after the other, so those before the set that
does not bind have been made.
-/
namespace FederatedQuery

namespace Pipeline

open Document

namespace Write

def isUpdate : Write → Bool
  | update .. => true
  | _ => false

/-- The parameters whose values take a place in a write. -/
def markers : Write → List Nat
  | insert _ documents => documents.flatMap Document.markers
  | update _ filter change _ => filter.markers ++ change.markers
  | delete _ filter _ => filter.markers

theorem isOk_bind (params : Bindings) (write : Write) :
    (write.bind params).isOk = write.markers.all (supplies params) := by
  cases write with
  | insert collection documents =>
    rw [bind, isOk_bind_pure, isOk_mapM, markers, List.all_flatMap]
    exact congrArg documents.all (funext fun d => Document.isOk_bind params d)
  | update =>
    rw [bind, FederatedQuery.isOk_bind fun _ => isOk_bind_pure, Document.isOk_bind, Document.isOk_bind, markers,
      List.all_append]
  | delete => rw [bind, isOk_bind_pure, Document.isOk_bind, markers]

end Write

namespace PreparedWrite

/-- The parameters that a write is bound to. One that runs as it is has none. -/
def markers (q : PreparedWrite) : List Nat :=
  match q.mode with
  | .direct => []
  | .prepared => q.write.markers

/-- Whether every parameter of a write has a value that documents can hold. -/
def bindsTo (q : PreparedWrite) (params : Bindings) : Bool := q.markers.all (supplies params)

theorem isOk_bind (q : PreparedWrite) (params : Bindings) : (q.bind params).isOk = q.bindsTo params := by
  unfold bind bindsTo markers
  cases q.mode with
  | direct => rfl
  | prepared => exact Write.isOk_bind params q.write

theorem bindsTo_of_bind {q : PreparedWrite} {params : Bindings} {write : Write} (bound : q.bind params = .ok write) :
    q.bindsTo params = true := by
  rw [← q.isOk_bind params, bound]
  rfl

/-- Writes for the first of several sets of parameters. -/
inductive Leading (q : PreparedWrite) : List Bindings → List Write → Prop
  | stop {sets : List Bindings} : Leading q sets []
  | next {set : Bindings} {sets : List Bindings} {write : Write} {writes : List Write} (bound : q.bind set = .ok write)
      (later : Leading q sets writes) : Leading q (set :: sets) (write :: writes)

end PreparedWrite

end Pipeline

namespace Foreign

open Pipeline

/-- A call that changes documents. -/
inductive WriteCall where
  | single (session : Option Session) (write : Write)
  | deleteAll (session : Option Session) (collection : String) (deletions : List Deletion)

variable {σ : Type}

/-- A store that writes down the calls that change documents. -/
def DocumentStore.watched (d : DocumentStore σ) : DocumentStore (Noted WriteCall σ) where
  aggregate session collection stages := Noted.act (fun _ => []) (d.aggregate session collection stages)
  insert session collection documents :=
    Noted.act (fun _ => [.single session (.insert collection documents)]) (d.insert session collection documents)
  update session collection filter change one :=
    Noted.act (fun _ => [.single session (.update collection filter change one)])
      (d.update session collection filter change one)
  delete session collection filter one :=
    Noted.act (fun _ => [.single session (.delete collection filter one)]) (d.delete session collection filter one)
  deleteAll session collection deletions :=
    Noted.act (fun _ => [.deleteAll session collection deletions]) (d.deleteAll session collection deletions)

/-- A backend beside such a store, with nothing of its own to write down. -/
def Backend.watched (b : Backend σ) : Backend (Noted WriteCall σ) where
  adapter := b.adapter
  start tx := Noted.act (fun _ => []) (b.start tx)
  commit session := Noted.act (fun _ => []) (b.commit session)
  abort session := Noted.act (fun _ => []) (b.abort session)

def Runner.watched (r : Runner σ) : Runner (Noted WriteCall σ) := ⟨r.store.watched, r.backend.watched⟩

namespace Backend

variable (b : Backend σ) (tx : Nat) (w : World (Noted WriteCall σ))

theorem journal_sessionFor : (b.watched.sessionFor tx w).2.journal = w.journal := by
  have journal : (w.act (b.watched.start tx)).2.journal = w.journal := List.append_nil _
  unfold sessionFor
  cases w.session? tx with
  | some => rfl
  | none =>
    unfold startSession
    generalize w.act (b.watched.start tx) = acted at journal
    obtain ⟨_ | id, w'⟩ := acted
    · exact journal
    · exact journal

theorem journal_rollback : (b.watched.rollback tx w).2.journal = w.journal := by
  unfold rollback finish
  cases w.session? tx with
  | none => rfl
  | some => exact List.append_nil _

end Backend

namespace Runner

variable (r : Runner σ) {q : PreparedWrite} {sets : List Bindings}

theorem journal_session (tx : Option Nat) (w : World (Noted WriteCall σ)) :
    (r.watched.session tx w).2.journal = w.journal := by
  cases tx with
  | none => rfl
  | some tx => exact r.backend.journal_sessionFor tx w

theorem journal_recovered {α : Type} (tx : Option Nat) (o : Except Error α × World (Noted WriteCall σ)) :
    (r.watched.recovered tx o).2.journal = o.2.journal := by
  obtain ⟨e | a, w⟩ := o
  · cases e with
    | backend =>
      cases tx with
      | none => rfl
      | some tx => exact r.backend.journal_rollback tx w
    | _ => rfl
  · rfl

theorem isOk_recovered {α : Type} (tx : Option Nat) (o : Except Error α × World σ) :
    (r.recovered tx o).1.isOk = o.1.isOk := by
  obtain ⟨e | a, w⟩ := o
  · rfl
  · rfl

theorem journal_write (session : Option Session) (write : Write) (w : World (Noted WriteCall σ)) :
    (r.watched.write session write w).2.journal = w.journal ++ [.single session write] := by
  cases write <;> rfl

theorem isOk_writeEach (session : Option Session) (unbound : ∃ set ∈ sets, q.bindsTo set = false) (w : World σ) :
    (r.writeEach session q sets w).1.isOk = false := by
  obtain ⟨set, mem, fails⟩ := unbound
  induction mem generalizing w with
  | head =>
    obtain ⟨e, failed⟩ := isOk_eq_false.1 ((q.isOk_bind set).trans fails)
    rw [writeEach, failed]
    rfl
  | tail first _ ih =>
    rw [writeEach]
    cases q.bind first with
    | error => rfl
    | ok write =>
      dsimp only
      generalize r.write session write w = written
      obtain ⟨_ | n, w'⟩ := written
      · rfl
      · exact isOk_map.trans (ih w')

/-- The updates of a batch are made one after the other, and there is none only where the first set does not bind. -/
theorem exists_leading_writeEach (session : Option Session) (sets : List Bindings) (w : World (Noted WriteCall σ)) :
    ∃ writes, q.Leading sets writes ∧
      (r.watched.writeEach session q sets w).2.journal = w.journal ++ writes.map (.single session) ∧
      (writes = [] ↔ ∀ first ∈ sets.head?, q.bindsTo first = false) := by
  induction sets generalizing w with
  | nil => exact ⟨[], .stop, (List.append_nil _).symm, fun _ => nofun, fun _ => rfl⟩
  | cons set sets ih =>
    rw [writeEach]
    cases bound : q.bind set with
    | error e =>
      have fails : q.bindsTo set = false := (q.isOk_bind set).symm.trans (isOk_eq_false.2 ⟨e, bound⟩)
      refine ⟨[], .stop, (List.append_nil _).symm, fun _ first here => ?_, fun _ => rfl⟩
      rw [← Option.some.inj here, fails]
    | ok write =>
      have nonempty (writes : List Write) :
          write :: writes = [] ↔ ∀ first ∈ (set :: sets).head?, q.bindsTo first = false := by
        refine ⟨nofun, fun unbound => ?_⟩
        exact absurd (PreparedWrite.bindsTo_of_bind bound) (Bool.eq_false_iff.1 (unbound set rfl))
      have step := r.journal_write session write w
      dsimp only
      generalize r.watched.write session write w = written at step
      obtain ⟨_ | n, w'⟩ := written
      · exact ⟨[write], .next bound .stop, step, nonempty []⟩
      · obtain ⟨writes, leading, journal, -⟩ := ih w'
        refine ⟨write :: writes, .next bound leading, ?_, nonempty writes⟩
        rw [journal, step, List.append_assoc]
        rfl

theorem isOk_boundDocuments (collection : String) (documents : List Document) (sets : List Bindings) :
    (boundDocuments documents sets).isOk =
      sets.all (PreparedWrite.mk (.insert collection documents) .prepared).bindsTo := by
  rw [boundDocuments, isOk_bind_pure, isOk_mapM]
  congr 1
  funext set
  rw [← PreparedWrite.isOk_bind]
  exact isOk_bind_pure.symm

theorem isOk_deletions (collection : String) (filter : Document) (one : Bool) (sets : List Bindings) :
    (sets.mapM fun set => (filter.bind set).map fun bound => Deletion.mk bound one).isOk =
      sets.all (PreparedWrite.mk (.delete collection filter one) .prepared).bindsTo := by
  rw [isOk_mapM]
  congr 1
  funext set
  rw [isOk_map, ← PreparedWrite.isOk_bind]
  exact isOk_bind_pure.symm

theorem writeBatch_unbound (session : Option Session) (other : q.write.isUpdate = false)
    (unbound : ∃ set ∈ sets, q.bindsTo set = false) (w : World σ) :
    ∃ e, r.writeBatch session q sets w = (.error e, w) := by
  have fails : sets.all q.bindsTo = false := by
    rw [List.all_eq_false]
    obtain ⟨set, mem, fails⟩ := unbound
    exact ⟨set, mem, Bool.eq_false_iff.1 fails⟩
  obtain ⟨write, _ | _⟩ := q
  · obtain ⟨_, _, fails⟩ := unbound
    cases fails
  · cases write with
    | insert collection documents =>
      obtain ⟨e, failed⟩ := isOk_eq_false.1 ((isOk_boundDocuments collection documents sets).trans fails)
      refine ⟨e, ?_⟩
      unfold writeBatch
      dsimp only
      rw [failed]
    | update => cases other
    | delete collection filter one =>
      obtain ⟨e, failed⟩ := isOk_eq_false.1 ((isOk_deletions collection filter one sets).trans fails)
      refine ⟨e, ?_⟩
      unfold writeBatch
      dsimp only
      rw [failed]

theorem writeBatch_update (session : Option Session) (update : q.write.isUpdate = true)
    (unbound : ∃ set ∈ sets, q.bindsTo set = false) (w : World σ) :
    r.writeBatch session q sets w = r.writeEach session q sets w := by
  obtain ⟨write, _ | _⟩ := q
  · obtain ⟨_, _, fails⟩ := unbound
    cases fails
  · cases write with
    | update => rfl
    | _ => cases update

theorem exists_leading_writeBatch (session : Option Session) (unbound : ∃ set ∈ sets, q.bindsTo set = false)
    (w : World (Noted WriteCall σ)) : (r.watched.writeBatch session q sets w).1.isOk = false ∧
      ∃ writes, q.Leading sets writes ∧
        (r.watched.writeBatch session q sets w).2.journal = w.journal ++ writes.map (.single session) ∧
        (writes = [] ↔ q.write.isUpdate = false ∨ ∀ first ∈ sets.head?, q.bindsTo first = false) := by
  cases update : q.write.isUpdate with
  | false =>
    obtain ⟨e, failed⟩ := r.watched.writeBatch_unbound session update unbound w
    rw [failed]
    exact ⟨rfl, [], .stop, (List.append_nil _).symm, fun _ => .inl rfl, fun _ => rfl⟩
  | true =>
    rw [r.watched.writeBatch_update session update unbound w]
    obtain ⟨writes, leading, journal, unwritten⟩ := r.exists_leading_writeEach session sets w
    refine ⟨r.watched.isOk_writeEach session unbound w, writes, leading, journal, unwritten.trans ?_⟩
    exact (or_iff_right (Bool.false_ne_true ·.symm)).symm

/-- A batch with a set of parameters that does not bind fails, and what the store has been called for are the writes of
the first sets. There is none just when the batch is not of updates, has no session, or does not bind at once. -/
theorem executeBatch_unbound (tx : Option Nat) (w : World (Noted WriteCall σ))
    (unbound : ∃ set ∈ sets, ∃ index ∈ q.markers, Document.supplies set index = false) :
    (∃ e, (r.watched.executeBatch q sets tx w).1 = .error e) ∧
    (∃ session writes, q.Leading sets writes ∧
      (r.watched.executeBatch q sets tx w).2.journal = w.journal ++ writes.map (.single session)) ∧
    ((r.watched.executeBatch q sets tx w).2.journal = w.journal ↔ q.write.isUpdate = false ∨
      (∃ e, (r.watched.session tx w).1 = .error e) ∨ ∀ first ∈ sets.head?, q.bindsTo first = false) := by
  have fails : ∃ set ∈ sets, q.bindsTo set = false := by
    obtain ⟨set, mem, index, marked, missing⟩ := unbound
    exact ⟨set, mem, List.all_eq_false.2 ⟨index, marked, Bool.eq_false_iff.1 missing⟩⟩
  have quiet := r.journal_session tx w
  unfold executeBatch
  generalize r.watched.session tx w = opened at quiet
  obtain ⟨e | session, w'⟩ := opened
  · refine ⟨⟨e, rfl⟩, ⟨none, [], .stop, ?_⟩, fun _ => .inr (.inl ⟨e, rfl⟩), fun _ => quiet⟩
    exact quiet.trans (List.append_nil _).symm
  · obtain ⟨failed, writes, leading, journal, unwritten⟩ := r.exists_leading_writeBatch session fails w'
    have received := (r.journal_recovered tx (r.watched.writeBatch session q sets w')).trans journal
    rw [show w'.journal = w.journal from quiet] at received
    refine ⟨isOk_eq_false.1 ((r.watched.isOk_recovered tx _).trans failed), ⟨session, writes, leading, received⟩, ?_⟩
    dsimp only
    rw [received, List.append_right_eq_self, List.map_eq_nil_iff, unwritten]
    simp

/-- A store that accepts every call, each for one document. -/
def accepting : Runner Unit where
  store := ⟨fun _ _ _ s => (.ok [], s), fun _ _ _ s => (.ok 1, s), fun _ _ _ _ _ s => (.ok 1, s),
    fun _ _ _ _ s => (.ok 1, s), fun _ _ _ s => (.ok 1, s)⟩
  backend := ⟨"documents", fun tx s => (.ok tx, s), fun _ s => (.ok (), s), fun _ s => (.ok (), s)⟩

/-- With a price for the first set of parameters only, an update is made once, and a deletion not at all. -/
theorem executeBatch_unbound_prices :
    let priced : Document := .single "price" (.marker 0)
    let sets : List Bindings := [fun _ => some (.int 5), fun _ => none]
    let w : World (Noted WriteCall Unit) := ⟨[], [], 0, (), []⟩
    let updated := accepting.watched.executeBatch
      ⟨.update "seats" (.object []) (.single "$set" priced) false, .prepared⟩ sets (some 1) w
    let deleted := accepting.watched.executeBatch ⟨.delete "seats" priced false, .prepared⟩ sets (some 1) w
    (∃ e, updated.1 = .error e) ∧ updated.2.journal ≠ [] ∧ (∃ e, deleted.1 = .error e) ∧ deleted.2.journal = [] := by
  intro priced sets w updated deleted
  have missing : ∃ set ∈ sets, ∃ index ∈ [0], Document.supplies set index = false :=
    ⟨_, .tail _ (.head _), 0, .head _, rfl⟩
  obtain ⟨failed, -, received⟩ := accepting.executeBatch_unbound
    (q := ⟨.update "seats" (.object []) (.single "$set" priced) false, .prepared⟩) (some 1) w missing
  obtain ⟨failed', -, received'⟩ := accepting.executeBatch_unbound
    (q := ⟨.delete "seats" priced false, .prepared⟩) (some 1) w missing
  refine ⟨failed, fun unwritten => ?_, failed', received'.2 (.inl rfl)⟩
  rcases received.1 unwritten with other | unopened | unbound
  · cases other
  · obtain ⟨e, failed⟩ := unopened
    cases failed
  · cases unbound _ rfl

end Runner

end Foreign

end FederatedQuery
