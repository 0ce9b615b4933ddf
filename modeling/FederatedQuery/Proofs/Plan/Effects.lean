import FederatedQuery.Proofs.Plan.Recorded

/-!
The effects of compiled plans, over every use of their cursors. Whatever is asked of a compiled plan, and whatever the
systems outside answer, each of its modifications is made once at most and each of its artifacts is opened once at
most. Closing it closes what was opened, from left to right, each once, and reports the first failure.
-/
namespace FederatedQuery

open Foreign

variable {σ : Type}

theorem mem_filterMap_opened? {deeds : List Deed} {site : Nat} :
    site ∈ deeds.filterMap Deed.opened? ↔ .opened site ∈ deeds := by
  rw [List.mem_filterMap]
  constructor
  · rintro ⟨_ | k, mem, found⟩
    · cases found
    · cases found
      exact mem
  · exact fun mem => ⟨_, mem, rfl⟩

theorem Within.pairwise_opened {lo hi : Nat} {deeds : List Deed} (within : Within lo hi deeds) :
    (deeds.filterMap Deed.opened?).Pairwise (· < ·) := by
  refine within.ordered.filterMap Deed.opened? fun d e before k opened l opened' => ?_
  cases d with
  | changed => cases opened
  | opened =>
    cases e with
    | changed => cases opened'
    | opened =>
      cases opened
      cases opened'
      exact before

def Foreign.World.deeds (w : World (Noted Event σ)) : List Deed := w.journal.filterMap Event.deed?

theorem Stepped.deeds {apart : Prop} {w w' : Book σ} {more : List Deed}
    (stepped : Stepped apart w w' more) : w'.deeds = w.deeds ++ more := by
  rw [World.deeds, stepped.journal, List.filterMap_append, List.filterMap_map]
  congr 1
  exact List.filterMap_some

namespace Cursor

/-- What closing a cursor does in a world whose journal tells all that it has done: it closes what was opened and
nothing else, from left to right, reports the first failure, and is over. -/
structure ClosesAll (c : Cursor (World (Noted Event σ))) (s : c.State) (w : World (Noted Event σ)) : Prop where
  unclosed : ∀ ending, .closed ending ∉ w.journal
  ended : ∃ ends : List Ending, (c.close s w).world.journal = w.journal ++ ends.map .closed ∧
    (ends.map Ending.site).Pairwise (· < ·) ∧
    (∀ site, site ∈ ends.map Ending.site ↔ .did (.opened site) ∈ w.journal) ∧
    (c.close s w).result = firstFailure ends
  next : ∀ v, c.next (c.close s w).state v = ⟨.error (closedError "move_next"), (c.close s w).state, v⟩
  reset : ∀ v, c.reset (c.close s w).state v = ⟨.error (closedError "reset"), (c.close s w).state, v⟩
  again : ∀ v, c.close (c.close s w).state v = ⟨.ok (), (c.close s w).state, v⟩

variable {apart : Prop} {c : Cursor (Book σ)} {lo hi : Nat} {R : c.State → List Deed → Prop} {Shut : c.State → Prop}
  {deeds : List Deed} {s : c.State}

/-- What a cursor has done since an empty journal is what it closes. -/
theorem Keeps.closesAll {α : Type} (keeps : c.Keeps apart lo hi R Shut) {w : Book σ}
    {o : Outcome (Book σ) c.State α} (fresh : w.journal = []) (adds : Adds apart R [] w o) :
    c.ClosesAll o.state o.world := by
  obtain ⟨more, deeds, stepped, perm, here⟩ := adds
  have journal : o.world.journal = more.map .did := by rw [stepped.journal, fresh, List.nil_append]
  obtain ⟨⟨⟨ends, closed, sites, result⟩, -⟩, shut⟩ := keeps.close here o.world
  refine ⟨fun ending => ?_, ⟨ends, closed, ?_, fun site => ?_, result⟩, keeps.shut_next shut, keeps.shut_reset shut,
    keeps.shut_close shut⟩
  · rw [journal, List.mem_map]
    rintro ⟨deed, -, absurd⟩
    cases absurd
  · rw [sites]
    exact (keeps.within here).pairwise_opened
  · rw [sites, mem_filterMap_opened?, journal, ← perm.mem_iff]
    constructor
    · exact List.mem_map_of_mem
    · intro mem
      obtain ⟨deed, mem, same⟩ := List.mem_map.1 mem
      cases same
      exact mem

theorem Keeps.answer (keeps : c.Keeps apart lo hi R Shut) (here : R s deeds) (w : Book σ) (call : Call) :
    Adds apart R deeds w
      (⟨.ok (), (c.answer s w call).2.1, (c.answer s w call).2.2⟩ : Outcome _ c.State Unit) := by
  cases call with
  | next => exact (keeps.next here w).lift rfl fun _ => id
  | current => exact .none here
  | reset =>
    obtain ⟨stepped, rewound⟩ := keeps.reset here w
    exact .of_stepped stepped (by rwa [List.append_nil])

theorem Keeps.calls (keeps : c.Keeps apart lo hi R Shut) (here : R s deeds) (w : Book σ) (calls : List Call) :
    Adds apart R deeds w (⟨.ok (), (c.serveAll s w (calls.map .call)).2.1,
      (c.serveAll s w (calls.map .call)).2.2⟩ : Outcome _ c.State Unit) := by
  induction calls generalizing s deeds w with
  | nil => exact .none here
  | cons call rest ih => exact (keeps.answer here w call).trans fun _ there => ih there _

/-- How a cursor stands in a world after any uses: the journal tells of no site twice and, if the systems outside keep
apart, of all that has happened to the tables; the state tells of the same deeds until the cursor is shut. -/
structure Stands (apart : Prop) (R : c.State → List Deed → Prop) (Shut : c.State → Prop) (store : Store) (s : c.State)
    (w : Book σ) : Prop where
  once : (w.deeds.map Deed.site).Nodup
  store : apart → w.store = w.deeds.foldl Deed.write store
  told : Shut s ∨ ∃ deeds, R s deeds ∧ w.deeds.Perm deeds

section Stands

variable {store : Store} {s : c.State} {w : Book σ}

theorem Keeps.stands_of_adds {α : Type} (keeps : c.Keeps apart lo hi R Shut)
    {o : Outcome (Book σ) c.State α} {deeds : List Deed} (stands : Stands apart R Shut store s w)
    (told : w.deeds.Perm deeds) (adds : Adds apart R deeds w o) : Stands apart R Shut store o.state o.world := by
  obtain ⟨more, after, stepped, perm, here⟩ := adds
  have done : o.world.deeds = w.deeds ++ more := stepped.deeds
  have told : o.world.deeds.Perm after := by
    rw [done]
    exact (told.append_right more).trans perm
  refine ⟨?_, fun outside => ?_, .inr ⟨after, here, told⟩⟩
  · exact (told.map Deed.site).nodup_iff.2 (keeps.within here).nodup
  · rw [stepped.store outside, stands.store outside, done, List.foldl_append]

theorem Keeps.stands_serve (keeps : c.Keeps apart lo hi R Shut) (stands : Stands apart R Shut store s w) (use : Use) :
    Stands apart R Shut store (c.serve s w use).2.1 (c.serve s w use).2.2 := by
  rcases stands.told with shut | ⟨deeds, here, told⟩
  · have same : (c.serve s w use).2 = (s, w) := by
      rcases use with (_ | _ | _) | _
      · rw [serve, Cursor.answer, keeps.shut_next shut]
      · rfl
      · rw [serve, Cursor.answer, keeps.shut_reset shut]
      · rw [serve, keeps.shut_close shut]
    rw [same]
    exact stands
  · cases use with
    | call call => exact keeps.stands_of_adds stands told (keeps.answer here w call)
    | close =>
      obtain ⟨⟨⟨ends, journal, -, -⟩, kept⟩, shut⟩ := keeps.close here w
      have same : (c.close s w).world.deeds = w.deeds := by
        rw [World.deeds, journal]
        simp [World.deeds, Event.deed?, Function.comp_def]
      refine ⟨?_, fun outside => ?_, .inl shut⟩
      · change ((c.close s w).world.deeds.map Deed.site).Nodup
        rw [same]
        exact stands.once
      · change (c.close s w).world.store = (c.close s w).world.deeds.foldl Deed.write store
        rw [same, kept outside, stands.store outside]

theorem Keeps.stands_serveAll (keeps : c.Keeps apart lo hi R Shut) (stands : Stands apart R Shut store s w)
    (uses : List Use) :
    Stands apart R Shut store (c.serveAll s w uses).2.1 (c.serveAll s w uses).2.2 := by
  induction uses generalizing s w with
  | nil => exact stands
  | cons use rest ih => exact ih (keeps.stands_serve stands use)

end Stands

end Cursor

namespace Compiler

open Cursor

variable {c : Compiler σ} {ctx : Context} {p : Plan} {cursor : Cursor (World σ)}

/-- A modification that fails leaves the world as its input has left it. -/
theorem world_of_failed {inner : Cursor (World σ)} (table : Table) (op : ModifyOp) (params : Bindings)
    {s : inner.State} {w : World σ} {e : Error}
    (failed : ((inner.transformed (change table op params)).next (.unbuilt s) w).result = .error e) :
    ((inner.transformed (change table op params)).next (.unbuilt s) w).world = (inner.drain s w).world := by
  simp only [transformed, buffered] at failed ⊢
  cases drained : (inner.drain s w).result with
  | error => rfl
  | ok rows =>
    simp only [drained] at failed ⊢
    rcases change_cases table op params rows (inner.drain s w).world with ⟨e, changed⟩ | ⟨out, after, changed⟩
    · rw [changed]
    · rw [changed] at failed
      cases failed

/-- After any calls, and also when its rows are then collected, closing a compiled plan closes all that it has opened,
from left to right, and reports the first failure; then it is over. A failure to collect the rows is reported, and
the plan is closed all the same. The journal is of what the compiled plan does without it. -/
theorem closes_all_and_reports_first (compiled : c.compile ctx p = .ok cursor) :
    ∃ recorded, c.record ctx 0 p = .ok recorded ∧ ∀ (w : World σ) (calls : List Call),
      let reached := recorded.serveAll recorded.start (w.noted Event) (calls.map .call)
      let drained := recorded.drain reached.2.1 reached.2.2
      let collected := recorded.collect reached.2.1 reached.2.2
      let plain := cursor.serveAll cursor.start w (calls.map .call)
      recorded.ClosesAll reached.2.1 reached.2.2 ∧ recorded.ClosesAll drained.state drained.world ∧
      collected.2 = (recorded.close drained.state drained.world).world ∧
      (∀ e, drained.result = .error e → collected.1 = .error e) ∧
      cursor.collect plain.2.1 plain.2.2 = (collected.1, collected.2.plain) ∧
      ∀ uses, (cursor.serveAll cursor.start w uses).1 = (recorded.serveAll recorded.start (w.noted Event) uses).1 ∧
        (cursor.serveAll cursor.start w uses).2.2 =
          (recorded.serveAll recorded.start (w.noted Event) uses).2.2.plain := by
  -- Nothing is said of the tables, so the systems outside need not keep apart from them.
  obtain ⟨recorded, found, onto, R, Shut, keeps⟩ :=
    records_record False.elim p 0 cursor compiled
  refine ⟨recorded, found, fun w calls => ?_⟩
  have called := keeps.calls keeps.start (w.noted Event) calls
  refine ⟨keeps.closesAll rfl called, keeps.closesAll rfl (called.trans (keeps.drain _ _)), rfl, fun e failed => ?_,
    onto.collect (w.noted Event) _, onto.serveAll (w.noted Event)⟩
  rw [Cursor.collect, failed]
  rfl

/-- Of two artifacts whose cursors fail to close, both are opened and both are closed, and the first failure is
reported. -/
theorem closes_all_and_reports_first_union :
    let rowType : RowType := ⟨[⟨"id", .integer, false⟩]⟩
    let pulled : Head := ⟨rowType, { Traits.logical with convention := .pull }⟩
    let part : Head := ⟨rowType, { Traits.logical with convention := .document }⟩
    let fragment (name : String) : Plan := .converter pulled .document (.scan part (.named name rowType))
    let p : Plan := .setOp pulled .union true (fragment "a") [fragment "b"]
    let failing : Cursor (World Nat) :=
      { (Cursor.ofRows [[.int 1]] : Cursor (World Nat)) with
        close := fun s w =>
          ⟨.error (.backend "store" (if w.outside = 0 then "first" else "second")), s,
            { w with outside := w.outside + 1 }⟩ }
    let c : Compiler Nat :=
      ⟨.default, fun _ => some ⟨failing, fun _ _ w => (.ok failing.start, w)⟩, false, 0⟩
    let ctx : Context := ⟨fun _ => none, none⟩
    let w : World Nat := ⟨[], [], 0, 0⟩
    (∃ cursor, c.compile ctx p = .ok cursor) ∧ ∃ recorded, c.record ctx 0 p = .ok recorded ∧
      let reached := recorded.serveAll recorded.start (w.noted Event) [.call .next, .call .next]
      recorded.ClosesAll reached.2.1 reached.2.2 ∧
      reached.2.2.journal = [.did (.opened 0), .did (.opened 1)] ∧
      (recorded.close reached.2.1 reached.2.2).result = .error (.backend "store" "first") ∧
      (recorded.close reached.2.1 reached.2.2).world.journal = [.did (.opened 0), .did (.opened 1),
        .closed ⟨0, .error (.backend "store" "first")⟩, .closed ⟨1, .error (.backend "store" "second")⟩] := by
  intro rowType pulled part fragment p failing c ctx w
  have compiled : c.compile ctx p = .ok _ := rfl
  obtain ⟨recorded, found, holds⟩ := closes_all_and_reports_first compiled
  have closed := (holds w [.next, .next]).1
  cases found
  exact ⟨⟨_, compiled⟩, _, rfl, closed, rfl, rfl, rfl⟩

/-- Whatever is done with a compiled plan, in any order and also after failures, each of its sites does its deed once
at most: a modification changes its table once, and an artifact is opened once. If the executors keep apart from the
tables, these are what the noted changes make of them. A modification that fails leaves the world as its input has
left it. -/
theorem deeds_happen_once (compiled : c.compile ctx p = .ok cursor) :
    ∃ recorded, c.record ctx 0 p = .ok recorded ∧
      (∀ (w : World σ) (uses : List Use),
        let reached := recorded.serveAll recorded.start (w.noted Event) uses
        (reached.2.2.deeds.map Deed.site).Nodup ∧
        (c.KeepsApart → reached.2.2.store = reached.2.2.deeds.foldl Deed.write w.store) ∧
        (cursor.serveAll cursor.start w uses).1 = reached.1 ∧
        (cursor.serveAll cursor.start w uses).2.2 = reached.2.2.plain) ∧
      ∀ h table op input, ∀ modifying : Cursor (World σ), c.compile ctx (.modify h table op input) = .ok modifying →
        ∃ inner, c.compile ctx input = .ok inner ∧ modifying = inner.transformed (change table op ctx.params) ∧
          ∀ s w e, ((inner.transformed (change table op ctx.params)).next (.unbuilt s) w).result = .error e →
            ((inner.transformed (change table op ctx.params)).next (.unbuilt s) w).world = (inner.drain s w).world := by
  obtain ⟨recorded, found, onto, R, Shut, keeps⟩ :=
    records_record (fun outside : c.KeepsApart => outside) p 0 cursor compiled
  refine ⟨recorded, found, fun w uses => ?_, fun h table op input modifying compiled => ?_⟩
  · have fresh : Stands c.KeepsApart R Shut w.store recorded.start (w.noted Event) :=
      ⟨List.nodup_nil, fun _ => rfl, .inr ⟨[], keeps.start, .refl _⟩⟩
    have stands := keeps.stands_serveAll fresh uses
    exact ⟨stands.once, stands.store, onto.serveAll (w.noted Event) uses⟩
  · rw [compile] at compiled
    obtain ⟨inner, found, compiled⟩ := bind_eq_ok.1 (inProcess_eq_ok.1 compiled).2
    cases compiled
    refine ⟨inner, found, rfl, fun s w e failed => ?_⟩
    exact world_of_failed table op ctx.params failed

/-- What a store gives is inserted once, though the cursor goes back, is closed and is asked again. -/
theorem deeds_happen_once_insertion :
    let rowType : RowType := ⟨[⟨"id", .integer, false⟩]⟩
    let pulled (t : RowType) : Head := ⟨t, { Traits.logical with convention := .pull }⟩
    let part : Head := ⟨rowType, { Traits.logical with convention := .document }⟩
    let table : Table := { Table.named "t" rowType with stored := true }
    let p : Plan := .modify (pulled .rowCount) table .insert
      (.converter (pulled rowType) .document (.scan part (.named "a" rowType)))
    let rows : Cursor (World Unit) := .ofRows [[.int 1]]
    let c : Compiler Unit := ⟨.default, fun _ => some ⟨rows, fun _ _ w => (.ok rows.start, w)⟩, false, 0⟩
    let ctx : Context := ⟨fun _ => none, none⟩
    let w : World Unit := ⟨[("t", [[.int 7]])], [], 0, ()⟩
    (∃ cursor, c.compile ctx p = .ok cursor) ∧ ∃ recorded, c.record ctx 0 p = .ok recorded ∧
      let reached := recorded.serveAll recorded.start (w.noted Event)
        [.call .next, .call .reset, .call .next, .call .next, .close, .call .next]
      (reached.2.2.deeds.map Deed.site).Nodup ∧
      reached.2.2.store = reached.2.2.deeds.foldl Deed.write w.store ∧
      reached.2.2.deeds = [.opened 0, .changed 1 "t" [[.int 7], [.int 1]]] := by
  intro rowType pulled part table p rows c ctx w
  have compiled : c.compile ctx p = .ok _ := rfl
  obtain ⟨recorded, found, holds, -⟩ := deeds_happen_once compiled
  have once := holds w [.call .next, .call .reset, .call .next, .call .next, .close, .call .next]
  cases found
  have apart : c.KeepsApart := by
    rintro kind e registered
    cases registered
    refine ⟨fun _ _ _ => rfl, ?_, ?_, fun _ _ => rfl⟩
    · rintro (_ | _) _ <;> rfl
    · rintro (_ | _) _ <;> rfl
  have drained (a : Artifact) := drain_row (w := w.noted Event) (s := .unopened)
    (c := ((⟨rows, fun _ _ w => (.ok rows.start, w)⟩ : Executor (World Unit)).noted 0).open a ctx) rfl rfl
    (drain_done rfl)
  have built (a : Artifact) := serveAll_next_transformed (f := changeNoted 1 table .insert ctx.params) (drained a) rfl
  exact ⟨⟨_, compiled⟩, _, rfl, once.1, once.2.1 apart, (congrArg World.deeds (built _ _)).trans rfl⟩

end Compiler

end FederatedQuery
