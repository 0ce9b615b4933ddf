import FederatedQuery.Proofs.Cursor.Ledger
import FederatedQuery.Proofs.Plan.Feed

/-!
Compiled plans with a journal of their effects. The sites of a plan are its modifications and what it opens in other
conventions, counted from left to right, with the inputs of an operator before it. Recording a plan compiles it with
leaves that note what they do. The recorded cursor cannot be told from the compiled one, and it keeps a ledger.
-/
namespace FederatedQuery

open Foreign

variable {σ : Type}

/-- A cursor that notes when it is closed, and how. -/
def Cursor.watched (c : Cursor (World σ)) (site : Nat) : Cursor (World (Noted Event σ)) where
  State := c.State
  start := c.start
  next s w :=
    let o := c.next s w.plain
    ⟨o.result, o.state, w.onward o.world⟩
  current := c.current
  reset s w :=
    let o := c.reset s w.plain
    ⟨o.result, o.state, w.onward o.world⟩
  close s w :=
    let o := c.close s w.plain
    ⟨o.result, o.state, (w.onward o.world).note [.closed ⟨site, o.result⟩]⟩
  finite := by
    refine Subrelation.wf ?_ c.finite
    rintro s' s ⟨w, found, reached⟩
    exact ⟨w.plain, found, reached⟩

/-- An executor that notes what it opens at a site. -/
def Foreign.Executor.noted (e : Executor (World σ)) (site : Nat) : Executor (World (Noted Event σ)) where
  cursor := e.cursor.watched site
  launch a ctx w :=
    let launched := e.launch a ctx w.plain
    (launched.1, (w.onward launched.2).note (if launched.1.isOk then [.did (.opened site)] else []))

namespace Foreign.Executor

variable (e : Executor (World σ)) (site : Nat) (a : Artifact) (ctx : Context)

theorem projects_watched (c : Cursor (World σ)) : (c.watched site).Projects c id World.plain where
  start := rfl
  next _ _ := rfl
  current _ := rfl
  reset _ _ := rfl
  close _ _ := rfl

theorem onto_open : Cursor.Onto World.plain ((e.noted site).open a ctx) (e.open a ctx) := by
  refine ⟨_, (projects_watched site e.cursor).open fun w => ?_⟩
  simp only [noted, World.plain_note, World.plain_onward]
  obtain ⟨_ | s, v⟩ := e.launch a ctx w.plain <;> rfl

theorem launch_noted (w : Book σ) : (e.noted site).launch a ctx w =
    ((e.launch a ctx w.plain).1, (w.onward (e.launch a ctx w.plain).2).note
      (if (e.launch a ctx w.plain).1.isOk then [.did (.opened site)] else [])) := rfl

/-- How the state of a foreign cursor tells of its deed. -/
def Launched (site : Nat) {S : Type} : Opening S → List Deed → Prop
  | .unopened, deeds => deeds = []
  | .opened .., deeds => deeds = [.opened site]
  | .closed, _ => False

/-- An executor that leaves the tables of this process alone. -/
structure KeepsApart (e : Executor (World σ)) : Prop where
  launch (a : Artifact) (ctx : Context) (w : World σ) : (e.launch a ctx w).2.store = w.store
  next (s : e.cursor.State) (w : World σ) : (e.cursor.next s w).world.store = w.store
  reset (s : e.cursor.State) (w : World σ) : (e.cursor.reset s w).world.store = w.store
  close (s : e.cursor.State) (w : World σ) : (e.cursor.close s w).world.store = w.store

variable {apart : Prop} (keeps : apart → e.KeepsApart)

include keeps

theorem adds_advanceOpened (s : e.cursor.State) (p : Phase) (w : Book σ) :
    Adds apart (Launched site) [.opened site] w (advanceOpened (e.noted site).cursor s p w) := by
  have stepped : Stepped apart w ((e.noted site).cursor.next s w).world [] :=
    ⟨(List.append_nil _).symm, fun outside => (keeps outside).next s w.plain⟩
  unfold advanceOpened
  cases result : ((e.noted site).cursor.next s w).result with
  | ok | error =>
    simp only [result]
    exact .of_stepped stepped rfl

theorem ledgered_open : ((e.noted site).open a ctx).Ledgered apart site (site + 1) := by
  refine ⟨Launched site, fun s => s = .closed, ?_, rfl, ?_, ?_, ?_, ?_, ?_, ?_⟩
  · rintro (_ | ⟨s, p⟩ | _) deeds here
    · cases here
      exact .nil (Nat.le_succ site)
    · cases here
      exact .single (.opened site)
    · cases here
  · rintro (_ | ⟨s, p⟩ | _) deeds here w
    · cases here
      simp only [Executor.open, launch_noted]
      have store : apart → (e.launch a ctx w.plain).2.store = w.store :=
        fun outside => (keeps outside).launch a ctx w.plain
      generalize e.launch a ctx w.plain = launched at store
      obtain ⟨err | s, v⟩ := launched
      · have stepped : Stepped apart w ((w.onward v).note []) [] := ⟨rfl, store⟩
        exact .of_stepped stepped rfl
      · have stepped : Stepped apart w ((w.onward v).note [.did (.opened site)]) [.opened site] := ⟨rfl, store⟩
        have launched : Adds apart (fun _ deeds => deeds = [.opened site]) [] w
            (⟨.ok (), (), (w.onward v).note [.did (.opened site)]⟩ : Outcome _ Unit Unit) := .of_stepped stepped rfl
        refine launched.trans fun after done => ?_
        rw [done]
        exact e.adds_advanceOpened site keeps s .unstarted _
    · cases here
      exact e.adds_advanceOpened site keeps s p w
    · cases here
  · rintro (_ | ⟨s, p⟩ | _) deeds here w
    · exact ⟨.refl w, here⟩
    · have stepped : Stepped apart w ((e.noted site).cursor.reset s w).world [] :=
        ⟨(List.append_nil _).symm, fun outside => (keeps outside).reset s w.plain⟩
      simp only [Executor.open]
      cases ((e.noted site).cursor.reset s w).result <;> exact ⟨stepped, here⟩
    · cases here
  · rintro (_ | ⟨s, p⟩ | _) deeds here w
    · cases here
      exact ⟨.none rfl, rfl⟩
    · cases here
      refine ⟨⟨⟨[⟨site, (e.cursor.close s w.plain).result⟩], rfl, rfl, ?_⟩, ?_⟩, rfl⟩
      on_goal 2 => exact fun outside => (keeps outside).close s w.plain
      change (e.cursor.close s w.plain).result = _
      cases (e.cursor.close s w.plain).result <;> rfl
    · cases here
  · rintro s rfl w
    rfl
  · rintro s rfl w
    rfl
  · rintro s rfl w
    rfl

end Foreign.Executor

theorem Store.rows_put (s : Store) (name : String) (rows : List Row) : (s.put name rows).rows name = rows := by
  simp [put, Store.rows]

namespace Plan

mutual

def sites : Plan → Nat
  | scan .. | values .. => 0
  | calculate _ _ input | aggregate _ _ _ input | sort _ _ _ _ input => sites input
  | modify _ _ _ input => sites input + 1
  | join _ _ _ left right => sites left + sites right
  | setOp _ _ _ first rest | collect _ _ first rest => sites first + sitesOf rest
  | converter _ source input => if source = .pull then sites input else 1

def sitesOf : List Plan → Nat
  | [] => 0
  | p :: rest => sites p + sitesOf rest

end

end Plan

namespace Compiler

open Cursor

/-- A compiler whose executors note what they open at a site. -/
def noted (c : Compiler σ) (site : Nat) : Compiler (Noted Event σ) :=
  ⟨c.emitters, fun kind => (c.executors kind).map fun e => e.noted site, c.simplify, c.passes⟩

/-- Changes a table by rows, and notes that when it is done. -/
def changeNoted (site : Nat) (table : Table) (op : ModifyOp) (params : Bindings) (rows : List Row)
    (w : World (Noted Event σ)) : Except Error (List Row) × World (Noted Event σ) :=
  let made := change table op params rows w
  (made.1, made.2.note (if made.1.isOk then [.did (.changed site table.name (made.2.store.rows table.name))] else []))

mutual

/-- Compiles a plan whose sites have numbers from the given one on, with leaves that note what they do. -/
def record (c : Compiler σ) (ctx : Context) (site : Nat) : Plan → Except Error (Cursor (World (Noted Event σ)))
  | p@(.scan ..) | p@(.values ..) => (c.noted site).compile ctx p
  | p@(.calculate _ program input) => inProcess p (match c.program? program input with
      | none => .ok (.ofRows [])
      | some program => do
        let input ← record c ctx site input
        return running input program ctx.params)
  | p@(.aggregate _ group calls input) => inProcess p do
      let input ← record c ctx site input
      return input.transformed fun rows w => (Rows.aggregate group calls rows, w)
  | p@(.join _ kind on left right) => inProcess p do
      let l ← record c ctx site left
      let r ← record c ctx (site + left.sites) right
      return l.merged r (Rows.join kind on left.rowType.arity right.rowType.arity ctx.params)
  | p@(.setOp _ op all first rest) => inProcess p do
      let cursor ← record c ctx site first
      recordChain c ctx (.combined op all) cursor (site + first.sites) rest
  | p@(.sort _ collation offset fetch input) => inProcess p do
      let input ← record c ctx site input
      return input.transformed fun rows w => (Rows.sort collation offset fetch rows, w)
  | p@(.modify _ table op input) => inProcess p do
      let cursor ← record c ctx site input
      return cursor.transformed (changeNoted (site + input.sites) table op ctx.params)
  | p@(.collect _ all first rest) => inProcess p do
      let cursor ← record c ctx site first
      recordChain c ctx (collecting all) cursor (site + first.sites) rest
  | p@(.converter _ source input) => inProcess p (match source with
      | .pull => record c ctx site input
      | .logical => .error (.contract .logicalConverter)
      | _ => (c.noted site).opening ctx source input)

/-- Joins a cursor with those of more plans, whose sites follow one another. -/
def recordChain (c : Compiler σ) (ctx : Context)
    (pair : Cursor (World (Noted Event σ)) → Cursor (World (Noted Event σ)) → Cursor (World (Noted Event σ)))
    (chain : Cursor (World (Noted Event σ))) (site : Nat) :
    List Plan → Except Error (Cursor (World (Noted Event σ)))
  | [] => .ok chain
  | p :: rest => do
    let next ← record c ctx site p
    recordChain c ctx pair (pair chain next) (site + p.sites) rest

end

section Leaves

variable {apart : Prop} (site : Nat) (table : Table) (op : ModifyOp) (params : Bindings) {rows : List Row} {w : Book σ}

theorem onto_stored : Onto World.plain (stored table : Cursor (Book σ)) (stored table) :=
  .buffered id (fun _ _ => rfl) fun _ _ => rfl

theorem ledgered_stored : (stored table : Cursor (Book σ)).Ledgered apart site site :=
  .buffered (R := fun _ deeds => deeds = []) (Q := fun _ deeds => deeds = []) rfl
    (by rintro s deeds (rfl | rfl) <;> exact .nil (Nat.le_refl site))
    (by
      rintro s deeds rfl w
      exact .none rfl)
    (by rintro s deeds (rfl | rfl) w <;> exact .none rfl)

/-- What a change of a table is: one of its rows, or nothing when it fails. -/
theorem change_cases (rows : List Row) (w : World σ) :
    (∃ e, change table op params rows w = (.error e, w)) ∨
    ∃ out after, change table op params rows w = (.ok out, { w with store := w.store.put table.name after }) := by
  unfold change
  cases table.checkStored with
  | error e => exact .inl ⟨e, rfl⟩
  | ok =>
    cases Rows.change op params rows (w.store.rows table.name) with
    | error e => exact .inl ⟨e, rfl⟩
    | ok made => exact .inr ⟨_, made.1, rfl⟩

theorem change_plain (rows : List Row) (w : Book σ) :
    change table op params rows w.plain =
      ((change table op params rows w).1, (change table op params rows w).2.plain) := by
  have same : w.plain.store = w.store := rfl
  cases checked : table.checkStored with
  | error => simp only [change, checked]
  | ok =>
    simp only [change, checked, same]
    cases Rows.change op params rows (w.store.rows table.name) <;> rfl

theorem stepped_changeNoted {out : List Row} (done : (changeNoted site table op params rows w).1 = .ok out) :
    ∃ own, Stepped apart w (changeNoted site table op params rows w).2 own ∧ Within site (site + 1) own ∧
      own.filterMap Deed.opened? = [] := by
  rcases change_cases table op params rows w with ⟨e, failed⟩ | ⟨made, after, changed⟩
  · rw [changeNoted, failed] at done
    cases done
  · rw [changeNoted, changed]
    refine ⟨_, ⟨rfl, fun _ => ?_⟩, .single (.changed site _ _), rfl⟩
    change w.store.put table.name after = w.store.put table.name ((w.store.put table.name after).rows table.name)
    rw [Store.rows_put]

theorem changeNoted_error {e : Error} (failed : (changeNoted site table op params rows w).1 = .error e) :
    (changeNoted site table op params rows w).2 = w := by
  rcases change_cases table op params rows w with ⟨e, changed⟩ | ⟨made, after, changed⟩
  · rw [changeNoted, changed]
    change w.note [] = w
    rw [World.note, List.append_nil]
    rfl
  · rw [changeNoted, changed] at failed
    cases failed

end Leaves

/-- A recorded cursor that cannot be told from a compiled one, and keeps a ledger of a range of sites. -/
structure Records (apart : Prop) (recorded : Cursor (Book σ)) (cursor : Cursor (World σ))
    (lo hi : Nat) : Prop where
  onto : Onto World.plain recorded cursor
  ledgered : recorded.Ledgered apart lo hi

section Operators

variable {apart : Prop} {r q : Cursor (Book σ)} {c d : Cursor (World σ)} {lo mid hi : Nat}

theorem Records.running (records : Records apart r c lo hi) (program : Program) (params : Bindings) :
    Records apart (running r program params) (running c program params) lo hi := by
  unfold Compiler.running
  split
  · exact records
  · split
    · exact ⟨records.onto.unwound program params _, records.ledgered.unwound program params _⟩
    · exact ⟨records.onto.calculated program params, records.ledgered.calculated program params⟩

theorem Records.combined (op : SetOp) (all : Bool) (first : Records apart r c lo mid)
    (second : Records apart q d mid hi) : Records apart (r.combined op all q) (c.combined op all d) lo hi :=
  ⟨first.onto.combined op all second.onto, first.ledgered.combined op all second.ledgered⟩

theorem Records.collecting (all : Bool) (first : Records apart r c lo mid) (second : Records apart q d mid hi) :
    Records apart (collecting all r q) (collecting all c d) lo hi := by
  unfold Compiler.collecting
  split
  · exact ⟨first.onto.concatenated second.onto, first.ledgered.concatenated second.ledgered⟩
  · exact first.combined .union false second

end Operators

variable {apart : Prop} {c : Compiler σ} {ctx : Context}

/-- Executors that all leave the tables of this process alone. -/
def KeepsApart (c : Compiler σ) : Prop := ∀ kind e, c.executors kind = some e → e.KeepsApart

section Records

variable (keeps : apart → c.KeepsApart)

include keeps

variable {cursor : Cursor (World σ)}

theorem records_opening {source : Convention} {input : Plan} (site : Nat)
    (compiled : c.opening ctx source input = .ok cursor) :
    ∃ recorded, (c.noted site).opening ctx source input = .ok recorded ∧
      Records apart recorded cursor site (site + 1) := by
  unfold opening at compiled ⊢
  cases registered : c.executors source.kind with
  | none =>
    rw [registered] at compiled
    cases compiled
  | some e =>
    have registered' : (c.noted site).executors source.kind = some (e.noted site) :=
      congrArg (Option.map fun e : Executor (World σ) => e.noted site) registered
    rw [registered] at compiled
    rw [registered']
    have same : (c.noted site).emitters = c.emitters := rfl
    simp only [same]
    cases emitted : c.emitters.emit input with
    | error =>
      simp only [emitted] at compiled
      cases compiled
    | ok artifact =>
      simp only [emitted] at compiled
      cases compiled
      exact ⟨_, rfl, e.onto_open site artifact ctx,
        e.ledgered_open site artifact ctx fun outside => keeps outside source.kind e registered⟩

omit keeps in
theorem records_chain {pair : Cursor (Book σ) → Cursor (Book σ) → Cursor (Book σ)}
    {pair' : Cursor (World σ) → Cursor (World σ) → Cursor (World σ)}
    (paired : ∀ {r q c d lo mid hi}, Records apart r c lo mid → Records apart q d mid hi →
      Records apart (pair r q) (pair' c d) lo hi) {rest : List Plan}
    (each : ∀ p ∈ rest, ∀ site cursor, c.compile ctx p = .ok cursor →
      ∃ recorded, c.record ctx site p = .ok recorded ∧ Records apart recorded cursor site (site + p.sites))
    {recorded : Cursor (Book σ)} {chain : Cursor (World σ)} {lo site : Nat}
    (records : Records apart recorded chain lo site) (compiled : c.compileChain ctx pair' chain rest = .ok cursor) :
    ∃ joined, c.recordChain ctx pair recorded site rest = .ok joined ∧
      Records apart joined cursor lo (site + Plan.sitesOf rest) := by
  induction rest generalizing recorded chain site with
  | nil =>
    cases compiled
    exact ⟨recorded, rfl, records⟩
  | cons p rest ih =>
    obtain ⟨next, here, compiled⟩ := bind_eq_ok.1 compiled
    obtain ⟨recorded', noted, records'⟩ := each p (.head _) site next here
    obtain ⟨joined, found, joins⟩ := ih (fun q mem => each q (.tail _ mem)) (paired records records') compiled
    refine ⟨joined, ?_, ?_⟩
    · rw [recordChain, noted]
      exact found
    · rw [Plan.sitesOf, ← Nat.add_assoc]
      exact joins

theorem records_record (p : Plan) (site : Nat) (cursor : Cursor (World σ)) (compiled : c.compile ctx p = .ok cursor) :
    ∃ recorded, c.record ctx site p = .ok recorded ∧ Records apart recorded cursor site (site + p.sites) := by
  induction p using Plan.induction generalizing site cursor with
  | step p ih =>
    cases p with
    | scan h table =>
      obtain ⟨inside, compiled⟩ := inProcess_eq_ok.1 compiled
      rw [record, compile]
      cases checked : table.checkStored with
      | error =>
        rw [checked] at compiled
        cases compiled
      | ok =>
        rw [checked] at compiled
        cases compiled
        exact ⟨_, inProcess_eq_ok.2 ⟨inside, rfl⟩, onto_stored table, ledgered_stored site table⟩
    | values h rows =>
      rw [compile] at compiled
      obtain ⟨inside, compiled⟩ := inProcess_eq_ok.1 compiled
      cases compiled
      exact ⟨_, inProcess_eq_ok.2 ⟨inside, rfl⟩, .ofRows rows, .ofRows (Nat.le_add_right site _) rows⟩
    | calculate h program input =>
      obtain ⟨inside, compiled⟩ := inProcess_eq_ok.1 compiled
      rw [record]
      cases ready : c.program? program input with
      | none =>
        simp only [ready] at compiled ⊢
        cases compiled
        exact ⟨_, inProcess_eq_ok.2 ⟨inside, rfl⟩, .ofRows [], .ofRows (Nat.le_add_right site _) []⟩
      | some program =>
        simp only [ready] at compiled ⊢
        obtain ⟨inner, found, compiled⟩ := bind_eq_ok.1 compiled
        cases compiled
        obtain ⟨recorded, noted, records⟩ := ih input (.head _) site inner found
        exact ⟨_, inProcess_eq_ok.2 ⟨inside, by rw [noted]; rfl⟩, records.running program ctx.params⟩
    | aggregate h group calls input | sort h collation offset fetch input =>
      rw [compile] at compiled
      obtain ⟨inside, compiled⟩ := inProcess_eq_ok.1 compiled
      obtain ⟨inner, found, compiled⟩ := bind_eq_ok.1 compiled
      cases compiled
      obtain ⟨recorded, noted, onto, ledgered⟩ := ih input (.head _) site inner found
      exact ⟨_, inProcess_eq_ok.2 ⟨inside, by rw [noted]; rfl⟩, onto.transformed fun _ _ => rfl,
        ledgered.transformed (Nat.le_refl _) (fun _ w _ _ => ⟨[], .refl w, .nil (Nat.le_refl _), rfl⟩)
          fun _ _ _ _ => rfl⟩
    | join h kind on left right =>
      obtain ⟨inside, compiled⟩ := inProcess_eq_ok.1 compiled
      obtain ⟨first, found, compiled⟩ := bind_eq_ok.1 compiled
      obtain ⟨second, found', compiled⟩ := bind_eq_ok.1 compiled
      cases compiled
      obtain ⟨recorded, noted, onto, ledgered⟩ := ih left (.head _) site first found
      obtain ⟨recorded', noted', onto', ledgered'⟩ := ih right (.tail _ (.head _)) (site + left.sites) second found'
      rw [Plan.sites, ← Nat.add_assoc]
      exact ⟨_, inProcess_eq_ok.2 ⟨inside, by rw [noted, noted']; rfl⟩, onto.merged _ onto',
        ledgered.merged _ ledgered'⟩
    | setOp h op all first rest | collect h all first rest =>
      rw [compile] at compiled
      obtain ⟨inside, compiled⟩ := inProcess_eq_ok.1 compiled
      obtain ⟨inner, found, compiled⟩ := bind_eq_ok.1 compiled
      obtain ⟨recorded, noted, records⟩ := ih first (.head _) site inner found
      obtain ⟨joined, chained, joins⟩ := records_chain (by first | exact .combined _ all | exact .collecting all)
        (fun q mem => ih q (.tail _ mem)) records compiled
      rw [record, Plan.sites, ← Nat.add_assoc]
      exact ⟨joined, inProcess_eq_ok.2 ⟨inside, by rw [noted]; exact chained⟩, joins⟩
    | modify h table op input =>
      obtain ⟨inside, compiled⟩ := inProcess_eq_ok.1 compiled
      obtain ⟨inner, found, compiled⟩ := bind_eq_ok.1 compiled
      cases compiled
      obtain ⟨recorded, noted, onto, ledgered⟩ := ih input (.head _) site inner found
      exact ⟨recorded.transformed (changeNoted (site + input.sites) table op ctx.params),
        inProcess_eq_ok.2 ⟨inside, by rw [noted]; rfl⟩,
        onto.transformed fun rows w => change_plain table op ctx.params rows w,
        ledgered.transformed (Nat.le_succ _) (fun _ _ _ => stepped_changeNoted _ table op ctx.params)
          fun _ _ _ => changeNoted_error _ table op ctx.params⟩
    | converter h source input =>
      cases source with
      | pull =>
        obtain ⟨inside, compiled⟩ := inProcess_eq_ok.1 compiled
        obtain ⟨recorded, noted, records⟩ := ih input (.head _) site cursor compiled
        exact ⟨recorded, inProcess_eq_ok.2 ⟨inside, noted⟩, records⟩
      | logical =>
        rw [compile] at compiled
        cases (inProcess_eq_ok.1 compiled).2
      | sql | document =>
        rw [compile] at compiled
        · obtain ⟨inside, compiled⟩ := inProcess_eq_ok.1 compiled
          obtain ⟨recorded, noted, records⟩ := records_opening keeps site compiled
          rw [record]
          · exact ⟨recorded, inProcess_eq_ok.2 ⟨inside, noted⟩, records⟩
          all_goals
            intro _ same
            cases same
        all_goals
          intro _ same
          cases same

end Records

end Compiler

end FederatedQuery
