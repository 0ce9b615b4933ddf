import FederatedQuery.Proofs.Expr.Evaluation
import FederatedQuery.Proofs.Rows.Groups
import FederatedQuery.Rows.Join
import FederatedQuery.Rows.SetOperation
import FederatedQuery.Rows.Sort
import FederatedQuery.Rows.Unwind

/-!
Where the rows of an operation come from: which input rows they are, or which input rows they are made of.
-/
namespace FederatedQuery.Rows

section Sorting

variable {c : Collation} {row : Row} {rows : List Row}

theorem perm_insertBack (c : Collation) (row : Row) (rows : List Row) : (insertBack c row rows).Perm (row :: rows) := by
  induction rows with
  | nil => exact .refl _
  | cons last before ih =>
    rw [insertBack]
    split
    · exact (ih.cons last).trans (.swap row last before)
    · exact .refl _

theorem perm_sorted : (sorted c rows).Perm rows := by
  have step (backwards : List Row) :
      (rows.foldl (fun backwards r => insertBack c r backwards) backwards).Perm (rows ++ backwards) := by
    induction rows generalizing backwards with
    | nil => exact .refl _
    | cons r rows ih => exact (ih _).trans (((perm_insertBack c r _).append_left rows).trans List.perm_middle)
  have all := step []
  rw [List.append_nil] at all
  exact (List.reverse_perm _).trans all

theorem mem_of_sort {offset fetch : Option Nat} {out : List Row} (success : sort c offset fetch rows = .ok out)
    (mem : row ∈ out) : row ∈ rows := by
  unfold sort at success
  split at success
  · cases success
  · cases success
    have inside : row ∈ (sorted c rows).drop (offset.getD 0) := by
      cases fetch with
      | none => exact mem
      | some => exact List.mem_of_mem_take mem
    exact perm_sorted.mem_iff.1 (List.mem_of_mem_drop inside)

end Sorting

section SetOperation

variable {row : Row}

theorem distinctFrom_sublist (seen rows : List Row) : (distinctFrom seen rows).Sublist rows := by
  induction rows generalizing seen with
  | nil => exact .slnil
  | cons r rows ih =>
    rw [distinctFrom]
    split
    · exact (ih _).cons r
    · exact (ih _).cons_cons r

theorem intersectAll_sublist (rows : List Row) (waiting : Waiting Row) : (intersectAll rows waiting).Sublist rows := by
  induction rows generalizing waiting with
  | nil => exact .slnil
  | cons r rows ih =>
    rw [intersectAll]
    split
    · exact (ih _).cons_cons r
    · exact (ih _).cons r

theorem minusAll_sublist (rows : List Row) (waiting : Waiting Row) : (minusAll rows waiting).Sublist rows := by
  induction rows generalizing waiting with
  | nil => exact .slnil
  | cons r rows ih =>
    rw [minusAll]
    split
    · exact (ih _).cons r
    · exact (ih _).cons_cons r

/-- The rows come in the order of the inputs, and for other operations than a union from the left one. -/
theorem setOperation_sublist (op : SetOp) (all : Bool) (left right : List Row) :
    (setOperation op all left right).Sublist (if op = .union then left ++ right else left) := by
  unfold setOperation
  split
  · exact .refl _
  · exact distinctFrom_sublist ..
  · exact intersectAll_sublist ..
  · exact (distinctFrom_sublist ..).trans List.filter_sublist
  · exact minusAll_sublist ..
  · exact (distinctFrom_sublist ..).trans List.filter_sublist

theorem mem_of_setOperation {op : SetOp} {all : Bool} {left right : List Row}
    (mem : row ∈ setOperation op all left right) : row ∈ left ∨ op = .union ∧ row ∈ right := by
  have inside := (setOperation_sublist op all left right).mem mem
  split at inside
  · next union => exact (List.mem_append.1 inside).imp_right fun other => ⟨union, other⟩
  · exact .inl inside

end SetOperation

section Join

variable {kind : JoinKind} {on : Expr} {leftArity rightArity : Nat} {params : Bindings} {left right out : List Row}
  {row : Row}

/-- How a row of a join is made. -/
inductive Joined (kind : JoinKind) (on : Expr) (leftArity rightArity : Nat) (params : Bindings)
    (left right : List Row) : Row → Prop
  | pair {l r : Row} (both : kind.leftOnly = false) (first : l ∈ left) (second : r ∈ right)
      (passes : on.test (l ++ r) params = .ok true) :
      Joined kind on leftArity rightArity params left right (l ++ r)
  | padded {l : Row} (pads : kind.padsRight = true) (first : l ∈ left) :
      Joined kind on leftArity rightArity params left right (l ++ nulls rightArity)
  | orphan {r : Row} (pads : kind.padsLeft = true) (second : r ∈ right) :
      Joined kind on leftArity rightArity params left right (nulls leftArity ++ r)
  | kept {l : Row} (one : kind.leftOnly = true) (first : l ∈ left) :
      Joined kind on leftArity rightArity params left right l

theorem mem_of_matching {wanted : Bool} (success : matching wanted on params right left = .ok out)
    (mem : row ∈ out) : row ∈ left := by
  induction left generalizing out with
  | nil =>
    cases success
    exact mem
  | cons _ _ ih =>
    obtain ⟨found, _, success⟩ := bind_eq_ok.1 success
    obtain ⟨kept, later, success⟩ := bind_eq_ok.1 success
    cases success
    split at mem
    · rcases List.mem_cons.1 mem with rfl | mem
      · exact .head _
      · exact .tail _ (ih later mem)
    · exact .tail _ (ih later mem)

theorem mem_marked {rows : List Row} {marks : List Bool} (mem : row ∈ marked rows marks) :
    (row, true) ∈ rows.zip marks := by
  obtain ⟨⟨r, mark⟩, inside, rfl⟩ := List.mem_map.1 mem
  obtain ⟨inside, rfl⟩ := List.mem_filter.1 inside
  exact inside

theorem mem_join (success : join kind on leftArity rightArity params left right = .ok out)
    (mem : row ∈ out) : Joined kind on leftArity rightArity params left right row := by
  have both (two : kind.leftOnly = false) (success : (do
      let table ← left.mapM fun l => matchMarks on params l right
      let found := (left.zip table).flatMap fun pair => joinedRows kind.padsRight rightArity right pair.1 pair.2
      let orphans := if kind.padsLeft then (unmatched right table).map (nulls leftArity ++ ·) else []
      return found ++ orphans) = Except.ok out) :
      Joined kind on leftArity rightArity params left right row := by
    obtain ⟨table, tested, success⟩ := bind_eq_ok.1 success
    cases success
    rcases List.mem_append.1 mem with found | orphan
    · obtain ⟨⟨l, marks⟩, inside, found⟩ := List.mem_flatMap.1 found
      obtain ⟨first, _⟩ := List.of_mem_zip inside
      have marked := (List.forall₂_iff_zip.1 (mapM_eq_ok.1 tested)).2 inside
      simp only [joinedRows] at found
      split at found
      · next pads =>
        rw [List.mem_singleton.1 found]
        exact .padded (Bool.and_eq_true_iff.1 pads).2 first
      · obtain ⟨r, inside, rfl⟩ := List.mem_map.1 found
        have paired := mem_marked inside
        exact .pair two first (List.of_mem_zip paired).1 ((List.forall₂_iff_zip.1 (mapM_eq_ok.1 marked)).2 paired)
    · split at orphan
      · next pads =>
        obtain ⟨r, inside, rfl⟩ := List.mem_map.1 orphan
        exact .orphan pads (List.of_mem_zip (mem_marked inside)).1
      · cases orphan
  cases kind with
  | semi | anti => exact .kept rfl (mem_of_matching success mem)
  | inner | left | right | full => exact both rfl success

end Join

variable {group : List Nat} {rows : List Row}

/-- A group has rows, the first of which has its key; or there are neither group fields nor rows. -/
theorem mem_partition {members : List Row} {groups : Waiting Row} {key : Row}
    (success : partition group rows = .ok groups) (mem : (key, members) ∈ groups) :
    (∃ first rest, members = first :: rest ∧ keyOf group first = .ok key ∧ ∀ r ∈ members, r ∈ rows) ∨
      rows = [] ∧ group = [] ∧ key = [] ∧ members = [] := by
  obtain ⟨keys, found, success⟩ := bind_eq_ok.1 success
  cases success
  split at mem
  · next empty =>
    rw [Bool.and_eq_true, List.isEmpty_iff, List.isEmpty_iff] at empty
    cases List.mem_singleton.1 mem
    exact .inr ⟨empty.1, empty.2, rfl, rfl⟩
  · obtain ⟨⟨first, rest, rfl, paired⟩, each⟩ := Waiting.mem_ofPairs mem
    refine .inl ⟨first, rest, rfl, (List.forall₂_iff_zip.1 (mapM_eq_ok.1 found).flip).2 paired, fun r inside => ?_⟩
    obtain ⟨_, paired⟩ := each r inside
    exact (List.of_mem_zip paired).2

/-- A row of an aggregation is the key of one row, and the calls on the rows of its group; or, without
group fields and rows, what the calls start from. -/
theorem mem_aggregate {calls : List AggCall} {out : List Row} {row : Row}
    (success : aggregate group calls rows = .ok out) (mem : row ∈ out) :
    (∃ first rest key states, (∀ r ∈ first :: rest, r ∈ rows) ∧ keyOf group first = .ok key ∧
      List.Forall₂ (fun call s => callState call (first :: rest) = .ok s) calls states ∧
      row = key ++ states.map (·.acc.result)) ∨
    rows = [] ∧ group = [] ∧ row = calls.map fun call => (Accumulator.start call.function).result := by
  obtain ⟨groups, shared, made⟩ := aggregate_eq_ok success
  obtain ⟨⟨key, members⟩, inside, made⟩ := exists_of_forall₂_right made mem
  obtain ⟨states, folded, made⟩ := bind_eq_ok.1 made
  have folded := mapM_eq_ok.1 folded
  cases made
  rcases mem_partition shared inside with ⟨first, rest, rfl, keyed, each⟩ | ⟨empty, ungrouped, rfl, rfl⟩
  · exact .inl ⟨first, rest, key, states, each, keyed, folded, rfl⟩
  · refine .inr ⟨empty, ungrouped, ?_⟩
    have states : states = calls.map CallState.start := by
      rw [← List.forall₂_eq_eq_eq]
      exact List.forall₂_map_right_iff.2 (folded.flip.imp fun _ _ here => (Except.ok.inj here).symm)
    rw [states, List.map_map]
    rfl

/-- The rows that a row contributes to a program without an unwind: one or none. -/
def calculateRow (program : Program) (params : Bindings) (row : Row) : Except Error (List Row) := do
  if ← program.accepts row params then return [← program.projectRow row params] else return []

/-- The rows that a row contributes to a program as it is run. -/
def runRow (program : Program) (params : Bindings) (row : Row) : Except Error (List Row) :=
  if program.isTrivial then .ok [row]
  else match program.unwindPosition with
    | some position => unwindRow program position params row
    | none => calculateRow program params row

section Program

variable {program : Program} {params : Bindings} {row made : Row} {out : List Row} {position : Nat} {es : List Expr}
  {index : Nat}

theorem mapM_refs {α : Type} {f : Expr → Except Error α} {items : List α}
    (reads : ∀ i ty nullable item, items[i]? = some item → f (.ref i ty nullable) = .ok item)
    (refs : Program.areRefsFrom index es = true) (whole : index + es.length = items.length) :
    es.mapM f = .ok (items.drop index) := by
  induction es generalizing index with
  | nil =>
    rw [List.length_nil, Nat.add_zero] at whole
    rw [whole, List.drop_length]
    rfl
  | cons e rest ih =>
    cases e with
    | ref i ty nullable =>
      rw [Program.areRefsFrom, Bool.and_eq_true, beq_iff_eq] at refs
      obtain ⟨rfl, refs⟩ := refs
      rw [List.length_cons] at whole
      have inside : i < items.length := by omega
      rw [List.mapM_cons, reads i ty nullable _ (List.getElem?_eq_getElem inside), ok_bind, ih refs (by omega),
        List.drop_eq_getElem_cons inside]
      rfl
    | _ => cases refs

theorem evalAll_refs (refs : Program.areRefsFrom index es = true)
    (whole : index + es.length = row.length) : Expr.evalAll row params es = .ok (row.drop index) := by
  rw [Expr.evalAll_eq_mapM]
  exact mapM_refs (fun _ _ _ _ found => Expr.field_eq_ok.2 found) refs whole

/-- A trivial program is one that accepts every row and projects it to itself. -/
theorem run_of_isTrivial (params : Bindings) (trivial : program.isTrivial = true)
    (arity : row.length = program.input.arity) :
    program.accepts row params = .ok true ∧ program.projectRow row params = .ok row ∧
      program.unwindPosition = none := by
  rw [Program.isTrivial, Bool.and_eq_true, Option.isNone_iff_eq_none, Program.isIdentity, Bool.and_eq_true,
    decide_eq_true_eq] at trivial
  obtain ⟨condition, count, refs⟩ := trivial
  refine ⟨by rw [Program.accepts, condition], ?_, ?_⟩
  · rw [Program.projectRow, evalAll_refs refs (by omega), List.drop_zero]
  · have never (es : List Expr) (index : Nat) (refs : Program.areRefsFrom index es = true) :
        ∀ e ∈ es, Program.isUnwind e = false := by
      induction es generalizing index with
      | nil => exact nofun
      | cons e rest ih =>
        cases e with
        | ref =>
          rw [Program.areRefsFrom, Bool.and_eq_true] at refs
          exact List.forall_mem_cons.2 ⟨rfl, ih (index + 1) refs.2⟩
        | _ => cases refs
    exact List.findIdx?_eq_none_iff.2 (never program.projects 0 refs)

/-- What a program makes of an accepted row: its projections, with an item in the place of an array that
is unwound. -/
inductive Made (program : Program) (params : Bindings) (row : Row) : Row → Prop
  | projected {r : Row} (whole : program.unwindPosition = none)
      (evaluated : program.projectRow row params = .ok r) : Made program params row r
  | unwound {r : Row} {position : Nat} {items : List Value} {item : Value}
      (found : program.unwindPosition = some position) (evaluated : program.projectRow row params = .ok r)
      (array : r[position]? = some (.array items)) (mem : item ∈ items) :
      Made program params row (r.set position item)

/-- The rows that are made of a projected row: the row, or one for each item of the array to unwind. -/
def spread : Option Nat → Row → Except Error (List Row)
  | some position, projected => expand position projected
  | none, projected => .ok [projected]

/-- The rows that a program makes of a row: none of a row that it refuses, and otherwise those that its
projections spread to. -/
def selectRow (program : Program) (params : Bindings) (row : Row) : Except Error (List Row) := do
  if ← program.accepts row params then spread program.unwindPosition (← program.projectRow row params)
  else return []

/-- A trivial program is no exception on a row of the right length. -/
theorem runRow_eq_selectRow (arity : program.isTrivial = true → row.length = program.input.arity) :
    runRow program params row = selectRow program params row := by
  unfold runRow selectRow
  split
  · next trivial =>
    obtain ⟨accepted, evaluated, whole⟩ := run_of_isTrivial params trivial (arity trivial)
    rw [accepted, evaluated, whole]
    rfl
  · cases program.unwindPosition <;> rfl

/-- What a program makes of a row: nothing when the row is refused, and otherwise the rows made of its
projections. -/
theorem runRow_eq_ok (arity : row.length = program.input.arity) : runRow program params row = .ok out ↔
    program.accepts row params = .ok false ∧ out = [] ∨ program.accepts row params = .ok true ∧
      ∃ r, program.projectRow row params = .ok r ∧ spread program.unwindPosition r = .ok out := by
  rw [runRow_eq_selectRow fun _ => arity, selectRow, bind_eq_ok]
  constructor
  · rintro ⟨passes, accepted, success⟩
    cases passes with
    | false =>
      cases success
      exact .inl ⟨accepted, rfl⟩
    | true => exact .inr ⟨accepted, bind_eq_ok.1 success⟩
  · rintro (⟨refused, rfl⟩ | ⟨accepted, made⟩)
    · exact ⟨false, refused, rfl⟩
    · exact ⟨true, accepted, bind_eq_ok.2 made⟩

theorem mem_expand {r : Row} (success : expand position r = .ok out) (mem : made ∈ out) :
    ∃ items, r[position]? = some (.array items) ∧ ∃ item ∈ items, made = r.set position item := by
  unfold expand at success
  split at success
  · next items array =>
    cases success
    obtain ⟨item, inside, rfl⟩ := List.mem_map.1 mem
    exact ⟨items, array, item, inside, rfl⟩
  · cases success
    cases mem
  · cases success
    cases mem
  · cases success

theorem mem_runRow (arity : row.length = program.input.arity)
    (success : runRow program params row = .ok out) (mem : made ∈ out) :
    program.accepts row params = .ok true ∧ Made program params row made := by
  rcases (runRow_eq_ok arity).1 success with ⟨_, rfl⟩ | ⟨accepted, r, evaluated, success⟩
  · cases mem
  · refine ⟨accepted, ?_⟩
    cases found : program.unwindPosition with
    | none =>
      rw [found] at success
      cases success
      rw [List.mem_singleton.1 mem]
      exact .projected found evaluated
    | some =>
      rw [found] at success
      obtain ⟨items, array, item, inside, rfl⟩ := mem_expand success mem
      exact .unwound found evaluated array inside

end Program

end FederatedQuery.Rows
