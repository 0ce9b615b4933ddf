import FederatedQuery.Proofs.Rows.Members
import FederatedQuery.Proofs.Value.Total

/-!
What a sort does with rows whose keys have no floats. There the order of a collation is one order, and each row goes
behind the rows that it does not precede: rows that tie stay as they come, and the nulls of the leading key are all on
the side that the key asks for.
-/
namespace FederatedQuery

namespace Coherent

variable {ab bc ac : Ordering}

theorem swap (coherent : Coherent ab bc ac) : Coherent ab.swap bc.swap ac.swap := by
  cases ab <;> cases bc <;> cases ac <;> simp_all [Coherent]

theorem not_lt (coherent : Coherent ab bc ac) (first : ab ≠ .lt) (second : bc ≠ .lt) : ac ≠ .lt := by
  cases ab <;> cases bc <;> simp_all [Coherent]

end Coherent

namespace Rows

section Order

variable {c : Collation} {a b r : Row}

/-- A row has a value without floats for every key. -/
def Comparable (c : Collation) (row : Row) : Prop := ∀ key ∈ c, ∃ v, row[key.field]? = some v ∧ v.floats = []

theorem compareByKey_swap (key : SortKey) (x y : Value) : (compareByKey key x y).swap = compareByKey key y x := by
  unfold compareByKey
  cases x.isNull <;> cases y.isNull <;> cases key.nullsFirst <;> cases key.isDescending <;> simp [Value.compare_swap]

theorem coherent_compareByKey (key : SortKey) {x y z : Value} (first : x.floats = []) (second : y.floats = [])
    (third : z.floats = []) : Coherent (compareByKey key x y) (compareByKey key y z) (compareByKey key x z) := by
  have admits {v : Value} (free : v.floats = []) : v.Admits fun _ => False := by simp [Value.Admits, free]
  have values := Value.coherent_compare ⟨And.left, id⟩ x (admits first) y z (admits second) (admits third)
  unfold compareByKey
  cases x.isNull <;> cases y.isNull <;> cases z.isNull
  case false.false.false =>
    cases key.isDescending with
    | true => exact values.swap
    | false => exact values
  all_goals cases key.nullsFirst <;> simp only [Coherent, Bool.false_eq_true, if_true, if_false, reduceCtorEq, imp_self,
    implies_true, IsEmpty.forall_iff, true_and, and_self]
  all_goals exact Eq.symm

theorem compareBy_swap (c : Collation) (a b : Row) : (compareBy c a b).swap = compareBy c b a := by
  induction c with
  | nil => rfl
  | cons key rest ih =>
    rw [compareBy, compareBy, Ordering.swap_then, ih]
    cases a[key.field]? <;> cases b[key.field]? <;> simp [compareByKey_swap]

theorem coherent_compareBy (first : Comparable c a) (second : Comparable c b) (third : Comparable c r) :
    Coherent (compareBy c a b) (compareBy c b r) (compareBy c a r) := by
  induction c with
  | nil => exact ⟨fun _ => rfl, fun _ => rfl, fun _ => rfl⟩
  | cons key rest ih =>
    obtain ⟨⟨x, atX, freeX⟩, first⟩ := List.forall_mem_cons.1 first
    obtain ⟨⟨y, atY, freeY⟩, second⟩ := List.forall_mem_cons.1 second
    obtain ⟨⟨z, atZ, freeZ⟩, third⟩ := List.forall_mem_cons.1 third
    simp only [compareBy, atX, atY, atZ]
    exact (coherent_compareByKey key freeX freeY freeZ).andThen (ih first second third)

end Order

section Sorting

variable {c : Collation} {row : Row} {rows : List Row}

theorem sorted_concat (c : Collation) (rows : List Row) (row : Row) :
    sorted c (rows ++ [row]) = (insertBack c row (sorted c rows).reverse).reverse := by
  rw [sorted, List.foldl_append, sorted, List.reverse_reverse]
  rfl

/-- No row follows one that it strictly precedes; the rows are given backwards. -/
theorem pairwise_insertBack (suits : Comparable c row) (each : ∀ r ∈ rows, Comparable c r)
    (ordered : rows.Pairwise fun later earlier => compareBy c later earlier ≠ .lt) :
    (insertBack c row rows).Pairwise fun later earlier => compareBy c later earlier ≠ .lt := by
  induction rows with
  | nil => exact List.pairwise_singleton _ _
  | cons last before ih =>
    obtain ⟨here, below⟩ := List.pairwise_cons.1 ordered
    obtain ⟨suits', others⟩ := List.forall_mem_cons.1 each
    rw [insertBack]
    split
    · next precedes =>
      refine List.pairwise_cons.2 ⟨fun r mem => ?_, ih others below⟩
      rcases List.mem_cons.1 ((perm_insertBack c row before).mem_iff.1 mem) with rfl | mem
      · rw [← compareBy_swap, precedes]
        decide
      · exact here r mem
    · next follows =>
      refine List.pairwise_cons.2 ⟨List.forall_mem_cons.2 ⟨follows, fun r mem => ?_⟩, ordered⟩
      exact (coherent_compareBy suits suits' (others r mem)).not_lt follows (here r mem)

theorem pairwise_sorted (each : ∀ r ∈ rows, Comparable c r) :
    (sorted c rows).Pairwise fun a b => compareBy c b a ≠ .lt := by
  induction rows using List.reverseRecOn with
  | nil => exact .nil
  | append_singleton rows last ih =>
    obtain ⟨before, here⟩ := List.forall_mem_append.1 each
    rw [sorted_concat, List.pairwise_reverse]
    refine pairwise_insertBack (here last (.head _)) (fun r mem => before r ?_) (List.pairwise_reverse.2 (ih before))
    exact perm_sorted.mem_iff.1 (List.mem_reverse.1 mem)

/-- A row that is put in its place passes no row that it ties with. -/
theorem filter_insertBack {a : Row} (tied : Comparable c a) (suits : Comparable c row)
    (each : ∀ r ∈ rows, Comparable c r) :
    (insertBack c row rows).filter (fun r => compareBy c a r = .eq) =
      (row :: rows).filter fun r => compareBy c a r = .eq := by
  induction rows with
  | nil => rfl
  | cons last before ih =>
    obtain ⟨suits', others⟩ := List.forall_mem_cons.1 each
    rw [insertBack]
    split
    · next precedes =>
      -- What ties with the row precedes the last one, so at most one of the two is kept.
      have apart := (coherent_compareBy tied suits suits').1
      rw [List.filter_cons, ih others]
      by_cases same : compareBy c a row = .eq
      · simp [same, apart same, precedes]
      · simp [same, List.filter_cons]
    · rfl

theorem filter_sorted {a : Row} (tied : Comparable c a) (each : ∀ r ∈ rows, Comparable c r) :
    (sorted c rows).filter (fun r => compareBy c a r = .eq) = rows.filter fun r => compareBy c a r = .eq := by
  induction rows using List.reverseRecOn with
  | nil => rfl
  | append_singleton rows last ih =>
    obtain ⟨before, here⟩ := List.forall_mem_append.1 each
    have others : ∀ r ∈ (sorted c rows).reverse, Comparable c r := fun r mem =>
      before r (perm_sorted.mem_iff.1 (List.mem_reverse.1 mem))
    rw [sorted_concat, List.filter_reverse, filter_insertBack tied (here last (.head _)) others,
      ← List.filter_reverse, List.reverse_cons, List.reverse_reverse, List.filter_append, ih before,
      List.filter_append]

end Sorting

/-- Whether a row has a null for a key. -/
def nullAt (key : SortKey) (row : Row) : Bool := row[key.field]?.any Value.isNull

/-- In rows that are in order, the nulls of the leading key stand where the key wants them. -/
theorem nulls_of_pairwise {key : SortKey} {rest : Collation} {rows : List Row}
    (each : ∀ r ∈ rows, Comparable (key :: rest) r)
    (ordered : rows.Pairwise fun a b => compareBy (key :: rest) b a ≠ .lt) :
    rows.Pairwise fun a b => nullAt key b = key.nullsFirst → nullAt key a = key.nullsFirst := by
  refine ordered.imp_of_mem fun {a b} left right behind inside => ?_
  obtain ⟨x, atX, -⟩ := each a left key (.head _)
  obtain ⟨y, atY, -⟩ := each b right key (.head _)
  simp only [nullAt, atX, atY, Option.any_some, compareBy, compareByKey] at behind inside ⊢
  cases first : key.nullsFirst <;> cases left : x.isNull <;> cases right : y.isNull <;> simp_all [Ordering.then]

/-- A sort of rows of one width, with every key inside it and no floats under the keys, succeeds. The rows come in the
order of the collation, rows that tie in the order of the input, and the nulls of the leading key first exactly when
its effective place for them is there. An offset and a limit then cut out a part of that. -/
theorem sort_stable {c : Collation} {rows : List Row} {width : Nat} (even : ∀ r ∈ rows, r.length = width)
    (inside : ∀ key ∈ c, key.field < width)
    (whole : ∀ r ∈ rows, ∀ key ∈ c, ∀ v ∈ r[key.field]?, v.floats = []) :
    ∃ all, sort c none none rows = .ok all ∧ all.Perm rows ∧
      (all.Pairwise fun a b => compareBy c b a ≠ .lt) ∧
      (∀ a ∈ rows, all.filter (fun r => compareBy c a r = .eq) = rows.filter fun r => compareBy c a r = .eq) ∧
      (∀ key ∈ c.head?, all.Pairwise fun a b => nullAt key b = key.nullsFirst → nullAt key a = key.nullsFirst) ∧
      ∀ offset fetch, sort c offset fetch rows = .ok ((all.drop (offset.getD 0)).take (fetch.getD all.length)) := by
  have each : ∀ r ∈ rows, Comparable c r := by
    intro r mem key listed
    have found := List.getElem?_eq_getElem (even r mem ▸ inside key listed)
    exact ⟨_, found, whole r mem key listed _ found⟩
  have bounded : c.find? (fun key => (rows.head?.map List.length).any (· ≤ key.field)) = none := by
    refine List.find?_eq_none.2 fun key listed => ?_
    cases rows with
    | nil => simp
    | cons r rest => simp [even r List.mem_cons_self, inside key listed]
  refine ⟨sorted c rows, ?_, perm_sorted, pairwise_sorted each, fun a mem => filter_sorted (each a mem) each, ?_, ?_⟩
  · rw [sort, bounded]
    rfl
  · intro key first
    cases c with
    | nil => cases first
    | cons leading rest =>
      cases first
      exact nulls_of_pairwise (fun r mem => each r (perm_sorted.mem_iff.1 mem)) (pairwise_sorted each)
  · intro offset fetch
    rw [sort, bounded]
    cases fetch with
    | some n => rfl
    | none => exact congrArg Except.ok (List.take_of_length_le (by simp)).symm

/-- Two keys with a tie and nulls, of which the leading key asks for the descending order with nulls last. -/
theorem sort_stable_scores :
    let c : Collation := [⟨0, .descending, .last⟩, ⟨1, .ascending, .unspecified⟩]
    let rows : List Row := [[.null, .int 1, .bool true], [.int 2, .null, .bool true], [.int 2, .int 7, .bool false],
      [.int 5, .int 7, .null], [.int 2, .int 7, .bool true]]
    (∀ r ∈ rows, r.length = 3) ∧ ∃ all, sort c none none rows = .ok all ∧ all.Perm rows ∧
      sort c (some 1) (some 2) rows = .ok ((all.drop 1).take 2) := by
  intro c rows
  have even : ∀ r ∈ rows, r.length = 3 := by simp [rows]
  obtain ⟨all, sorts, perm, -, -, -, limits⟩ := sort_stable even (by decide : ∀ key ∈ c, key.field < 3)
    (by simp [rows, c, Value.floats])
  exact ⟨even, all, sorts, perm, limits (some 1) (some 2)⟩

end Rows

end FederatedQuery
