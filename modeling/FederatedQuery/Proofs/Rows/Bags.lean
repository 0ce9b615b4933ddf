import FederatedQuery.Proofs.Rows.Distinct
import FederatedQuery.Proofs.Rows.Members
import FederatedQuery.Proofs.Value.Key
import Mathlib.Data.Multiset.Dedup
import Mathlib.Data.Multiset.UnionInter

/-!
Set operations as operations on multisets. On rows without floats, where rows of one key are the same row, an
operation on lists in order comes to the operation on their multisets, and union and intersection are associative.
-/
namespace FederatedQuery.Rows

open scoped Classical

/-- A set operation on two multisets of rows. With `all` it is one of multisets, otherwise one of sets. -/
noncomputable def bagOperation (op : SetOp) (all : Bool) (left right : Multiset Row) : Multiset Row :=
  match op, all with
  | .union, true => left + right
  | .union, false => (left + right).dedup
  | .intersect, true => left ∩ right
  | .intersect, false => (left ∩ right).dedup
  | .minus, true => left - right
  | .minus, false => (left.filter (· ∉ right)).dedup

theorem bagOperation_assoc {op : SetOp} (grouped : op ≠ .minus) (all : Bool) (a b c : Multiset Row) :
    bagOperation op all (bagOperation op all a b) c = bagOperation op all a (bagOperation op all b c) := by
  cases op with
  | union =>
    cases all with
    | true => exact Multiset.add_assoc a b c
    | false =>
      refine Multiset.dedup_ext.2 fun row => ?_
      simp only [bagOperation, Multiset.mem_add, Multiset.mem_dedup, or_assoc]
  | intersect =>
    cases all with
    | true => exact inf_assoc a b c
    | false =>
      refine Multiset.dedup_ext.2 fun row => ?_
      simp only [bagOperation, Multiset.mem_inter, Multiset.mem_dedup, and_assoc]
  | minus => exact absurd rfl grouped

section Keys

variable {row other : Row} {rows seen left right : List Row}

theorem sameKey_iff (first : Value.itemFloats row = []) (second : Value.itemFloats other = []) :
    row.sameKey other = true ↔ row = other := by
  rw [sameKey_eq_equal first second, Row.equal, decide_eq_true_iff]
  constructor
  · exact fun same => Value.eq_of_compareRows same first second
  · rintro rfl
    exact Value.compareRows_self row

theorem hasKey_iff (free : Floatless rows) (here : Value.itemFloats row = []) :
    hasKey rows row = true ↔ row ∈ rows := by
  rw [hasKey, List.any_eq_true]
  constructor
  · rintro ⟨other, mem, same⟩
    rwa [(sameKey_iff here (free other mem)).1 same]
  · exact fun mem => ⟨row, mem, (sameKey_iff here here).2 rfl⟩

theorem mem_distinctFrom_iff (known : Floatless seen) (free : Floatless rows) :
    row ∈ distinctFrom seen rows ↔ row ∈ rows ∧ row ∉ seen := by
  induction rows generalizing seen with
  | nil => simp [distinctFrom]
  | cons r rows ih =>
    have free := List.forall_mem_cons.1 free
    have repeated := hasKey_iff known free.1
    rw [distinctFrom]
    split
    · next found => grind
    · next fresh =>
      have grown : ∀ s ∈ seen ++ [r], Value.itemFloats s = [] := by simpa [or_imp, forall_and] using ⟨known, free.1⟩
      rw [List.mem_cons]
      grind

theorem nodup_distinctFrom (known : Floatless seen) (free : Floatless rows) :
    (distinctFrom seen rows).Nodup := by
  induction rows generalizing seen with
  | nil => exact List.nodup_nil
  | cons r rows ih =>
    have free := List.forall_mem_cons.1 free
    rw [distinctFrom]
    split
    · exact ih known free.2
    · have grown : ∀ s ∈ seen ++ [r], Value.itemFloats s = [] := by simpa [or_imp, forall_and] using ⟨known, free.1⟩
      refine List.nodup_cons.2 ⟨fun mem => ?_, ih grown free.2⟩
      exact ((mem_distinctFrom_iff grown free.2).1 mem).2 (by simp)

theorem mem_distinct_iff (free : Floatless rows) : row ∈ distinct rows ↔ row ∈ rows :=
  (mem_distinctFrom_iff (List.forall_mem_nil _) free).trans (by simp)

theorem nodup_distinct (free : Floatless rows) : (distinct rows).Nodup := nodup_distinctFrom nofun free

theorem coe_distinct (free : Floatless rows) :
    (distinct rows : Multiset Row) = (rows : Multiset Row).dedup := by
  refine (Multiset.Nodup.ext (Multiset.coe_nodup.2 (nodup_distinct free)) (Multiset.nodup_dedup _)).2 fun row => ?_
  rw [Multiset.mem_dedup, Multiset.mem_coe, Multiset.mem_coe, mem_distinct_iff free]

end Keys

section Waiting

namespace Waiting

variable {α : Type} {row other : Row} {waiting : Waiting α} {a : α} {items : List α}

/-- What waits under the key of a row. -/
def queue (row : Row) : Waiting α → List α
  | [] => []
  | (key, items) :: rest => if row.sameKey key then items else queue row rest

theorem take_of_queue_nil (empty : waiting.queue row = []) : waiting.take row = none := by
  induction waiting with
  | nil => rfl
  | cons entry rest ih =>
    obtain ⟨key, items⟩ := entry
    rw [queue] at empty
    unfold take
    split
    · next here =>
      rw [if_pos here] at empty
      rw [empty]
    · next apart =>
      rw [if_neg apart] at empty
      rw [ih empty]
      rfl

/-- What is taken under the key of a row is missing there, and nowhere else. -/
theorem take_of_queue_cons (free : Value.itemFloats row = []) (here : waiting.queue row = a :: items) :
    ∃ after, waiting.take row = some (a, after) ∧ after.queue row = items ∧
      ∀ other, Value.itemFloats other = [] → other ≠ row → after.queue other = waiting.queue other := by
  induction waiting with
  | nil => cases here
  | cons entry rest ih =>
    obtain ⟨key, waits⟩ := entry
    rw [queue] at here
    unfold take
    split at here
    · next shared =>
      cases here
      refine ⟨(key, items) :: rest, if_pos shared, if_pos shared, fun other there apart => ?_⟩
      have differs : ¬ Row.sameKey other key := by
        rw [Row.sameKey_iff_keyWords there, ← (Row.sameKey_iff_keyWords free).1 shared,
          ← Row.sameKey_iff_keyWords there]
        exact mt (sameKey_iff there free).1 apart
      rw [queue, queue, if_neg differs, if_neg differs]
    · next apart =>
      obtain ⟨after, taken, left, others⟩ := ih here
      refine ⟨(key, waits) :: after, ?_, (if_neg apart).trans left, fun other there differs => ?_⟩
      · rw [if_neg apart, taken]
        rfl
      · rw [queue, queue, others other there differs]

/-- What is put under the key of a row waits there, unless it comes to wait elsewhere: two rows may share a key with a
third without sharing one. -/
theorem queue_put (free : Value.itemFloats row = [])
    (joined : row.sameKey other → ∀ entry ∈ waiting, row.sameKey entry.1 → other.sameKey entry.1) :
    (waiting.put other a).queue row = waiting.queue row ++ if row.sameKey other then [a] else [] := by
  induction waiting with
  | nil => rfl
  | cons entry rest ih =>
    obtain ⟨key, items⟩ := entry
    have below := ih fun shared entry mem => joined shared entry (.tail _ mem)
    rw [put]
    split
    · next found =>
      have words : other.keyWords = key.keyWords := of_decide_eq_true (Bool.and_eq_true_iff.1 found).1
      have same : row.sameKey other = row.sameKey key := by
        rw [Bool.eq_iff_iff, Row.sameKey_iff_keyWords free, Row.sameKey_iff_keyWords free, words]
      simp only [queue, same]
      split <;> simp
    · next apart =>
      have fresh (here : row.sameKey key) : ¬ row.sameKey other := fun shared =>
        apart (joined shared (key, items) (.head _) here)
      simp only [queue, below]
      split
      · next here => simp [fresh here]
      · rfl

/-- Under the key of a row waits what came with that key, in order, if all rows that came with it share it. -/
theorem queue_ofPairs {pairs : List (Row × α)} (free : Value.itemFloats row = [])
    (joined : ∀ p ∈ pairs, ∀ q ∈ pairs, row.sameKey p.1 → row.sameKey q.1 → p.1.sameKey q.1) :
    (ofPairs pairs).queue row = (pairs.filter fun p => row.sameKey p.1).map Prod.snd := by
  induction pairs using List.reverseRecOn with
  | nil => rfl
  | append_singleton pairs last ih =>
    obtain ⟨other, a⟩ := last
    have before := ih fun p mem q mem' => joined p (List.mem_append_left _ mem) q (List.mem_append_left _ mem')
    rw [ofPairs_append, queue_put free, List.filter_append, List.map_append]
    · congr 1
      rw [List.filter_singleton]
      cases row.sameKey other <;> rfl
    · intro shared entry mem here
      obtain ⟨⟨b, _, _, came⟩, _⟩ := mem_ofPairs mem
      exact joined (other, a) (by simp) (entry.1, b) (List.mem_append_left _ came) shared here

end Waiting

variable {row : Row} {left right : List Row} {waiting : Waiting Row}

theorem count_eq_countP (free : Floatless left) (here : Value.itemFloats row = []) :
    Multiset.count row left = left.countP (row.sameKey ·) := by
  refine List.countP_congr fun r mem => ?_
  rw [sameKey_iff here (free r mem), decide_eq_true_iff]

theorem length_queue_waitingRows (here : Value.itemFloats row = [])
    (joined : ∀ p ∈ right, ∀ q ∈ right, row.sameKey p → row.sameKey q → p.sameKey q) :
    ((waitingRows right).queue row).length = right.countP (row.sameKey ·) := by
  rw [waitingRows, Waiting.queue_ofPairs here (by simpa using joined), List.length_map, List.countP_eq_length_filter,
    List.filter_map, List.length_map]
  rfl

theorem length_queue (free : Floatless right) (here : Value.itemFloats row = []) :
    ((waitingRows right).queue row).length = Multiset.count row right := by
  rw [count_eq_countP free here]
  refine length_queue_waitingRows here fun p mem q mem' first second => ?_
  rw [← (sameKey_iff here (free p mem)).1 first]
  exact second

theorem count_minusAll (free : Floatless left) (here : Value.itemFloats row = []) :
    Multiset.count row (minusAll left waiting) = Multiset.count row left - (waiting.queue row).length := by
  induction left generalizing waiting with
  | nil => exact (Nat.zero_sub _).symm
  | cons r left ih =>
    obtain ⟨first, later⟩ := List.forall_mem_cons.1 free
    rw [minusAll]
    cases waits : waiting.queue r with
    | nil =>
      rw [Waiting.take_of_queue_nil waits, ← Multiset.cons_coe, ← Multiset.cons_coe, Multiset.count_cons,
        Multiset.count_cons, ih later]
      split
      · next same => rw [same, waits, List.length_nil, Nat.sub_zero, Nat.sub_zero]
      · rfl
    | cons =>
      obtain ⟨after, taken, left, others⟩ := Waiting.take_of_queue_cons first waits
      simp only [taken, ← Multiset.cons_coe, Multiset.count_cons, ih later]
      split
      · next same => rw [same, waits, left, List.length_cons, Nat.add_sub_add_right]
      · next apart => rw [others row here apart, Nat.add_zero]

theorem coe_minusAll (first : Floatless left) (second : Floatless right) :
    (minusAll left (waitingRows right) : Multiset Row) = (left : Multiset Row) - (right : Multiset Row) := by
  refine Multiset.ext.2 fun row => ?_
  rw [Multiset.count_sub]
  by_cases mem : row ∈ left
  · rw [count_minusAll first (first row mem), length_queue second (first row mem)]
  · have absent : Multiset.count row (left : Multiset Row) = 0 := Multiset.count_eq_zero.2 mem
    rw [absent, Nat.zero_sub]
    exact Multiset.count_eq_zero.2 fun kept => mem ((minusAll_sublist ..).mem kept)

theorem perm_intersectAll_minusAll (left : List Row) (waiting : Waiting Row) :
    (intersectAll left waiting ++ minusAll left waiting).Perm left := by
  induction left generalizing waiting with
  | nil => exact .nil
  | cons r left ih =>
    rw [intersectAll, minusAll]
    cases waiting.take r with
    | none => exact List.perm_middle.trans ((ih _).cons r)
    | some => exact (ih _).cons r

theorem coe_intersectAll (first : Floatless left) (second : Floatless right) :
    (intersectAll left (waitingRows right) : Multiset Row) = (left : Multiset Row) ∩ (right : Multiset Row) := by
  have parts := Multiset.coe_eq_coe.2 (perm_intersectAll_minusAll left (waitingRows right))
  rw [← Multiset.coe_add, coe_minusAll first second] at parts
  refine Multiset.ext.2 fun row => ?_
  have here := congrArg (Multiset.count row) parts
  rw [Multiset.count_add, Multiset.count_sub] at here
  rw [Multiset.count_inter]
  omega

end Waiting

/-- On rows without floats, a set operation on lists is the operation on their multisets. -/
theorem coe_setOperation (op : SetOp) (all : Bool) {left right : List Row}
    (first : Floatless left) (second : Floatless right) :
    (setOperation op all left right : Multiset Row) = bagOperation op all left right := by
  have both : Floatless (left ++ right) := List.forall_mem_append.2 ⟨first, second⟩
  have known (row : Row) (mem : row ∈ left) : hasKey (distinct right) row = true ↔ row ∈ right := by
    have among : Floatless (distinct right) := fun r mem => second r ((distinctFrom_sublist ..).mem mem)
    rw [hasKey_iff among (first row mem), mem_distinct_iff second]
  cases op with
  | union =>
    cases all with
    | true => exact (Multiset.coe_add left right).symm
    | false => rw [setOperation, coe_distinct both, bagOperation, Multiset.coe_add]
  | intersect =>
    cases all with
    | true => exact coe_intersectAll first second
    | false =>
      rw [setOperation, coe_distinct fun r mem => first r (List.mem_of_mem_filter mem), bagOperation]
      refine Multiset.dedup_ext.2 fun row => ?_
      rw [Multiset.mem_coe, List.mem_filter, Multiset.mem_inter]
      exact and_congr_right (known row)
  | minus =>
    cases all with
    | true => exact coe_minusAll first second
    | false =>
      rw [setOperation, coe_distinct fun r mem => first r (List.mem_of_mem_filter mem), bagOperation]
      refine Multiset.dedup_ext.2 fun row => ?_
      rw [Multiset.mem_coe, List.mem_filter, Multiset.mem_filter]
      refine and_congr_right fun mem => ?_
      rw [Multiset.mem_coe, ← known row mem, Bool.not_eq_true', Bool.not_eq_true]

theorem coe_foldl_setOperation (op : SetOp) (all : Bool) {rows : List Row} {lists : List (List Row)}
    (here : Floatless rows) (free : ∀ list ∈ lists, Floatless list) :
    (∀ r ∈ lists.foldl (setOperation op all) rows, Value.itemFloats r = []) ∧
      ((lists.foldl (setOperation op all) rows : List Row) : Multiset Row) =
        (lists.map Multiset.ofList).foldl (bagOperation op all) (rows : Multiset Row) := by
  induction lists generalizing rows with
  | nil => exact ⟨here, rfl⟩
  | cons list lists ih =>
    obtain ⟨first, later⟩ := List.forall_mem_cons.1 free
    have made : Floatless (setOperation op all rows list) := fun r mem =>
      (mem_of_setOperation mem).elim (here r) fun right => first r right.2
    obtain ⟨kept, same⟩ := ih made later
    refine ⟨kept, ?_⟩
    rw [List.foldl_cons, List.map_cons, List.foldl_cons, ← coe_setOperation op all here first]
    exact same

end FederatedQuery.Rows
