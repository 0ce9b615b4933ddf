import FederatedQuery.Plan.Build
import FederatedQuery.Proofs.Error.Outcome
import Mathlib.Data.List.Nodup
import Mathlib.Data.List.Perm.Subperm

/-!
Names that are made free. The numbers behind a name are tried until one is free, and of as many numbers as there are
names taken one is. So the columns of an aggregate have names of their own, and so do those of a join whose left side
has.
-/
namespace FederatedQuery

variable {name : String} {taken : List String}

theorem numbered_injective {m n : Nat} (same : name ++ toString m = name ++ toString n) : m = n := by
  rw [String.append_right_inj, Nat.toString_eq_ofList_toDigits, Nat.toString_eq_ofList_toDigits,
    String.ofList_inj] at same
  calc
    m = Nat.ofDigitChars 10 (Nat.toDigits 10 m) 0 := Nat.ofDigitChars_ten_toDigits.symm
    _ = Nat.ofDigitChars 10 (Nat.toDigits 10 n) 0 := by rw [same]
    _ = n := Nat.ofDigitChars_ten_toDigits

theorem numbered_ne (name : String) (i : Nat) : name ++ toString i ≠ name := by
  rw [Ne, String.append_eq_left_iff, Nat.toString_eq_repr]
  exact Nat.repr_ne_empty

/-- A name and its numbered forms are as many as the numbers and one more, so the names taken cannot hold them all. -/
theorem exists_free (mem : name ∈ taken) : ∃ i < taken.length, name ++ toString i ∉ taken := by
  by_contra full
  have distinct : (name :: (List.range taken.length).map fun i => name ++ toString i).Nodup := by
    refine List.nodup_cons.2 ⟨fun inside => ?_, List.Nodup.map (fun _ _ => numbered_injective) List.nodup_range⟩
    obtain ⟨i, -, same⟩ := List.mem_map.1 inside
    exact numbered_ne name i same
  have within : name :: (List.range taken.length).map (fun i => name ++ toString i) ⊆ taken := by
    refine List.cons_subset.2 ⟨mem, fun candidate inside => ?_⟩
    obtain ⟨i, below, rfl⟩ := List.mem_map.1 inside
    by_contra free
    exact full ⟨i, List.mem_range.1 below, free⟩
  have long := (List.subperm_of_subset distinct within).length_le
  rw [List.length_cons, List.length_map, List.length_range] at long
  exact Nat.not_succ_le_self _ long

/-- The search ends at the first free number, which is below the count of the names taken. -/
theorem freshName_of_mem (mem : name ∈ taken) : ∃ i < taken.length, freshName name taken = name ++ toString i ∧
    name ++ toString i ∉ taken ∧ ∀ j < i, name ++ toString j ∈ taken := by
  obtain ⟨k, below, free⟩ := exists_free mem
  rw [freshName, if_pos mem, List.find?_map]
  cases found : (List.range (taken.length + 1)).find? ((fun s => decide (s ∉ taken)) ∘ fun i => name ++ toString i) with
  | none =>
    have every := List.find?_eq_none.1 found k (List.mem_range.2 (Nat.lt_succ_of_lt below))
    exact absurd (decide_eq_true free) every
  | some i =>
    obtain ⟨first, -, earlier⟩ := List.find?_range_eq_some.1 found
    have before (j : Nat) (less : j < i) : name ++ toString j ∈ taken := by simpa using earlier j less
    refine ⟨i, ?_, rfl, of_decide_eq_true first, before⟩
    exact Nat.lt_of_le_of_lt (Nat.le_of_not_lt fun less => free (before k less)) below

theorem freshName_not_mem (name : String) (taken : List String) : freshName name taken ∉ taken := by
  by_cases mem : name ∈ taken
  · obtain ⟨i, -, same, free, -⟩ := freshName_of_mem mem
    exact same ▸ free
  · rwa [freshName, if_neg mem]

namespace RowType

theorem nodup_freshFields (taken : List String) (fields : List Field) :
    ((freshFields taken fields).map Field.name).Nodup ∧ ∀ f ∈ freshFields taken fields, f.name ∉ taken := by
  induction fields generalizing taken with
  | nil => exact ⟨List.nodup_nil, nofun⟩
  | cons f rest ih =>
    obtain ⟨distinct, apart⟩ := ih (taken ++ [freshName f.name taken])
    simp only [List.mem_append, List.mem_singleton, not_or] at apart
    constructor
    · refine List.nodup_cons.2 ⟨fun mem => ?_, distinct⟩
      obtain ⟨g, inside, same⟩ := List.mem_map.1 mem
      exact (apart g inside).2 same
    · exact List.forall_mem_cons.2 ⟨freshName_not_mem _ _, fun g mem => (apart g mem).1⟩

theorem nodup_names_join (left right : RowType) (leftNullable rightNullable : Bool) :
    (left.join right leftNullable rightNullable).names.Nodup ↔ left.names.Nodup := by
  have kept : (left.fields.map fun f => { f with nullable := f.nullable || leftNullable }).map Field.name =
      left.names := List.map_map
  obtain ⟨distinct, apart⟩ := nodup_freshFields left.names
    (right.fields.map fun f => { f with nullable := f.nullable || rightNullable })
  rw [names, join, List.map_append, kept, List.nodup_append]
  refine ⟨And.left, fun own => ⟨own, distinct, fun name mem other inside same => ?_⟩⟩
  obtain ⟨f, among, rfl⟩ := List.mem_map.1 inside
  exact apart f among (same ▸ mem)

end RowType

namespace Plan

/-- An aggregate as it is built, and the copies of it with other traits and inputs. -/
inductive Grouping : Plan → Prop
  | built {input p : Plan} {keys : List Nat} {calls : List AggCall} (made : input.group keys calls = .ok p) : Grouping p
  | copied {p q : Plan} {traits : Traits} {inputs : List Plan} (grouping : Grouping p)
      (made : p.copy traits inputs = .ok q) : Grouping q

theorem rowType_copy {p q : Plan} {traits : Traits} {inputs : List Plan} (made : p.copy traits inputs = .ok q) :
    q.rowType = p.rowType := by
  have kept {p q : Plan} (made : p.withInputs? inputs = some q) : q.rowType = p.rowType := by
    unfold withInputs? at made
    split at made <;> first | (cases made <;> rfl) | (split at made <;> cases made; rfl)
  unfold copy at made
  split at made
  · cases made
  · next copied =>
    split at made <;> cases made
    exact (kept copied).trans (by cases p <;> rfl)

theorem Grouping.nodup_names {p : Plan} (grouping : p.Grouping) : p.rowType.names.Nodup := by
  induction grouping with
  | built made =>
    obtain ⟨keyFields, -, made⟩ := bind_eq_ok.1 made
    obtain ⟨callFields, -, made⟩ := bind_eq_ok.1 made
    cases made
    exact (RowType.nodup_freshFields [] _).1
  | copied _ made ih => rwa [rowType_copy made]

end Plan

/-- A name that is made free is not taken: it is the name itself, or the name with the first number that makes it free.
The columns of every aggregate have distinct names, and those of a join have when those of its left side have. -/
theorem generated_names_distinct :
    (∀ (name : String) (taken : List String), freshName name taken ∉ taken ∧
      (name ∉ taken → freshName name taken = name) ∧
      (name ∈ taken → ∃ i < taken.length, freshName name taken = name ++ toString i ∧
        name ++ toString i ∉ taken ∧ ∀ j < i, name ++ toString j ∈ taken)) ∧
    (∀ p : Plan, p.Grouping → p.rowType.names.Nodup) ∧
    ∀ (left right : RowType) (leftNullable rightNullable : Bool),
      (left.join right leftNullable rightNullable).names.Nodup ↔ left.names.Nodup :=
  ⟨fun name taken => ⟨freshName_not_mem name taken, fun free => if_neg free, freshName_of_mem⟩,
    fun _ grouping => grouping.nodup_names, RowType.nodup_names_join⟩

/-- A field grouped by twice, next to a field and a count with the names that it would get. -/
theorem generated_names_distinct_repeated :
    ∃ p, (Plan.values (Plan.logicalHead ⟨[⟨"id", .integer, false⟩, ⟨"id0", .integer, true⟩]⟩) []).group [0, 1, 0]
      [⟨.count, [], false, "id"⟩] = .ok p ∧ p.rowType.names = ["id", "id0", "id1", "id2"] ∧ p.rowType.names.Nodup := by
  have made : (Plan.values (Plan.logicalHead ⟨[⟨"id", .integer, false⟩, ⟨"id0", .integer, true⟩]⟩) []).group [0, 1, 0]
      [⟨.count, [], false, "id"⟩] = .ok _ := rfl
  exact ⟨_, made, by decide +kernel, generated_names_distinct.2.1 _ (.built made)⟩

end FederatedQuery
