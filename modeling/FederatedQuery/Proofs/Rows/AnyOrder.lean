import FederatedQuery.Proofs.Rows.Grouped
import Mathlib.Algebra.BigOperators.Group.List.Basic
import Mathlib.Algebra.Order.Ring.Int

/-!
Aggregation does not depend on the order of the rows. Without floats, a sum is the sum of the integers that it is given,
and the least and the greatest value are the only ones of their kind; so the value of a call is a matter of which
arguments come, and how often.
-/
namespace FederatedQuery

namespace Value

/-- Without floats, one order is behind all comparisons. -/
theorem coherent_of_free {a b c : Value} (first : a.floats = []) (second : b.floats = []) (third : c.floats = []) :
    Coherent (a.compare b) (b.compare c) (a.compare c) := by
  have orderly : Double.Orderly fun _ => False := ⟨And.left, id⟩
  have admits {v : Value} (free : v.floats = []) : v.Admits fun _ => False := by
    intro x mem
    rw [free] at mem
    exact List.not_mem_nil mem
  exact coherent_compare orderly a (admits first) b c (admits second) (admits third)

end Value

namespace Rows

section Values

variable {wanted : Ordering} {values values' : List Value}

theorem compare_ne_trans {a b c : Value} (strict : wanted ≠ .eq) (free : a.floats = [] ∧ b.floats = [] ∧ c.floats = [])
    (first : a.compare b ≠ wanted) (second : b.compare c ≠ wanted) : a.compare c ≠ wanted := by
  have coherent := Value.coherent_of_free free.1 free.2.1 free.2.2
  cases ab : a.compare b <;> cases bc : b.compare c <;> cases wanted <;> simp_all [Coherent]

/-- The value that is held at the end is one of the values, and none is beyond it. -/
theorem foldl_extreme (strict : wanted ≠ .eq) (best : Value) (free : ∀ v ∈ best :: values, v.floats = []) :
    ∃ last ∈ best :: values, values.foldl (fun best v => if v.compare best = wanted then v else best) best = last ∧
      ∀ v ∈ best :: values, v.compare last ≠ wanted := by
  have itself (v : Value) : v.compare v ≠ wanted := Value.compare_self v ▸ strict.symm
  induction values generalizing best with
  | nil => exact ⟨best, List.mem_singleton_self _, rfl, List.forall_mem_singleton.2 (itself best)⟩
  | cons v values ih =>
    -- The next value held is one of the two, and neither is beyond it.
    obtain ⟨next, held, among, atBest, atHere⟩ : ∃ next, (if v.compare best = wanted then v else best) = next ∧
        (next = best ∨ next = v) ∧ best.compare next ≠ wanted ∧ v.compare next ≠ wanted := by
      by_cases beyond : v.compare best = wanted
      · refine ⟨v, if_pos beyond, .inr rfl, ?_, itself v⟩
        rw [← Value.compare_swap]
        cases wanted <;> simp_all
      · exact ⟨best, if_neg beyond, .inl rfl, itself best, beyond⟩
    obtain ⟨bestFree, free⟩ := List.forall_mem_cons.1 free
    obtain ⟨hereFree, laterFree⟩ := List.forall_mem_cons.1 free
    have nextFree : next.floats = [] := by rcases among with rfl | rfl <;> assumption
    have others : ∀ u ∈ next :: values, u.floats = [] := List.forall_mem_cons.2 ⟨nextFree, laterFree⟩
    obtain ⟨last, mem, folded, least⟩ := ih next others
    obtain ⟨atNext, atLater⟩ := List.forall_mem_cons.1 least
    rw [List.foldl_cons, held]
    refine ⟨last, ?_, folded, List.forall_mem_cons.2 ⟨?_, List.forall_mem_cons.2 ⟨?_, atLater⟩⟩⟩
    · rcases List.mem_cons.1 mem with rfl | mem
      · rcases among with rfl | rfl <;> simp
      · simp [mem]
    · exact compare_ne_trans strict ⟨bestFree, nextFree, others last mem⟩ atBest atNext
    · exact compare_ne_trans strict ⟨hereFree, nextFree, others last mem⟩ atHere atNext

theorem extremeOf_perm (strict : wanted ≠ .eq) (free : ∀ v ∈ values, v.floats = []) (perm : values.Perm values') :
    extremeOf wanted values = extremeOf wanted values' := by
  cases values with
  | nil => rw [perm.nil_eq]
  | cons v values =>
    cases values' with
    | nil => exact absurd perm.length_eq (Nat.succ_ne_zero _)
    | cons v' values' =>
      have free' : ∀ u ∈ v' :: values', u.floats = [] := fun u mem => free u (perm.mem_iff.2 mem)
      obtain ⟨last, mem, folded, least⟩ := foldl_extreme strict v free
      obtain ⟨last', mem', folded', least'⟩ := foldl_extreme strict v' free'
      have first : last.compare last' ≠ wanted := least' last (perm.mem_iff.1 mem)
      have second : last'.compare last ≠ wanted := least last' (perm.mem_iff.2 mem')
      rw [extremeOf, extremeOf, folded, folded']
      refine Value.eq_of_compare ?_ (free last mem) (free' last' mem')
      rw [← Value.compare_swap] at second
      cases order : last.compare last' <;> cases wanted <;> simp_all

/-- The integer that a value stands for in a sum. -/
def summand : Value → Int
  | .int i => i.toInt
  | _ => 0

theorem foldlM_addValues_eq_ok {total x : Value} (free : ∀ v ∈ total :: values, v.floats = [])
    (summed : values.foldlM addValues total = .ok x) :
    values = [] ∧ x = total ∨ ∃ k : Int64, x = .int k ∧ k.toInt = ((total :: values).map summand).sum := by
  induction values generalizing total with
  | nil => exact .inl ⟨rfl, (Except.ok.inj summed).symm⟩
  | cons _ _ ih =>
    obtain ⟨totalFree, free⟩ := List.forall_mem_cons.1 free
    obtain ⟨hereFree, laterFree⟩ := List.forall_mem_cons.1 free
    obtain ⟨_, added, summed⟩ := bind_eq_ok.1 summed
    obtain ⟨i, j, k, rfl, rfl, rfl, exact⟩ := addValues_integers totalFree hereFree added
    right
    rcases ih (List.forall_mem_cons.2 ⟨rfl, laterFree⟩) summed with ⟨rfl, rfl⟩ | ⟨last, rfl, same⟩
    · exact ⟨k, rfl, by simpa [summand] using toInt_of_int64? exact⟩
    · refine ⟨last, rfl, ?_⟩
      simp only [List.map_cons, List.sum_cons, summand, toInt_of_int64? exact] at same ⊢
      omega

theorem sumOf_perm {x x' : Value} (free : ∀ v ∈ values, v.floats = []) (perm : values.Perm values')
    (first : sumOf values = .ok x) (second : sumOf values' = .ok x') : x = x' := by
  by_cases few : values.length ≤ 1
  · have same : values = values' := by
      rcases values with _ | ⟨v, _ | ⟨_, _⟩⟩
      · exact perm.nil_eq
      · exact List.singleton_perm.1 perm
      · simp at few
    rw [← same, first] at second
    exact Except.ok.inj second
  · have integer {values : List Value} {x : Value} (several : ¬values.length ≤ 1) (free : ∀ v ∈ values, v.floats = [])
        (summed : sumOf values = .ok x) : ∃ k : Int64, x = .int k ∧ k.toInt = (values.map summand).sum := by
      cases values with
      | nil => exact absurd (Nat.zero_le 1) several
      | cons =>
        refine (foldlM_addValues_eq_ok free summed).resolve_left ?_
        rintro ⟨rfl, _⟩
        exact several (Nat.le_refl 1)
    obtain ⟨k, rfl, sum⟩ := integer few free first
    obtain ⟨k', rfl, sum'⟩ := integer (perm.length_eq ▸ few) (fun v mem => free v (perm.mem_iff.2 mem)) second
    rw [Int64.toInt_inj.1 (sum.trans ((perm.map summand).sum_eq.trans sum'.symm))]

end Values

section Groups

variable {group : List Nat} {calls : List AggCall} {call : AggCall} {rows rows' members members' : List Row}

theorem floats_of_mem {row : Row} {v : Value} (free : Value.itemFloats row = []) (mem : v ∈ row) : v.floats = [] :=
  List.eq_nil_iff_forall_not_mem.2 fun x inside => by
    have found : x ∈ Value.itemFloats row := Value.mem_itemFloats.2 ⟨v, mem, inside⟩
    rw [free] at found
    exact List.not_mem_nil found

theorem free_fieldsAt {row : Row} (free : Value.itemFloats row = []) (places : List Nat) :
    Value.itemFloats (fieldsAt places row) = [] := by
  refine List.eq_nil_iff_forall_not_mem.2 fun x mem => ?_
  obtain ⟨v, inside, mem⟩ := Value.mem_itemFloats.1 mem
  obtain ⟨i, _, rfl⟩ := List.mem_map.1 inside
  rw [List.getD_eq_getElem?_getD] at mem
  cases found : row[i]? with
  | none => rw [found] at mem; cases mem
  | some =>
    rw [found, Option.getD_some, floats_of_mem free (List.mem_of_getElem? found)] at mem
    exact List.not_mem_nil mem

theorem eraseDupsBy_perm (free : Floatless rows) (perm : rows.Perm rows') :
    (rows.eraseDupsBy Row.equal).Perm (rows'.eraseDupsBy Row.equal) := by
  have free' : Floatless rows' := fun r mem => free r (perm.mem_iff.2 mem)
  rw [← distinct_eq_eraseDupsBy free, ← distinct_eq_eraseDupsBy free']
  refine (List.perm_ext_iff_of_nodup (nodup_distinct free) (nodup_distinct free')).2 fun r => ?_
  rw [mem_distinct_iff free, mem_distinct_iff free', perm.mem_iff]

theorem keysOf_perm (group : List Nat) (free : Floatless rows) (perm : rows.Perm rows') :
    (keysOf group rows).Perm (keysOf group rows') := by
  unfold keysOf
  split
  · exact .refl _
  · exact eraseDupsBy_perm (List.forall_mem_map.2 fun row mem => free_fieldsAt (free row mem) group) (perm.map _)

theorem free_presentArguments (call : AggCall) (free : Floatless members) :
    Floatless (presentArguments call members) := by
  intro args mem
  obtain ⟨row, inside, rfl⟩ := List.mem_map.1 (List.mem_of_mem_filter mem)
  exact free_fieldsAt (free row inside) call.args

theorem free_argumentsOf (free : Floatless members) : Floatless (argumentsOf call members) := by
  have present := free_presentArguments call free
  unfold argumentsOf
  split
  · rw [← distinct_eq_eraseDupsBy present]
    exact fun args mem => present args ((distinctFrom_sublist ..).mem mem)
  · exact present

theorem argumentsOf_perm (call : AggCall) (free : Floatless members)
    (perm : members.Perm members') : (argumentsOf call members).Perm (argumentsOf call members') := by
  have present : (presentArguments call members).Perm (presentArguments call members') := (perm.map _).filter _
  unfold argumentsOf
  split
  · exact eraseDupsBy_perm (free_presentArguments call free) present
  · exact present

/-- The value of a function other than a mean does not depend on the order of its arguments. -/
theorem valueOf_perm {f : AggFunction} (whole : f ≠ .avg) {args args' : List Row} {x x' : Value}
    (free : Floatless args) (perm : args.Perm args') (first : valueOf f args = .ok x)
    (second : valueOf f args' = .ok x') : x = x' := by
  have values : (firsts args).Perm (firsts args') := perm.filterMap List.head?
  have valuesFree : ∀ v ∈ firsts args, v.floats = [] := by
    intro v mem
    obtain ⟨arg, inside, head⟩ := List.mem_filterMap.1 mem
    exact floats_of_mem (free arg inside) (List.mem_of_head? head)
  cases f with
  | count =>
    rw [valueOf, perm.length_eq] at first
    exact Except.ok.inj (first.symm.trans second)
  | sum => exact sumOf_perm valuesFree values first second
  | min | max =>
    rw [valueOf, extremeOf_perm Ordering.noConfusion valuesFree values] at first
    exact Except.ok.inj (first.symm.trans second)
  | avg => exact absurd rfl whole

theorem inside_of_callState {s : CallState} (folded : callState call members = .ok s) :
    ∀ row ∈ members, ∀ i ∈ call.args, i < row.length := by
  unfold callState at folded
  generalize CallState.start call = start at folded
  induction members generalizing start with
  | nil => exact nofun
  | cons _ _ ih =>
    obtain ⟨next, added, folded⟩ := bind_eq_ok.1 folded
    obtain ⟨args, read, _⟩ := bind_eq_ok.1 added
    refine List.forall_mem_cons.2 ⟨fun i mem => ?_, ih next folded⟩
    obtain ⟨v, _, found⟩ := exists_of_forall₂_right (mapM_eq_ok.1 read).flip mem
    exact (List.getElem?_eq_some_iff.1 (argument_eq_ok.1 found)).1

theorem groupRow_perm {key out out' : Row} (whole : ∀ call ∈ calls, call.function ≠ .avg)
    (free : Floatless members) (perm : members.Perm members')
    (first : groupRow calls (key, members) = .ok out) (second : groupRow calls (key, members') = .ok out') :
    out = out' := by
  obtain ⟨states, folded, first⟩ := bind_eq_ok.1 first
  obtain ⟨states', folded', second⟩ := bind_eq_ok.1 second
  cases first
  cases second
  have free' : Floatless members' := fun row mem => free row (perm.mem_iff.2 mem)
  have value {members : List Row} {call : AggCall} {s : CallState} (free : Floatless members)
      (folded : callState call members = .ok s) :
      valueOf call.function (argumentsOf call members) = .ok s.acc.result := by
    rw [← result_callState (inside_of_callState folded) fun _ row mem => free_fieldsAt (free row mem) call.args, folded]
    rfl
  have same : List.Forall₂ (fun (s s' : CallState) => s.acc.result = s'.acc.result) states states' :=
    forall₂_through (mapM_eq_ok.1 folded) (mapM_eq_ok.1 folded') fun call mem s s' here there =>
      valueOf_perm (whole call mem) (free_argumentsOf free) (argumentsOf_perm call free perm) (value free here)
        (value free' there)
  have results := List.forall₂_map_left_iff.2 (List.forall₂_map_right_iff.2 same)
  rw [List.forall₂_eq_eq_eq] at results
  rw [results]

theorem mapM_groupRow {out : List Row} (free : Floatless rows)
    (success : aggregate group calls rows = .ok out) :
    (keysOf group rows).mapM (fun key => groupRow calls (key, membersOf group rows key)) = .ok out := by
  obtain ⟨groups, shared, made⟩ := aggregate_eq_ok success
  have inside : ∀ row ∈ rows, ∀ i ∈ group, i < row.length := by
    intro row mem i asked
    obtain ⟨keys, found, _⟩ := bind_eq_ok.1 shared
    obtain ⟨key, _, keyed⟩ := exists_of_forall₂_right (mapM_eq_ok.1 found).flip mem
    obtain ⟨v, _, located⟩ := exists_of_forall₂_right (mapM_eq_ok.1 keyed).flip asked
    rw [groupKeyOf] at located
    split at located
    · next found => exact (List.getElem?_eq_some_iff.1 found).1
    · cases located
  rw [partition_eq inside fun row mem => free_fieldsAt (free row mem) group] at shared
  cases shared
  exact mapM_eq_ok.2 (List.forall₂_map_left_iff.1 made)

end Groups

/-- Counts, sums, least and greatest values do not depend on the order of the rows: where an aggregation of rows without
floats succeeds before and after the rows are rearranged, it gives the same rows, rearranged. -/
theorem aggregate_perm (group : List Nat) (calls : List AggCall) (rows rows' out out' : List Row)
    (perm : rows.Perm rows') (free : ∀ row ∈ rows, Value.itemFloats row = [])
    (whole : ∀ call ∈ calls, call.function ≠ .avg) (first : aggregate group calls rows = .ok out)
    (second : aggregate group calls rows' = .ok out') : out.Perm out' := by
  have free' : ∀ row ∈ rows', Value.itemFloats row = [] := fun row mem => free row (perm.mem_iff.2 mem)
  obtain ⟨given, each, rfl⟩ := exists_map_of_mapM (mapM_groupRow free first)
  obtain ⟨given', each', rfl⟩ := exists_map_of_mapM (mapM_groupRow free' second)
  have keys := keysOf_perm group free perm
  have same : (keysOf group rows').map given = (keysOf group rows').map given' :=
    List.map_congr_left fun key mem => groupRow_perm whole (fun row inside => free row (List.mem_of_mem_filter inside))
      (perm.filter _) (each key (keys.mem_iff.2 mem)) (each' key mem)
  exact same ▸ keys.map given

/-- Rows in two orders: the groups change places, and the calls on them give the same. -/
theorem aggregate_perm_departments :
    let rows : List Row := [[.string "b", .int 10], [.string "a", .int 5], [.string "b", .null], [.string "b", .int 10]]
    let calls : List AggCall := [⟨.count, [0, 1], true, "c"⟩, ⟨.sum, [1], false, "s"⟩, ⟨.min, [1], true, "m"⟩]
    let out : List Row := [[.string "b", .int 1, .int 20, .int 10], [.string "a", .int 1, .int 5, .int 5]]
    rows.Perm rows.reverse ∧ aggregate [0] calls rows = .ok out ∧ ∃ out', aggregate [0] calls rows.reverse = .ok out' ∧
      out.Perm out' := by
  intro rows calls out
  have perm : rows.Perm rows.reverse := rows.reverse_perm.symm
  exact ⟨perm, rfl, _, rfl, aggregate_perm [0] calls rows _ out _ perm (by decide) (by decide) rfl rfl⟩

end Rows

end FederatedQuery
