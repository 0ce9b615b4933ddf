import FederatedQuery.Proofs.Error.Outcome
import FederatedQuery.Rows.Join
import Mathlib.Data.List.Perm.Basic

/-!
Joins of rows by a condition that can be evaluated on every pair. What the nested loops give is the join as a
relation, in order: pairs that match, rows of a preserved side that match nothing, and for semi and anti joins the
two parts of the left side.
-/
namespace FederatedQuery.Rows

section Relation

variable (on : Row → Row → Bool) (left right : List Row)

/-- The pairs of rows that match, in the order of the left rows and then of the right ones. -/
def matchedPairs : List Row := left.flatMap fun l => (right.filter (on l)).map (l ++ ·)

/-- The matches of every left row, or the row itself with nulls where it has none. -/
def preservedPairs (rightArity : Nat) : List Row := left.flatMap fun l =>
  if right.any (on l) then (right.filter (on l)).map (l ++ ·) else [l ++ nulls rightArity]

/-- The right rows that match no left row, behind nulls. -/
def orphanRows (leftArity : Nat) : List Row := (right.filter fun r => !left.any (on · r)).map (nulls leftArity ++ ·)

def relationalJoin (leftArity rightArity : Nat) : JoinKind → List Row
  | .inner => matchedPairs on left right
  | .left => preservedPairs on left right rightArity
  | .right => matchedPairs on left right ++ orphanRows on left right leftArity
  | .full => preservedPairs on left right rightArity ++ orphanRows on left right leftArity
  | .semi => left.filter fun l => right.any (on l)
  | .anti => left.filter fun l => !right.any (on l)

end Relation

section Marks

variable {on : Row → Row → Bool}

theorem marked_map (rows : List Row) (mark : Row → Bool) : marked rows (rows.map mark) = rows.filter mark := by
  induction rows with
  | nil => rfl
  | cons _ _ ih =>
    rw [marked, List.map_cons, List.zip_cons_cons, List.filter_cons, List.filter_cons]
    split
    · rw [List.map_cons]
      exact congrArg _ ih
    · exact ih

theorem joinedRows_map (pad : Bool) (rightArity : Nat) (right : List Row) (l : Row) :
    joinedRows pad rightArity right l (right.map (on l)) =
      if !right.any (on l) && pad then [l ++ nulls rightArity] else (right.filter (on l)).map (l ++ ·) := by
  have empty : (right.filter (on l)).isEmpty = !right.any (on l) := by
    rw [Bool.eq_iff_iff, List.isEmpty_iff, List.filter_eq_nil_iff]
    simp
  rw [joinedRows, marked_map]
  exact congrArg (fun b => if b && pad then _ else _) empty

theorem unmatched_map (left right : List Row) :
    unmatched right (left.map fun l => right.map (on l)) = right.filter fun r => !left.any (on · r) := by
  have marks : (List.range right.length).map (fun j => (left.map fun l => right.map (on l)).all
      fun marks => marks[j]? != some true) = right.map fun r => !left.any (on · r) := by
    apply List.ext_getElem
    · rw [List.length_map, List.length_map, List.length_range]
    · intro j inside inside'
      rw [List.length_map] at inside'
      simp only [List.getElem_map, List.getElem_range, List.all_map, List.not_any_eq_all_not]
      refine congrArg (left.all ·) (funext fun l => ?_)
      cases found : on l right[j] <;> simp [inside', found]
  rw [unmatched, marks, marked_map]

theorem joinedTable_eq (pad : Bool) (rightArity : Nat) (left right : List Row) :
    (left.zip (left.map fun l => right.map (on l))).flatMap
        (fun pair => joinedRows pad rightArity right pair.1 pair.2) =
      if pad then preservedPairs on left right rightArity else matchedPairs on left right := by
  have paired : left.zip (left.map fun l => right.map (on l)) = left.map fun l => (l, right.map (on l)) := by
    rw [← List.zip_map', List.map_id']
  rw [paired, List.flatMap_map]
  simp only [joinedRows_map]
  cases pad with
  | false => simp [matchedPairs]
  | true =>
    simp only [preservedPairs, Bool.and_true, if_true]
    refine congrArg (left.flatMap ·) (funext fun l => ?_)
    cases right.any (on l) <;> rfl

end Marks

section Tested

variable {on : Expr} {params : Bindings} {left right : List Row} {l : Row}

/-- Whether a condition is true of a pair of rows. -/
def holdsOn (on : Expr) (params : Bindings) (l r : Row) : Bool :=
  match on.test (l ++ r) params with
  | .ok b => b
  | .error _ => false

theorem test_eq_holdsOn {r : Row} (evaluated : (on.test (l ++ r) params).isOk = true) :
    on.test (l ++ r) params = .ok (holdsOn on params l r) := by
  unfold holdsOn
  cases tested : on.test (l ++ r) params with
  | ok => rfl
  | error =>
    rw [tested] at evaluated
    cases evaluated

theorem hasMatch_eq (tests : ∀ r ∈ right, (on.test (l ++ r) params).isOk = true) :
    hasMatch on params l right = .ok (right.any (holdsOn on params l)) := by
  induction right with
  | nil => rfl
  | cons r right ih =>
    rw [List.forall_mem_cons] at tests
    rw [hasMatch, test_eq_holdsOn tests.1, ok_bind, List.any_cons]
    cases holdsOn on params l r with
    | true => rfl
    | false => exact ih tests.2

theorem matching_eq (wanted : Bool) (tests : ∀ l ∈ left, ∀ r ∈ right, (on.test (l ++ r) params).isOk = true) :
    matching wanted on params right left =
      .ok (left.filter fun l => right.any (holdsOn on params l) == wanted) := by
  induction left with
  | nil => rfl
  | cons _ _ ih =>
    obtain ⟨here, later⟩ := List.forall_mem_cons.1 tests
    rw [matching, hasMatch_eq here, ok_bind, ih later, ok_bind, List.filter_cons]
    rfl

end Tested

/-- Where the condition can be evaluated on every pair, a join of any kind gives the rows of the join as a relation, in
its order. A semi and an anti join share the left rows out. -/
theorem join_eq_relationalJoin (on : Expr) (params : Bindings) (leftArity rightArity : Nat) (left right : List Row)
    (evaluated : ∀ l ∈ left, ∀ r ∈ right, (on.test (l ++ r) params).isOk = true) :
    (∀ kind, join kind on leftArity rightArity params left right =
      .ok (relationalJoin (holdsOn on params) left right leftArity rightArity kind)) ∧
    (relationalJoin (holdsOn on params) left right leftArity rightArity .semi ++
      relationalJoin (holdsOn on params) left right leftArity rightArity .anti).Perm left := by
  constructor
  · have table : left.mapM (fun l => matchMarks on params l right) =
        .ok (left.map fun l => right.map (holdsOn on params l)) :=
      mapM_eq_map fun l mem => mapM_eq_map fun r mem' => test_eq_holdsOn (evaluated l mem r mem')
    intro kind
    cases kind with
    | semi =>
      rw [join, matching_eq true evaluated]
      simp [relationalJoin]
    | anti =>
      rw [join, matching_eq false evaluated]
      simp [relationalJoin]
    | inner | left | right | full =>
      simp only [join, table, ok_bind, JoinKind.padsRight, JoinKind.padsLeft, joinedTable_eq, unmatched_map]
      simp [relationalJoin, orphanRows, pure, Except.pure]
  · exact List.filter_append_perm _ left

/-- Rows that come twice, a null that matches nothing, and rows without a match on both sides. -/
theorem join_eq_relationalJoin_duplicates :
    let on : Expr := .call .eq [.ref 0 .integer true, .ref 1 .integer true] .boolean
    let unbound : Bindings := fun _ => .none
    let left : List Row := [[.int 2], [.null], [.int 1], [.int 2]]
    let right : List Row := [[.int 2], [.null], [.int 2], [.int 3]]
    let padded : List Row := [[.int 2, .int 2], [.int 2, .int 2], [.null, .null], [.int 1, .null], [.int 2, .int 2],
      [.int 2, .int 2]]
    (∀ l ∈ left, ∀ r ∈ right, (on.test (l ++ r) unbound).isOk = true) ∧
      join .full on 1 1 unbound left right = .ok (padded ++ [[.null, .null], [.null, .int 3]]) ∧
      join .anti on 1 1 unbound left right = .ok [[.null], [.int 1]] := by
  intro on unbound left right padded
  have evaluated : ∀ l ∈ left, ∀ r ∈ right, (on.test (l ++ r) unbound).isOk = true := by decide
  obtain ⟨all, _⟩ := join_eq_relationalJoin on unbound 1 1 left right evaluated
  exact ⟨evaluated, all .full, all .anti⟩

end FederatedQuery.Rows
