import FederatedQuery.Sql.Syntax
import Mathlib.Data.List.Basic

/-!
The parts of a query: the columns and subqueries in its terms, the labels of its sources, and its blocks at every
depth. A block in a term can refer to the sources around it, and a derived source cannot.
-/
namespace FederatedQuery.Sql

namespace Term

mutual

/-- The columns and the subqueries in a term. -/
def leaves : Term → List Term
  | column qualifier name => [column qualifier name]
  | .exists negated query => [.exists negated query]
  | subquery query => [subquery query]
  | literal _ | param .. | star => []
  | binary _ left right | item left right => left.leaves ++ right.leaves
  | unary _ operand | suffixed operand _ | cast operand _ => operand.leaves
  | function _ _ args | array args => leavesOf args
  | case branches otherwise => branchLeaves branches ++ optionLeaves otherwise
  | substring text start length => text.leaves ++ start.leaves ++ optionLeaves length

def leavesOf : List Term → List Term
  | [] => []
  | t :: rest => t.leaves ++ leavesOf rest

def branchLeaves : List (Term × Term) → List Term
  | [] => []
  | (condition, result) :: rest => condition.leaves ++ result.leaves ++ branchLeaves rest

def optionLeaves : Option Term → List Term
  | none => []
  | some t => t.leaves

end

def column? : Term → Option (Option String × String)
  | column qualifier name => some (qualifier, name)
  | _ => none

def query? : Term → Option Query
  | .exists _ query | subquery query => some query
  | _ => none

/-- The columns that a term refers to outside its subqueries, with their qualifiers. -/
def columns (t : Term) : List (Option String × String) := t.leaves.filterMap column?

def queries (t : Term) : List Query := t.leaves.filterMap query?

end Term

namespace Source

/-- The names by which the columns of a source can be qualified. -/
def labels : Source → List String
  | table path label => [label.getD (path.getLast?.getD "")]
  | derived _ label | values _ label _ => [label]
  | join _ left right _ => left.labels ++ right.labels

def queries : Source → List Query
  | derived query _ => [query]
  | table .. | values .. => []
  | join _ left right _ => left.queries ++ right.queries

def terms : Source → List Term
  | table .. | derived .. => []
  | values rows _ _ => rows.flatten
  | join _ left right on => on :: (left.terms ++ right.terms)

end Source

namespace Select

def labels (s : Select) : List String := s.source.elim [] Source.labels

def terms (s : Select) : List Term :=
  s.projection.map Prod.fst ++ s.source.elim [] Source.terms ++ s.filter.toList ++ s.groupBy ++ s.having.toList ++
    s.orderBy.map Prod.fst

/-- The columns that a block refers to outside its subqueries, with their qualifiers. -/
def references (s : Select) : List (Option String × String) := s.terms.flatMap Term.columns

def derived (s : Select) : List Query := s.source.elim [] Source.queries

def subqueries (s : Select) : List Query := s.terms.flatMap Term.queries

end Select

section Size

mutual

theorem Term.sizeOf_leaf {l : Term} : ∀ t : Term, l ∈ t.leaves → sizeOf l ≤ sizeOf t
  | .column .., mem | .exists .., mem | .subquery _, mem => by simp_all [Term.leaves]
  | .literal _, mem | .param .., mem | .star, mem => by simp [Term.leaves] at mem
  | .binary _ left right, mem | .item left right, mem => by
    have first := Term.sizeOf_leaf (l := l) left
    have second := Term.sizeOf_leaf (l := l) right
    grind [Term.leaves]
  | .unary _ operand, mem | .suffixed operand _, mem | .cast operand _, mem => by
    have first := Term.sizeOf_leaf operand mem
    grind
  | .function _ _ args, mem | .array args, mem => by
    have first := Term.sizeOf_leafOf args mem
    grind
  | .case branches otherwise, mem => by
    have first := Term.sizeOf_branchLeaf (l := l) branches
    have second := Term.sizeOf_optionLeaf (l := l) otherwise
    grind [Term.leaves]
  | .substring text start length, mem => by
    have first := Term.sizeOf_leaf (l := l) text
    have second := Term.sizeOf_leaf (l := l) start
    have third := Term.sizeOf_optionLeaf (l := l) length
    grind [Term.leaves]

theorem Term.sizeOf_leafOf {l : Term} : ∀ ts : List Term, l ∈ Term.leavesOf ts → sizeOf l ≤ sizeOf ts
  | [], mem => by simp [Term.leavesOf] at mem
  | t :: rest, mem => by
    have first := Term.sizeOf_leaf (l := l) t
    have second := Term.sizeOf_leafOf (l := l) rest
    grind [Term.leavesOf]

theorem Term.sizeOf_branchLeaf {l : Term} : ∀ ts : List (Term × Term), l ∈ Term.branchLeaves ts → sizeOf l ≤ sizeOf ts
  | [], mem => by simp [Term.branchLeaves] at mem
  | (condition, result) :: rest, mem => by
    have first := Term.sizeOf_leaf (l := l) condition
    have second := Term.sizeOf_leaf (l := l) result
    have third := Term.sizeOf_branchLeaf (l := l) rest
    grind [Term.branchLeaves]

theorem Term.sizeOf_optionLeaf {l : Term} : ∀ t : Option Term, l ∈ Term.optionLeaves t → sizeOf l ≤ sizeOf t
  | none, mem => by simp [Term.optionLeaves] at mem
  | some t, mem => by
    have first := Term.sizeOf_leaf t mem
    grind

end

theorem Term.sizeOf_query {t : Term} {q : Query} (mem : q ∈ t.queries) : sizeOf q < sizeOf t := by
  rw [Term.queries, List.mem_filterMap] at mem
  obtain ⟨l, leaf, found⟩ := mem
  have small := Term.sizeOf_leaf t leaf
  cases l <;> cases found <;> simp at small <;> omega

theorem Source.sizeOf_query {q : Query} : ∀ s : Source, q ∈ s.queries → sizeOf q < sizeOf s
  | .derived query _, mem => by
    rw [List.mem_singleton.1 mem]
    simp
    omega
  | .join _ left right _, mem => by
    have first := Source.sizeOf_query (q := q) left
    have second := Source.sizeOf_query (q := q) right
    grind [Source.queries]
  | .table .., mem | .values .., mem => by cases mem

theorem Source.sizeOf_term {t : Term} : ∀ s : Source, t ∈ s.terms → sizeOf t < sizeOf s
  | .values rows _ _, mem => by
    obtain ⟨row, inside, mem⟩ := List.mem_flatten.1 mem
    have first := List.sizeOf_lt_of_mem inside
    have second := List.sizeOf_lt_of_mem mem
    simp
    omega
  | .join _ left right on, mem => by
    have first := Source.sizeOf_term (t := t) left
    have second := Source.sizeOf_term (t := t) right
    grind [Source.terms]
  | .table .., mem | .derived .., mem => by cases mem

variable {s : Select}

theorem Select.sizeOf_derived {q : Query} (mem : q ∈ s.derived) : sizeOf q < sizeOf s := by
  obtain ⟨_, source, _⟩ := s
  cases source with
  | none => cases mem
  | some source =>
    have small := Source.sizeOf_query source mem
    simp
    omega

theorem Select.sizeOf_term {t : Term} (mem : t ∈ s.terms) : sizeOf t < sizeOf s := by
  obtain ⟨projection, source, filter, groupBy, having, orderBy, _, _⟩ := s
  simp only [terms, List.mem_append, List.mem_map, Option.mem_toList] at mem
  rcases mem with ((((⟨item, inside, rfl⟩ | inside) | rfl) | inside) | rfl) | ⟨item, inside, rfl⟩
  · have small := List.sizeOf_lt_of_mem inside
    cases item
    simp at small ⊢
    omega
  · cases source with
    | none => cases inside
    | some source =>
      have small := Source.sizeOf_term source inside
      simp
      omega
  · simp
    omega
  · have small := List.sizeOf_lt_of_mem inside
    simp
    omega
  · simp
    omega
  · have small := List.sizeOf_lt_of_mem inside
    cases item
    simp at small ⊢
    omega

theorem Select.sizeOf_subquery {q : Query} (mem : q ∈ s.subqueries) : sizeOf q < sizeOf s := by
  obtain ⟨t, inside, mem⟩ := List.mem_flatMap.1 mem
  exact Nat.lt_trans (Term.sizeOf_query mem) (Select.sizeOf_term inside)

end Size

/-- The blocks of a query at every depth, each with the labels of the sources that it can refer to. -/
def Query.blocks (outer : List String) : Query → List (List String × Select)
  | .select s => (s.labels ++ outer, s) ::
      ((s.derived.attach.flatMap fun q => q.1.blocks []) ++
        s.subqueries.attach.flatMap fun q => q.1.blocks (s.labels ++ outer))
  | .setOp _ _ inputs => inputs.attach.flatMap fun q => q.1.blocks outer
termination_by q => sizeOf q
decreasing_by
  · have small := Select.sizeOf_derived q.2
    simp
    omega
  · have small := Select.sizeOf_subquery q.2
    simp
    omega
  · have small := List.sizeOf_lt_of_mem q.2
    simp
    omega

theorem blocks_select (outer : List String) (s : Select) : (Query.select s).blocks outer =
    (s.labels ++ outer, s) :: (s.derived.flatMap (Query.blocks []) ++
      s.subqueries.flatMap (Query.blocks (s.labels ++ outer))) := by
  rw [Query.blocks]
  simp only [List.flatMap_subtype, List.unattach_attach]

theorem blocks_setOp (outer : List String) (op : SetOp) (all : Bool) (inputs : List Query) :
    (Query.setOp op all inputs).blocks outer = inputs.flatMap (Query.blocks outer) := by
  rw [Query.blocks]
  simp only [List.flatMap_subtype, List.unattach_attach]

def Statement.blocks : Statement → List (List String × Select)
  | .query q | .insert _ _ (.query q) => q.blocks []
  | .insert _ _ (.values rows) => rows.flatten.flatMap fun t => t.queries.flatMap (Query.blocks [])
  | .update path assignments filter => (assignments.map Prod.snd ++ filter.toList).flatMap fun t =>
      t.queries.flatMap (Query.blocks [path.getLast?.getD ""])
  | .delete path filter => filter.toList.flatMap fun t => t.queries.flatMap (Query.blocks [path.getLast?.getD ""])

def Query.selects (q : Query) : List Select := (q.blocks []).map Prod.snd

def Statement.selects (s : Statement) : List Select := s.blocks.map Prod.snd

theorem snd_blocks (q : Query) (outer outer' : List String) :
    (q.blocks outer).map Prod.snd = (q.blocks outer').map Prod.snd := by
  induction outer, q using Query.blocks.induct generalizing outer' with
  | case1 outer s _ inside =>
    rw [blocks_select, blocks_select]
    simp only [List.map_cons, List.map_append, List.map_flatMap]
    congr 2
    exact List.flatMap_congr fun q mem => inside ⟨q, mem⟩ _
  | case2 outer op all inputs each =>
    rw [blocks_setOp, blocks_setOp, List.map_flatMap, List.map_flatMap]
    exact List.flatMap_congr fun q mem => each ⟨q, mem⟩ _

theorem selects_select (s : Select) : (Query.select s).selects =
    s :: (s.derived.flatMap Query.selects ++ s.subqueries.flatMap Query.selects) := by
  rw [Query.selects, blocks_select, List.map_cons, List.map_append, List.map_flatMap, List.map_flatMap]
  simp only [snd_blocks _ (s.labels ++ []) []]
  rfl

theorem selects_single {s : Select} (bare : s.derived = []) (plain : s.subqueries = []) :
    (Query.select s).selects = [s] := by
  rw [selects_select, bare, plain]
  rfl

theorem selects_setOp (op : SetOp) (all : Bool) (inputs : List Query) :
    (Query.setOp op all inputs).selects = inputs.flatMap Query.selects := by
  rw [Query.selects, blocks_setOp, List.map_flatMap]
  rfl

end FederatedQuery.Sql
