import FederatedQuery.Plan.Build
import FederatedQuery.Proofs.Plan.Feed
import FederatedQuery.Proofs.Sql.Ordered

/-!
Clauses are kept. An operator writes a clause only into a block where it is empty, with one exception: a sort without
keys is written into a block that has an order, and takes the order away. So every sort of a plan is carried by a block
of its statement, one block for each, unless its order is written over in this way.
-/
namespace FederatedQuery

namespace Plan

def isLimited : Plan → Bool
  | sort _ _ offset fetch _ => offset.isSome || fetch.isSome
  | _ => false

def sorts (p : Plan) : List Plan := p.nodes.filter isSorting

/-- The sorts whose orders are written over. -/
def lost (p : Plan) : List Plan := p.nodes.filterMap overwritten?

theorem sorts_sort (h : Head) (collation : Collation) (offset fetch : Option Nat) (input : Plan) :
    (sort h collation offset fetch input).sorts =
      [sort h collation offset fetch input].filter isSorting ++ input.sorts := by
  rw [sorts, nodes, ← List.singleton_append, List.filter_append]
  rfl

theorem lost_sort (h : Head) (collation : Collation) (offset fetch : Option Nat) (input : Plan) :
    (sort h collation offset fetch input).lost =
      (sort h collation offset fetch input).overwritten?.toList ++ input.lost := by
  rw [lost, nodes, List.filterMap_cons]
  cases (sort h collation offset fetch input).overwritten? <;> rfl

variable {n p : Plan}

theorem isLimited_openSort? (found : p.openSort? = some n) : n.isLimited = false := by
  induction p using induction with
  | step p ih =>
    cases p with
    | sort =>
      rw [openSort?, Option.ite_none_right_eq_some] at found
      obtain ⟨unlimited, same⟩ := found
      cases same
      rw [Bool.and_eq_true, Bool.not_eq_true', Bool.not_eq_true'] at unlimited
      exact unlimited.2
    | calculate h program input =>
      rw [openSort?, Option.ite_none_right_eq_some] at found
      exact ih input (.head _) found.2
    | setOp h op all first rest =>
      cases rest with
      | nil => exact ih first (.head _) found
      | cons => cases found
    | _ => cases found

theorem isLimited_of_mem_lost (mem : n ∈ p.lost) : n.isLimited = false := by
  obtain ⟨m, _, found⟩ := List.mem_filterMap.1 mem
  cases m with
  | sort h collation offset fetch input =>
    cases collation with
    | nil => exact isLimited_openSort? found
    | cons => cases found
  | _ => cases found

end Plan

namespace Sql

/-- The blocks of a statement that order or limit their rows. -/
def Statement.ordered (s : Statement) : List Select := s.selects.filter Select.isOrdered

section Plans

variable {d : Dialect} {f : Fragment} {next after : Nat} {names : List String} {p input : Plan} {fs : List Fragment}
  {table : Table} {s : Statement}

theorem ordered_literalSelect {filter : Option Term} {row : List Term} (plain : ∀ t ∈ row, t.leaves = [])
    (tests : ∀ t ∈ filter, t.leaves = []) : (literalSelect d names filter row).ordered = [] := by
  obtain ⟨projection, alone⟩ := selects_literalSelect plain tests
  rw [Query.ordered, alone]
  rfl

theorem accounts_valuesFragment {rowType : RowType} {rows : List Row}
    (written : valuesFragment d rowType rows next = .ok (f, after)) : f.Accounts d none [] := by
  obtain ⟨terms, literal, written⟩ := bind_eq_ok.1 written
  have plain := leaves_literalRows literal
  have each : ∀ row ∈ terms, (literalSelect d rowType.names none row).ordered = [] :=
    fun row mem => ordered_literalSelect (plain row mem) nofun
  cases terms with
  | nil =>
    cases written
    refine ⟨rfl, ?_⟩
    rw [emptySelect, ordered_literalSelect]
    · exact matched_nil
    · exact List.forall_mem_map.2 fun _ _ => rfl
    · rintro t ⟨⟩
      rfl
  | cons row rest =>
    simp only at written
    split at written
    · cases written
      refine accounts_ofSource _ _ (fun t mem => ?_) (fun t => queries_plainColumns) matched_nil
      obtain ⟨row, inside, mem⟩ := List.mem_flatten.1 mem
      exact Term.ordered_of_queries (congrArg _ (plain row inside t mem))
    · split at written <;> cases written
      · refine ⟨rfl, ?_⟩
        rw [each row (.head _)]
        exact matched_nil
      · refine ⟨rfl, ?_⟩
        rw [ordered_setOp, List.flatMap_map, List.flatMap_eq_nil_iff.2 each]
        exact matched_nil

theorem perm_merge {α : Type} {xs ys kept kept' lost lost' : List α} (first : xs.Perm (kept ++ lost))
    (second : ys.Perm (kept' ++ lost')) : (xs ++ ys).Perm ((kept ++ kept') ++ (lost ++ lost')) := by
  refine (first.append second).trans ?_
  rw [List.append_assoc, List.append_assoc]
  exact (List.perm_append_comm_assoc lost kept' lost').append_left kept

/-- The sorts of a plan are those that its fragment carries and those that are lost. -/
def Balanced (d : Dialect) (p : Plan) (f : Fragment) : Prop :=
  ∃ kept, f.Accounts d p.openSort? kept ∧ p.sorts.Perm (kept ++ p.lost)

theorem balanced_all {plans : List Plan} (each : List.Forall₂ (Balanced d) plans fs) :
    ∃ kept, Matched d kept (fs.flatMap fun f => f.toQuery.ordered) ∧
      ((Plan.nodesOf plans).filter Plan.isSorting).Perm (kept ++ (Plan.nodesOf plans).filterMap Plan.overwritten?) := by
  induction each with
  | nil => exact ⟨[], matched_nil, .nil⟩
  | cons here _ ih =>
    obtain ⟨kept, accounts, all⟩ := here
    obtain ⟨kept', matched, all'⟩ := ih
    refine ⟨kept ++ kept', accounts.toQuery.append matched, ?_⟩
    rw [Plan.nodesOf, List.filter_append, List.filterMap_append]
    exact perm_merge all all'

/-- A set operation with one input passes on its fragment. Over several it is a query of their queries. -/
theorem balanced_setOp {h : Head} {op : SetOp} {all : Bool} {first : Plan} {rest : List Plan}
    (here : Balanced d first f) (each : List.Forall₂ (Balanced d) rest fs) :
    Balanced d (.setOp h op all first rest) (setOpFragment op all names f fs) := by
  obtain ⟨kept, accounts, sorts⟩ := here
  obtain ⟨kept', matched, sorts'⟩ := balanced_all each
  cases each with
  | nil =>
    refine ⟨kept, accounts, ?_⟩
    rw [Plan.sorts, Plan.lost, Plan.nodes, Plan.nodesOf, List.append_nil]
    exact sorts
  | cons =>
    refine ⟨kept ++ kept', ⟨rfl, ?_⟩, ?_⟩
    · rw [ordered_setOp, List.flatMap_append, List.flatMap_assoc]
      simp only [ordered_flattened]
      exact accounts.toQuery.append matched
    · have both := perm_merge sorts sorts'
      simp only [Plan.sorts, Plan.lost, ← List.filter_append, ← List.filterMap_append] at both
      exact both

theorem balanced_fragment (written : fragment d p next = .ok (f, after)) : Balanced d p f := by
  induction p using Plan.induction generalizing next f after with
  | step p ih =>
    cases p with
    | scan =>
      cases written
      exact ⟨[], accounts_ofSource _ _ nofun (fun t => queries_plainColumns)
        matched_nil, .nil⟩
    | values => exact ⟨[], accounts_valuesFragment written, .nil⟩
    | calculate h program input =>
      obtain ⟨⟨f, middle⟩, below, written⟩ := bind_eq_ok.1 written
      obtain ⟨kept, accounts, all⟩ := ih input (.head _) below
      refine ⟨kept, ?_, all⟩
      exact (accounts.program written).2
    | aggregate h group calls input =>
      obtain ⟨⟨f, middle⟩, below, written⟩ := bind_eq_ok.1 written
      obtain ⟨kept, accounts, all⟩ := ih input (.head _) below
      exact ⟨kept, (accounts.aggregate written).2, all⟩
    | join h kind on left right =>
      obtain ⟨⟨l, middle⟩, first, written⟩ := bind_eq_ok.1 written
      obtain ⟨⟨r, middle'⟩, second, written⟩ := bind_eq_ok.1 written
      obtain ⟨kept, accounts, all⟩ := ih left (.head _) first
      obtain ⟨kept', accounts', all'⟩ := ih right (.tail _ (.head _)) second
      refine ⟨kept ++ kept', accounts_joinFragment accounts accounts' written, ?_⟩
      have sides := perm_merge all all'
      simp only [Plan.sorts, Plan.lost, ← List.filter_append, ← List.filterMap_append] at sides
      exact sides
    | setOp h op all first rest =>
      obtain ⟨⟨f, middle⟩, one, written⟩ := bind_eq_ok.1 written
      obtain ⟨⟨fs, last⟩, others, written⟩ := bind_eq_ok.1 written
      cases written
      exact balanced_setOp (ih first (.head _) one)
        (forall₂_fragments (fun q mem next f after => ih q (.tail _ mem)) others)
    | sort h collation offset fetch input =>
      obtain ⟨⟨f, middle⟩, below, written⟩ := bind_eq_ok.1 written
      obtain ⟨kept, accounts, all⟩ := ih input (.head _) below
      obtain ⟨⟨kept', accounts', here⟩, _⟩ := accounts.sort h below written
      refine ⟨kept', accounts', ?_⟩
      -- An order that is written over moves from the sorts carried below to those that are lost here.
      rw [Plan.sorts_sort, Plan.lost_sort]
      refine (all.append_left _).trans ?_
      rw [← List.append_assoc, ← List.append_assoc]
      exact here.append_right _
    | modify | collect | converter => cases written

/-- An operator continues the fragment of its input, unless it writes over an order. -/
theorem extended_iff {n : Plan} {made : Fragment} {middle : Nat} (only : n.inputs = [input])
    (below : fragment d input next = .ok (f, middle)) (written : fragment d n next = .ok (made, after)) :
    n.overwritten? = none ↔ f.Extended middle made := by
  obtain ⟨kept, accounts, -⟩ := balanced_fragment below
  cases n with
  | calculate h program inner =>
    cases only
    rw [fragment, below] at written
    exact iff_of_true rfl (accounts.program written).1
  | aggregate =>
    cases only
    rw [fragment, below] at written
    exact iff_of_true rfl (accounts.aggregate written).1
  | setOp =>
    cases only
    rw [fragment, below] at written
    cases written
    refine iff_of_true rfl (.inl ⟨f.names, ?_⟩)
    cases f <;> rfl
  | sort h collation offset fetch inner =>
    cases only
    rw [fragment, below] at written
    exact (accounts.sort h below written).2
  | join | scan | values => cases only
  | modify | collect | converter => cases written

/-- The rows to change come without a sort. -/
theorem sorts_of_changeCondition {op : String} {condition : Option Expr}
    (found : changeCondition d op table input = .ok condition) : input.sorts = [] ∧ input.lost = [] := by
  cases input with
  | scan => exact ⟨rfl, rfl⟩
  | calculate h program inner =>
    have whole : (program.isIdentity && scans table inner) = true := by
      by_contra other
      have foreign : scans table (.calculate h program inner) = false := rfl
      simp only [changeCondition, foreign, if_neg Bool.false_ne_true, if_neg other] at found
      cases found
    rw [Bool.and_eq_true] at whole
    cases inner with
    | scan => exact ⟨rfl, rfl⟩
    | _ => exact absurd whole.2 nofun
  | _ => cases found

/-- The sorts of a plan are carried by some blocks, or lost. -/
def Accounted (d : Dialect) (p : Plan) (blocks : List Select) : Prop :=
  ∃ kept, Matched d kept blocks ∧ p.sorts.Perm (kept ++ p.lost)

theorem accounted_query (below : fragment d p next = .ok (f, after)) :
    Accounted d p (Statement.query f.toQuery).ordered := by
  obtain ⟨kept, accounts, all⟩ := balanced_fragment below
  exact ⟨kept, accounts.toQuery, all⟩

/-- Terms without subqueries have no ordered block, and this accounts for a plan without sorts. -/
theorem accounted_terms (sorts : p.sorts = []) (lost : p.lost = []) {terms : List Term}
    (plain : ∀ t ∈ terms, t.queries = []) (outer : List String) :
    Accounted d p (((terms.flatMap fun t => t.queries.flatMap (Query.blocks outer)).map Prod.snd).filter
      Select.isOrdered) := by
  rw [List.flatMap_eq_nil_iff.2 fun t mem => by rw [plain t mem, List.flatMap_nil], Accounted, sorts, lost]
  exact ⟨[], matched_nil, .nil⟩

theorem accounted_insertSource {source : InsertSource} (found : insertSource d input = .ok source)
    (path columns : List String) : Accounted d input (Statement.insert path columns source).ordered := by
  rcases insertSource_cases found with ⟨h, rows, terms, rfl, literal, rfl⟩ | ⟨f, after, below, rfl⟩
  · refine accounted_terms rfl rfl (fun t mem => ?_) []
    obtain ⟨row, inside, mem⟩ := List.mem_flatten.1 mem
    exact inherited_queries.literalRows literal row inside t mem
  · exact accounted_query below

theorem accounted_modification {op : ModifyOp}
    (written : modification d table op input = .ok s) : Accounted d input s.ordered := by
  cases op with
  | insert =>
    obtain ⟨source, found, written⟩ := bind_eq_ok.1 written
    cases written
    exact accounted_insertSource found _ _
  | update =>
    obtain ⟨condition, changed, written⟩ := bind_eq_ok.1 written
    obtain ⟨assignments, assigned, written⟩ := bind_eq_ok.1 written
    obtain ⟨filter, filtered, written⟩ := bind_eq_ok.1 written
    cases written
    obtain ⟨sorts, lost⟩ := sorts_of_changeCondition changed
    refine accounted_terms sorts lost (List.forall_mem_append.2 ⟨List.forall_mem_map.2 ?_, fun t mem => ?_⟩) _
    · exact inherited_queries.assignmentTerms (fun u => queries_plainColumns) assigned
    · exact inherited_queries.conditionTerm (fun u => queries_plainColumns) filtered t (Option.mem_toList.1 mem)
  | delete =>
    obtain ⟨condition, changed, written⟩ := bind_eq_ok.1 written
    obtain ⟨filter, filtered, written⟩ := bind_eq_ok.1 written
    cases written
    obtain ⟨sorts, lost⟩ := sorts_of_changeCondition changed
    refine accounted_terms sorts lost (fun t mem => ?_) _
    exact inherited_queries.conditionTerm (fun u => queries_plainColumns) filtered t (Option.mem_toList.1 mem)

theorem accounted_statement (written : statement d p = .ok s) : Accounted d p s.ordered := by
  rcases statement_cases written with ⟨f, after, below, rfl⟩ | ⟨h, table, op, input, rfl, written⟩
  · exact accounted_query below
  · obtain ⟨kept, matched, all⟩ := accounted_modification written
    refine ⟨kept, matched, ?_⟩
    exact all

end Plans

/-- An operator writes its clauses into an empty place, unless it is a sort without keys over an open order. The sorts
of a plan are carried by the ordered blocks of its statement, one each, but for the orders that are written over in
this way; limits never are. -/
theorem clauses_kept (d : Dialect) (p : Plan) (s : Statement) (written : statement d p = .ok s) :
    (∀ n ∈ p.nodes, ∀ input, n.inputs = [input] → ∀ next f middle made after,
      fragment d input next = .ok (f, middle) → fragment d n next = .ok (made, after) →
        (n.overwritten? = none ↔ f.Extended middle made)) ∧
      (∃ kept, p.sorts.Perm (kept ++ p.lost) ∧ List.Forall₂ (Carries d) kept s.ordered) ∧
      ∀ n ∈ p.lost, n.isLimited = false := by
  refine ⟨fun n _ input only next f middle made after below here => extended_iff only below here, ?_,
    fun n => Plan.isLimited_of_mem_lost⟩
  obtain ⟨kept, ⟨order, same, carried⟩, all⟩ := accounted_statement written
  exact ⟨order, all.trans (same.append_right _), carried⟩

/-- A limit over an order over a limited order. The order in the middle is lost. -/
theorem clauses_kept_limited :
    let scan := Plan.ofTable (Table.named "emp" ⟨[⟨"id", .integer, false⟩, ⟨"dept", .integer, true⟩]⟩)
    let limited := Plan.sort scan.head [⟨0, .ascending, .unspecified⟩] none (some 10) scan
    let ordered := Plan.sort scan.head [⟨1, .descending, .unspecified⟩] none none limited
    let p := Plan.sort scan.head [] none (some 5) ordered
    p.lost = [ordered] ∧ ∃ s, statement .ansi p = .ok s ∧
      ∃ kept, p.sorts.Perm (kept ++ [ordered]) ∧ List.Forall₂ (Carries .ansi) kept s.ordered := by
  intro scan limited ordered p
  exact ⟨rfl, _, rfl, (clauses_kept .ansi p _ rfl).2.1⟩

end Sql

end FederatedQuery
