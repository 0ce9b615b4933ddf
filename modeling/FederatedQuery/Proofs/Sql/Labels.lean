import FederatedQuery.Proofs.Plan.Feed
import FederatedQuery.Proofs.Plan.FreshNames
import FederatedQuery.Proofs.Sql.Steps

/-!
Labels of joined sources. Every qualified column refers to a source in its scope. The labels in a scope are distinct
unless the right side of a join is a join itself and has a table that is also on the left: only a table that stands
alone gets a new label when its own is taken.
-/
namespace FederatedQuery

/-- What a fragment is to a join: a table alone, a join, or a source with a label of its own. -/
inductive Standing where
  | table (name : String)
  | joined (names : List String)
  | apart

namespace Standing

/-- The names of the tables that keep them in a join. -/
def names : Standing → List String
  | table name => [name]
  | joined names => names
  | apart => []

/-- The names that a right side keeps. A table alone gets a new label when its name is taken. -/
def added (taken : List String) : Standing → List String
  | table name => if name ∈ taken then [] else [name]
  | joined names => names
  | apart => []

theorem added_subset (taken : List String) (s : Standing) : s.added taken ⊆ s.names := by
  cases s with
  | table =>
    rw [added]
    split
    · exact List.nil_subset _
    · exact List.Subset.refl _
  | joined | apart => exact List.Subset.refl _

theorem added_congr {taken taken' : List String} {s : Standing}
    (same : ∀ name ∈ s.names, name ∈ taken ↔ name ∈ taken') : s.added taken = s.added taken' := by
  cases s with
  | table name => simp only [added, same name (.head _)]
  | joined | apart => rfl

end Standing

namespace Plan

def standing : Plan → Standing
  | scan _ table => .table table.physicalTable
  | calculate _ program input => if program.isTrivial then input.standing else .apart
  | join _ kind _ left right =>
    if kind.leftOnly then .apart
    else .joined (left.standing.names ++ right.standing.added left.standing.names)
  | _ => .apart

/-- The right side of a join is a join, of which a table is also on the left. -/
def Clashes : Plan → Prop
  | join _ _ _ left right => ∃ names, right.standing = .joined names ∧ ∃ name ∈ names, name ∈ left.standing.names
  | _ => False

/-- A join whose sides are listed together. -/
def isListing : Plan → Bool
  | join _ kind _ _ _ => !kind.leftOnly
  | _ => false

/-- A table with a path, not named like a derived source, or a program or a join. -/
def Labelled : Plan → Prop
  | scan _ table => table.path ≠ [] ∧ ∀ k, table.physicalTable ≠ Sql.derivedName k
  | calculate .. | join .. => True
  | _ => False

/-- A join does not clash; or it does not list its sides, and that is all that counts. -/
def Separates (whole : Bool) (n : Plan) : Prop := whole = true ∨ n.isListing = true → ¬n.Clashes

theorem standing_names {p : Plan} (each : ∀ n ∈ p.nodes, n.Labelled) :
    ∀ name ∈ p.standing.names, ∀ k, name ≠ Sql.derivedName k := by
  apply p.induction_nodes
  intro n node below
  have here := each n node
  cases n with
  | scan => simpa [standing, Standing.names] using here.2
  | calculate h program input =>
    rw [standing]
    split
    · exact below input (.head _)
    · exact nofun
  | join h kind on left right =>
    have later := below right (.tail _ (.head _))
    rw [standing]
    split
    · exact nofun
    · exact List.forall_mem_append.2 ⟨below left (.head _), fun name mem => later name (Standing.added_subset _ _ mem)⟩
  | _ => exact here.elim

end Plan

namespace Sql

/-- Every qualified column of a block refers to a label in its scope. -/
def Anchored (block : List String × Select) : Prop :=
  ∀ label name, (some label, name) ∈ block.2.references → label ∈ block.1

/-- The labels of a block are distinct, among themselves or in the whole of its scope. -/
def Distinct (whole : Bool) (block : List String × Select) : Prop :=
  if whole then block.1.Nodup else block.2.labels.Nodup

section Terms

variable {scope : List String} {t : Term}

/-- A term without subqueries, whose qualified columns have labels of a list. -/
def Term.Local (scope : List String) (t : Term) : Prop :=
  ∀ l ∈ t.leaves, l.query? = none ∧ ∀ label name, l.column? = some (some label, name) → label ∈ scope

theorem inherited_local {d : Dialect} : Inherited d (Term.Local scope) := inherited_leaves _

theorem Term.Local.queries (here : t.Local scope) : t.queries = [] :=
  List.filterMap_eq_nil_iff.2 fun l leaf => (here l leaf).1

theorem Term.Local.columns (here : t.Local scope) {label name : String} (mem : (some label, name) ∈ t.columns) :
    label ∈ scope := by
  obtain ⟨l, leaf, found⟩ := List.mem_filterMap.1 mem
  exact (here l leaf).2 label name found

theorem Term.Local.mono {scope' : List String} (here : t.Local scope) (more : scope ⊆ scope') : t.Local scope' :=
  fun l leaf => ⟨(here l leaf).1, fun label name found => more ((here l leaf).2 label name found)⟩

theorem local_plainColumns {columns : List String} : ∀ t ∈ plainColumns columns, t.Local [] := by
  intro t mem l leaf
  obtain ⟨name, _, rfl⟩ := List.mem_map.1 mem
  rw [Term.leaves, List.mem_singleton] at leaf
  subst leaf
  exact ⟨rfl, nofun⟩

theorem local_qualified (label : String) (here : t.Local []) : (qualified label t).Local [label] := by
  have same (other : qualified label t = t) : (qualified label t).Local [label] := by
    rw [other]
    exact here.mono (List.nil_subset _)
  cases t with
  | column qualifier name =>
    cases qualifier with
    | none =>
      intro l leaf
      rw [qualified, Term.leaves, List.mem_singleton] at leaf
      subst leaf
      refine ⟨rfl, fun label' name' found => ?_⟩
      cases found
      exact .head _
    | some => exact same rfl
  | _ => exact same rfl

end Terms

section Blocks

variable {d : Dialect} {p : Plan} {b b' : Block} {low high next after : Nat} {whole : Bool}

/-- The blocks inside a block. Those of its condition see its sources. -/
def Block.within (b : Block) : List (List String × Select) :=
  b.source.queries.flatMap (Query.blocks []) ++
    b.filter.toList.flatMap fun t => t.queries.flatMap (Query.blocks b.source.labels)

@[simp] theorem Block.within_ofSource (source : Source) (qualifiers : List String) (fields : List Term)
    (names : List String) :
    (Block.ofSource source qualifiers fields names).within = source.queries.flatMap (Query.blocks []) := by
  simp [Block.within, Block.ofSource]

/-- A name from the counter, at some of its values. -/
def Generated (values : Nat → Prop) (name : String) : Prop := ∃ k, values k ∧ name = derivedName k

theorem Generated.mono {values values' : Nat → Prop} {name : String} (more : ∀ k, values k → values' k)
    (generated : Generated values name) : Generated values' name := by
  obtain ⟨k, value, same⟩ := generated
  exact ⟨k, more k value, same⟩

/-- A block that stands as a plan does. Its labels that are no names come from a range of the counter. -/
inductive Block.Fits (low high : Nat) (b : Block) : Standing → Prop
  | table {path : List String} {label : Option String} {name : String} (bare : b.clauses = [.source])
    (source : b.source = .table path label) (only : b.qualifiers = [name])
    (unqualified : ∀ t ∈ b.fields, t.Local []) : Fits low high b (.table name)
  | joined {kind : JoinKind} {left right : Source} {on : Term} {names : List String} (bare : b.clauses = [.source])
    (source : b.source = .join kind left right on) (kept : names ⊆ b.qualifiers)
    (known : ∀ q ∈ b.qualifiers, q ∈ names ∨ Generated (fun k => low ≤ k ∧ k < high) q) :
    Fits low high b (.joined names)
  | apart (used : b.isBare = false) : Fits low high b .apart

/-- A block of a plan. Its labels and those of the blocks inside it are distinct where no join clashes. -/
structure Block.Sound (p : Plan) (b : Block) : Prop where
  labels : b.qualifiers = b.source.labels
  ungrouped : b.groupBy = [] ∧ b.having = none ∧ b.orderBy = []
  unfiltered : .filter ∉ b.clauses → b.filter = none
  fields : ∀ t ∈ b.fields, t.Local b.source.labels
  source : ∀ t ∈ b.source.terms, t.Local b.source.labels
  filter : ∀ t ∈ b.filter, ∀ label name, (some label, name) ∈ t.columns → label ∈ b.source.labels
  anchored : ∀ block ∈ b.within, Anchored block
  distinct : ∀ whole, (b.source.labels.Nodup ∧ ∀ block ∈ b.within, Distinct whole block) ↔
    ∀ n ∈ p.nodes, n.Separates whole

variable (sound : b.Sound p)

include sound

theorem blocks_toQuery : ∃ projection, (∀ item ∈ projection, item.1 ∈ b.fields) ∧
      b.toQuery.blocks [] = (b.source.labels, b.toSelect projection) :: b.within := by
  obtain ⟨projection, same, among⟩ := exists_toSelect b
  obtain ⟨groupBy, having, orderBy⟩ := sound.ungrouped
  have projected : (projection.map Prod.fst).flatMap Term.queries = [] := by
    refine List.flatMap_eq_nil_iff.2 (List.forall_mem_map.2 fun item inside => ?_)
    exact (sound.fields _ (among item inside)).queries
  have sources : b.source.terms.flatMap Term.queries = [] :=
    List.flatMap_eq_nil_iff.2 fun t mem => (sound.source t mem).queries
  have subqueries : (b.toSelect projection).subqueries = b.filter.toList.flatMap Term.queries := by
    simp [Select.subqueries, Select.terms, Block.toSelect, projected, sources, groupBy, having, orderBy]
  refine ⟨projection, among, ?_⟩
  rw [same, blocks_select, subqueries, List.flatMap_assoc, List.append_nil]
  rfl

theorem anchored_toSelect {projection : List (Term × Option String)}
    (among : ∀ item ∈ projection, item.1 ∈ b.fields) : Anchored (b.source.labels, b.toSelect projection) := by
  obtain ⟨groupBy, having, orderBy⟩ := sound.ungrouped
  intro label name mem
  obtain ⟨t, inside, mem⟩ := List.mem_flatMap.1 mem
  simp only [Select.terms, Block.toSelect, groupBy, having, orderBy, Option.elim_some, Option.toList_none,
    List.map_nil, List.append_nil, List.mem_append, List.mem_map, Option.mem_toList] at inside
  rcases inside with (⟨item, inside, rfl⟩ | inside) | inside
  · exact (sound.fields _ (among item inside)).columns mem
  · exact (sound.source t inside).columns mem
  · exact sound.filter t inside label name mem

/-- Every block of the query of a plan is anchored, and all are distinct where no join clashes. -/
theorem Block.Sound.toQuery : (∀ block ∈ b.toQuery.blocks [], Anchored block) ∧
    ∀ whole, (∀ block ∈ b.toQuery.blocks [], Distinct whole block) ↔ ∀ n ∈ p.nodes, n.Separates whole := by
  obtain ⟨projection, among, blocks⟩ := blocks_toQuery sound
  have own (whole : Bool) : Distinct whole (b.source.labels, b.toSelect projection) ↔ b.source.labels.Nodup := by
    cases whole <;> rfl
  rw [blocks]
  refine ⟨List.forall_mem_cons.2 ⟨anchored_toSelect sound among, sound.anchored⟩, fun whole => ?_⟩
  rw [List.forall_mem_cons, own, sound.distinct]

theorem Block.Sound.derived (next : Nat) : ((Fragment.block b).derived next).Sound p := by
  obtain ⟨anchored, distinct⟩ := sound.toQuery
  have within : ((Fragment.block b).derived next).within = b.toQuery.blocks [] := by
    simp [Fragment.derived, Source.queries, Fragment.toQuery]
  refine ⟨rfl, ⟨rfl, rfl, rfl⟩, fun _ => rfl, fun t mem => (local_plainColumns t mem).mono (List.nil_subset _),
    List.forall_mem_nil _, fun t mem => absurd mem (Option.not_mem_none t), ?_, fun whole => ?_⟩
  · rw [within]
    exact anchored
  · rw [within, ← distinct whole]
    exact and_iff_right (List.nodup_singleton _)

theorem Block.Sound.offered (offers : (Fragment.block b).Offers next b' after) : b'.Sound p := by
  cases offers with
  | own => exact sound
  | derived => exact sound.derived next

theorem Block.Sound.filtered {t : Term} (free : b.reaches .filter = false)
    (here : t.Local b.source.labels) : { b with filter := some t, clauses := .filter :: b.clauses }.Sound p := by
  have unfiltered := sound.unfiltered (Block.not_mem_of_reaches free (by decide))
  have within : { b with filter := some t, clauses := .filter :: b.clauses }.within = b.within := by
    simp [Block.within, unfiltered, here.queries]
  refine ⟨sound.labels, sound.ungrouped, fun unused => absurd (.head _) unused, sound.fields, sound.source, ?_, ?_, ?_⟩
  · rintro u ⟨⟩ label name mem
    exact here.columns mem
  · rw [within]
    exact sound.anchored
  · rw [within]
    exact sound.distinct

theorem Block.Sound.projected {fields : List Term} {names : List String} {clauses : List Clause}
    (here : ∀ t ∈ fields, t.Local b.source.labels) (used : b.clauses ⊆ clauses) :
    { b with fields, names, clauses }.Sound p :=
  ⟨sound.labels, sound.ungrouped, fun unused => sound.unfiltered fun mem => unused (used mem), here, sound.source,
    sound.filter, sound.anchored, sound.distinct⟩

theorem Block.Sound.congr {q : Plan}
    (same : ∀ whole, (∀ n ∈ p.nodes, n.Separates whole) ↔ ∀ n ∈ q.nodes, n.Separates whole) : b.Sound q :=
  { sound with distinct := fun whole => (sound.distinct whole).trans (same whole) }

end Blocks

section Sides

variable {p : Plan} {b : Block} {s : Side} {low high next after : Nat} {names taken : List String} {values : Nat → Prop}

/-- A side of a join, which keeps some names. Its other labels come from the counter. -/
structure Side.Stands (p : Plan) (names : List String) (values : Nat → Prop) (s : Side) : Prop where
  labels : s.qualifiers = s.source.labels
  fields : ∀ t ∈ s.fields, t.Local s.source.labels
  source : ∀ t ∈ s.source.terms, t.Local s.source.labels
  kept : names ⊆ s.qualifiers
  known : ∀ q ∈ s.qualifiers, q ∈ names ∨ Generated values q
  anchored : ∀ block ∈ s.source.queries.flatMap (Query.blocks []), Anchored block
  distinct : ∀ whole, (s.source.labels.Nodup ∧
    ∀ block ∈ s.source.queries.flatMap (Query.blocks []), Distinct whole block) ↔ ∀ n ∈ p.nodes, n.Separates whole

theorem within_of_bare (sound : b.Sound p) (bare : b.clauses = [.source]) :
    b.within = b.source.queries.flatMap (Query.blocks []) := by
  rw [Block.within, sound.unfiltered (by rw [bare]; decide), Option.toList_none, List.flatMap_nil, List.append_nil]

/-- A source under one label, in place of a block that has only its source. -/
theorem Block.Sound.labelled {source : Source} {label : String} (sound : b.Sound p) (bare : b.clauses = [.source])
    (unqualified : ∀ t ∈ b.fields, t.Local []) (single : ∃ label, b.source.labels = [label])
    (labels : source.labels = [label]) (terms : source.terms = []) (queries : source.queries = b.source.queries)
    (kept : names ⊆ [label]) (known : label ∈ names ∨ Generated values label) :
    Side.Stands p names values ⟨source, b.fields.map (qualified label), [label]⟩ := by
  have within := within_of_bare sound bare
  have distinct := sound.distinct
  obtain ⟨old, single⟩ := single
  refine ⟨labels.symm, ?_, ?_, kept, by simpa using known, ?_, fun whole => ?_⟩
  · rw [labels]
    exact List.forall_mem_map.2 fun t mem => local_qualified label (unqualified t mem)
  · rw [terms]
    exact nofun
  · rw [queries, ← within]
    exact sound.anchored
  · rw [queries, ← within, labels, ← distinct whole, single]
    simp only [List.nodup_singleton]

theorem stands_side (fits : b.Fits low high p.standing) (sound : b.Sound p)
    (found : (Fragment.block b).side taken next = (s, after)) : next ≤ after ∧
      s.Stands p (p.standing.added taken) fun k => low ≤ k ∧ k < high ∨ next ≤ k ∧ k < after := by
  obtain ⟨c, middle, bared, sides⟩ := side_cases taken (.block b) next
  have own (bare : b.clauses = [.source]) : c = b ∧ middle = next := by
    have only : b.isBare = true := decide_eq_true bare
    rw [Fragment.bare, only] at bared
    exact ⟨(congrArg Prod.fst bared).symm, (congrArg Prod.snd bared).symm⟩
  generalize p.standing = standing at fits
  cases fits with
  | @table _ _ name bare source only unqualified =>
    obtain ⟨rfl, rfl⟩ := own bare
    have label : c.source.labels = [name] := by rw [← sound.labels, only]
    have name' : c.qualifiers.head?.getD "" = name := by rw [only]; rfl
    rw [name'] at sides
    rcases sides with ⟨_, _, _, _, joined, _⟩ | ⟨path, old, _, mem, same⟩ | ⟨_, free, same⟩
    · rw [source] at joined
      cases joined
    · rw [same] at found
      cases found
      refine ⟨Nat.le_succ _, sound.labelled bare unqualified ⟨name, label⟩ rfl rfl ?_ ?_ (.inr ⟨_, ?_, rfl⟩)⟩
      · rw [source]
        rfl
      · rw [Standing.added, if_pos mem]
        exact List.nil_subset _
      · omega
    · rw [same] at found
      cases found
      rw [Standing.added, if_neg (free _ _ source)]
      refine ⟨Nat.le_refl _, sound.labelled bare unqualified ⟨name, label⟩ label ?_ rfl (List.Subset.refl _)
        (.inl (.head _))⟩
      rw [source]
      rfl
  | joined bare source kept known =>
    obtain ⟨rfl, rfl⟩ := own bare
    rcases sides with ⟨_, _, _, _, _, same⟩ | ⟨_, _, table, _⟩ | ⟨other, _⟩
    · rw [same] at found
      cases found
      have within := within_of_bare sound bare
      refine ⟨Nat.le_refl _, sound.labels, sound.fields, sound.source, kept, fun q mem => ?_, ?_, ?_⟩
      · exact (known q mem).imp_right (Generated.mono fun k => .inl)
      · rw [← within]
        exact sound.anchored
      · rw [← within]
        exact sound.distinct
    · rw [source] at table
      cases table
    · exact absurd source (other _ _ _ _)
  | apart used =>
    rw [Fragment.bare, used] at bared
    cases bared
    rcases sides with ⟨_, _, _, _, joined, _⟩ | ⟨_, _, table, _⟩ | ⟨_, _, same⟩
    · cases joined
    · cases table
    · rw [same] at found
      cases found
      refine ⟨Nat.le_succ _, (sound.derived next).labelled rfl local_plainColumns ⟨_, rfl⟩ rfl rfl rfl
        (List.nil_subset _) (.inr ⟨next, ?_, rfl⟩)⟩
      omega

end Sides

section Joins

variable {d : Dialect} {h : Head} {kind : JoinKind} {on : Expr} {left right : Plan} {l r : Side} {t : Term}
  {values values' : Nat → Prop} {names : List String}

theorem nodes_join : (Plan.join h kind on left right).nodes =
    Plan.join h kind on left right :: (left.nodes ++ right.nodes) := by
  rw [Plan.nodes]

variable (first : l.Stands left left.standing.names values)
  (second : r.Stands right (right.standing.added l.qualifiers) values')

include first second

theorem disjoint_iff (h : Head) (kind : JoinKind) (on : Expr) (apart : ∀ k, values k → ¬values' k)
    (plain : ∀ name ∈ left.standing.names, ∀ k, name ≠ derivedName k)
    (plain' : ∀ name ∈ right.standing.names, ∀ k, name ≠ derivedName k) :
    List.Disjoint l.qualifiers r.qualifiers ↔ ¬(Plan.join h kind on left right).Clashes := by
  constructor
  · rintro disjoint ⟨names, joined, name, mem, mem'⟩
    refine disjoint (first.kept mem') (second.kept ?_)
    rw [joined]
    exact mem
  · intro free q one other
    -- Names of tables never meet labels from the counter, and the sides draw from it one after the other. So a
    -- common label is a name on both sides.
    rcases first.known q one with name | ⟨k, value, rfl⟩
    · rcases second.known q other with name' | ⟨k, _, same⟩
      · cases stands : right.standing with
        | table =>
          rw [stands, Standing.added] at name'
          split at name'
          · cases name'
          · next fresh =>
            rw [List.mem_singleton.1 name'] at one
            exact fresh one
        | joined names =>
          rw [stands] at name'
          exact free ⟨names, stands, q, name', name⟩
        | apart =>
          rw [stands] at name'
          cases name'
      · exact plain q name k same
    · rcases second.known _ other with name' | ⟨k', value', same⟩
      · exact plain' _ (Standing.added_subset _ _ name') k rfl
      · rw [numbered_injective same] at value
        exact apart k' value value'

variable (separate : List.Disjoint l.qualifiers r.qualifiers ↔ ¬(Plan.join h kind on left right).Clashes)
  (here : t.Local (l.source.labels ++ r.source.labels))

include separate here

theorem sound_listing (two : kind.leftOnly = false) :
    (Block.ofSource (.join kind l.source r.source t) (l.qualifiers ++ r.qualifiers) (l.fields ++ r.fields)
      names).Sound (.join h kind on left right) := by
  have wide {ts us : List Term} (one : ∀ t ∈ ts, t.Local l.source.labels) (other : ∀ t ∈ us, t.Local r.source.labels) :
      ∀ t ∈ ts ++ us, t.Local (l.source.labels ++ r.source.labels) :=
    List.forall_mem_append.2 ⟨fun t mem => (one t mem).mono (List.subset_append_left _ _),
      fun t mem => (other t mem).mono (List.subset_append_right _ _)⟩
  refine ⟨?_, ⟨rfl, rfl, rfl⟩, fun _ => rfl, wide first.fields second.fields, ?_, nofun, ?_, fun whole => ?_⟩
  · rw [Block.ofSource, Source.labels, first.labels, second.labels]
  · exact List.forall_mem_cons.2 ⟨here, wide first.source second.source⟩
  · rw [Block.within_ofSource, Source.queries, List.flatMap_append]
    exact List.forall_mem_append.2 ⟨first.anchored, second.anchored⟩
  · have listing : (Plan.join h kind on left right).Separates whole ↔ ¬(Plan.join h kind on left right).Clashes := by
      simp [Plan.Separates, Plan.isListing, two]
    rw [Block.within_ofSource, Source.queries, List.flatMap_append, nodes_join, List.forall_mem_cons,
      List.forall_mem_append, List.forall_mem_append, listing, ← separate, ← first.distinct whole,
      ← second.distinct whole, first.labels, second.labels]
    simp only [Block.ofSource, Source.labels, List.nodup_append']
    tauto

/-- A left side that is tested by a query of the right side. The test sees both. -/
theorem sound_testing {negated : Bool} (one : kind.leftOnly = true) :
    { Block.ofSource l.source l.qualifiers l.fields names with
      filter := some (.exists negated (.select (r.test t))), clauses := [.filter, .source] }.Sound
        (.join h kind on left right) := by
  have subqueries : (r.test t).subqueries = [] := by
    refine List.flatMap_eq_nil_iff.2 fun u mem => ?_
    rcases mem_terms_test.1 mem with mem | rfl
    · exact (second.source u mem).queries
    · exact here.queries
  have test : (Query.select (r.test t)).blocks l.source.labels =
      (r.source.labels ++ l.source.labels, r.test t) :: r.source.queries.flatMap (Query.blocks []) := by
    rw [blocks_select, subqueries, List.flatMap_nil, List.append_nil]
    rfl
  have within : { Block.ofSource l.source l.qualifiers l.fields names with
      filter := some (.exists negated (.select (r.test t))), clauses := [.filter, .source] }.within =
        l.source.queries.flatMap (Query.blocks []) ++
          (r.source.labels ++ l.source.labels, r.test t) :: r.source.queries.flatMap (Query.blocks []) := by
    rw [← test]
    simp [Block.within, Block.ofSource, Term.queries, Term.leaves, Term.query?]
  refine ⟨first.labels, ⟨rfl, rfl, rfl⟩, fun unused => absurd (.head _) unused, first.fields, first.source,
    ?_, ?_, fun whole => ?_⟩
  · rintro u ⟨⟩ label name mem
    cases mem
  · rw [within]
    refine List.forall_mem_append.2 ⟨first.anchored, List.forall_mem_cons.2 ⟨fun label name mem => ?_, second.anchored⟩⟩
    obtain ⟨u, inside, column⟩ := List.mem_flatMap.1 mem
    rcases mem_terms_test.1 inside with inside | rfl
    · exact List.mem_append_left _ ((second.source u inside).columns column)
    · exact List.mem_append.2 (List.mem_append.1 (here.columns column)).symm
  · rw [within, nodes_join, List.forall_mem_cons, List.forall_mem_append, List.forall_mem_append, List.forall_mem_cons,
      ← first.distinct whole, ← second.distinct whole]
    rw [first.labels, second.labels] at separate
    cases whole with
    | true =>
      have tested : (Plan.join h kind on left right).Separates true ↔
          ¬(Plan.join h kind on left right).Clashes := by
        simp [Plan.Separates]
      rw [tested, ← separate]
      simp only [Block.ofSource, Distinct, if_pos, List.nodup_append']
      tauto
    | false =>
      have free : (Plan.join h kind on left right).Separates false := by
        simp [Plan.Separates, Plan.isListing, one]
      have own : Distinct false (r.source.labels ++ l.source.labels, r.test t) ↔ r.source.labels.Nodup := Iff.rfl
      tauto

end Joins

section Plans

variable {d : Dialect} {p : Plan} {f made : Fragment} {low high next after : Nat} {names : List String} {h : Head}

/-- A fragment that is a block and stands as a plan does. -/
def Fragment.Stands (p : Plan) (low high : Nat) (f : Fragment) : Prop :=
  ∃ b, f = .block b ∧ low ≤ high ∧ b.Fits low high p.standing ∧ b.Sound p

theorem stands_joinFragment {kind : JoinKind} {on : Expr} {left right : Plan} {first second : Fragment} {middle : Nat}
    (one : first.Stands left low middle) (other : second.Stands right middle next)
    (plain : ∀ name ∈ left.standing.names, ∀ k, name ≠ derivedName k)
    (plain' : ∀ name ∈ right.standing.names, ∀ k, name ≠ derivedName k)
    (written : joinFragment d kind on names first second next = .ok (made, after)) :
    made.Stands (.join h kind on left right) low after := by
  obtain ⟨a, rfl, order, fits, sound⟩ := one
  obtain ⟨b, rfl, order', fits', sound'⟩ := other
  obtain ⟨l, between, r, t, found, found', translated, written⟩ := joinFragment_cases written
  obtain ⟨later, leftSide⟩ := stands_side fits sound found
  obtain ⟨later', rightSide⟩ := stands_side fits' sound' found'
  have separate := disjoint_iff leftSide rightSide h kind on (fun k => by omega) plain plain'
  have here : t.Local (l.source.labels ++ r.source.labels) := by
    refine inherited_local.scalarTerm (List.forall_mem_append.2 ⟨fun u mem => ?_, fun u mem => ?_⟩) translated
    · exact (leftSide.fields u mem).mono (List.subset_append_left _ _)
    · exact (rightSide.fields u mem).mono (List.subset_append_right _ _)
  rcases written with ⟨only, rfl⟩ | ⟨both, rfl⟩
  · refine ⟨_, rfl, by omega, ?_, sound_testing leftSide rightSide separate here only⟩
    rw [Plan.standing, only]
    exact .apart rfl
  · refine ⟨_, rfl, by omega, ?_, sound_listing leftSide rightSide separate here both⟩
    -- The labels taken on the left are its names and labels from the counter, which no table has.
    have same : right.standing.added l.qualifiers = right.standing.added left.standing.names := by
      refine Standing.added_congr fun name mem => ⟨fun label => ?_, fun known => leftSide.kept known⟩
      refine (leftSide.known name label).resolve_right fun generated => ?_
      obtain ⟨k, _, named⟩ := generated
      exact plain' name mem k named
    rw [Plan.standing, both]
    refine .joined rfl rfl ?_ (List.forall_mem_append.2 ⟨fun q mem => ?_, fun q mem => ?_⟩)
    · rw [← same]
      exact List.append_subset.2 ⟨List.Subset.trans leftSide.kept (List.subset_append_left _ _),
        List.Subset.trans rightSide.kept (List.subset_append_right _ _)⟩
    · exact (leftSide.known q mem).imp (List.mem_append_left _) (Generated.mono fun k => by omega)
    · rw [same] at rightSide
      exact (rightSide.known q mem).imp (List.mem_append_right _) (Generated.mono fun k => by omega)

variable {b : Block}

theorem le_of_offers (offers : f.Offers next b after) : next ≤ after := by
  cases offers with
  | own => exact Nat.le_refl _
  | derived => exact Nat.le_succ _

theorem sound_projectFragment {projects : List Expr} (sound : b.Sound p)
    (written : projectFragment d projects names (.block b) next = .ok (made, after)) :
    ∃ b', made = .block b' ∧ next ≤ after ∧ b'.isBare = false ∧ b'.Sound p := by
  obtain ⟨c, fields, ready, translated, rfl⟩ := projectFragment_cases written
  have offers := offers_of_readyFor ready
  have sound := sound.offered offers
  have fields := inherited_local.scalarTerms sound.fields translated
  exact ⟨_, rfl, le_of_offers offers, rfl, sound.projected fields (List.subset_cons_self _ _)⟩

theorem Block.Fits.renamed {s : Standing} (fits : b.Fits low high s) (names : List String) :
    { b with names }.Fits low high s := by
  cases fits with
  | table bare source only unqualified => exact .table bare source only unqualified
  | joined bare source kept known => exact .joined bare source kept known
  | apart used => exact .apart used

/-- A program that does nothing leaves a fragment as it stands, and any other sets it apart. -/
theorem stands_programFragment {program : Program} {input : Plan} (stands : f.Stands input low next)
    (written : programFragment d false program names f next = .ok (made, after)) :
    made.Stands (.calculate h program input) low after := by
  obtain ⟨b, rfl, order, fits, sound⟩ := stands
  have nodes (whole : Bool) : (∀ n ∈ input.nodes, n.Separates whole) ↔
      ∀ n ∈ (Plan.calculate h program input).nodes, n.Separates whole := by
    rw [Plan.nodes, List.forall_mem_cons]
    exact (and_iff_right fun _ => id).symm
  have sound := sound.congr nodes
  obtain ⟨middle, between, conditioned, columns⟩ := programFragment_cases written
  rw [Fragment.Stands, Plan.standing, Program.isTrivial]
  rcases conditioned with ⟨unconditional, rfl, rfl⟩ | ⟨condition, conditional, conditioned⟩
  · rw [unconditional, Option.isNone_none, Bool.true_and]
    rcases columns with ⟨identity, rfl, rfl⟩ | ⟨other, projected⟩
    · refine ⟨_, rfl, order, ?_, sound.projected sound.fields (List.Subset.refl _)⟩
      rw [identity]
      exact fits.renamed names
    · obtain ⟨b', rfl, later, used, sound⟩ := sound_projectFragment sound projected
      rw [other]
      exact ⟨b', rfl, by omega, .apart used, sound⟩
  · rw [conditional]
    obtain ⟨c, t, offers, translated, ⟨free, rfl⟩ | ⟨_, grouped, _⟩⟩ := conditionFragment_cases conditioned
    · have sound := sound.offered offers
      have sound := sound.filtered free (inherited_local.scalarTerm sound.fields translated)
      have later := le_of_offers offers
      rcases columns with ⟨_, rfl, rfl⟩ | ⟨_, projected⟩
      · exact ⟨_, rfl, by omega, .apart rfl, sound.projected sound.fields (List.Subset.refl _)⟩
      · obtain ⟨b', rfl, later', used, sound⟩ := sound_projectFragment sound projected
        exact ⟨b', rfl, by omega, .apart used, sound⟩
    · cases grouped

theorem sound_scanned {table : Table} (path : table.path ≠ []) : (scanned table).Sound (.scan h table) := by
  have label : table.physicalTable = table.path.getLast?.getD "" := by
    rw [Table.physicalTable, List.getLast?_eq_some_getLast path]
    rfl
  have within : (scanned table).within = [] := rfl
  refine ⟨congrArg (fun name => [name]) label, ⟨rfl, rfl, rfl⟩, fun _ => rfl,
    fun t mem => (local_plainColumns t mem).mono (List.nil_subset _), nofun,
    nofun, ?_, fun whole => ?_⟩
  · exact nofun
  · rw [within]
    refine iff_of_true ⟨List.nodup_singleton _, nofun⟩ fun n mem => ?_
    rw [List.mem_singleton.1 mem]
    exact fun _ => id

theorem stands_fragment (each : ∀ n ∈ p.nodes, n.Labelled) (written : fragment d p next = .ok (f, after)) :
    f.Stands p next after := by
  revert next f after
  apply p.induction_nodes
  intro n node ih next f after written
  have here := each n node
  cases n with
  | scan h table =>
    cases written
    exact ⟨_, rfl, Nat.le_refl _, .table rfl rfl rfl local_plainColumns, sound_scanned here.1⟩
  | calculate h program input =>
    obtain ⟨⟨f, middle⟩, made, written⟩ := bind_eq_ok.1 written
    have ungrouped : (groupKeys? input).isSome = false := by
      have labelled := each input (Plan.mem_nodes_trans (Plan.mem_nodes_of_input (.head _)) node)
      cases input with
      | aggregate => exact labelled.elim
      | _ => rfl
    rw [ungrouped] at written
    exact stands_programFragment (ih input (.head _) made) written
  | join h kind on left right =>
    have second : right ∈ (Plan.join h kind on left right).inputs := .tail _ (.head _)
    have whole := Plan.forall_nodes_of_node each node
    obtain ⟨⟨l, middle⟩, first, written⟩ := bind_eq_ok.1 written
    obtain ⟨⟨r, last⟩, later, written⟩ := bind_eq_ok.1 written
    exact stands_joinFragment (ih left (.head _) first) (ih right second later)
      (Plan.standing_names (Plan.forall_nodes_of_mem whole (.head _)))
      (Plan.standing_names (Plan.forall_nodes_of_mem whole second)) written
  | _ => exact here.elim

end Plans

/-- In the statement of a plan of tables, programs and joins, the labels of every block are distinct if and only if no
join that lists its sides clashes, and so are the labels in every scope if and only if no join clashes at all. Every
qualified column has the label of a source in its scope, so that then it has exactly one. -/
theorem labels_distinct_iff (d : Dialect) (p : Plan) (each : ∀ n ∈ p.nodes, n.Labelled) (s : Statement)
    (written : statement d p = .ok s) :
    ((∀ block ∈ s.blocks, block.2.labels.Nodup) ↔ ∀ n ∈ p.nodes, n.isListing = true → ¬n.Clashes) ∧
      ((∀ block ∈ s.blocks, block.1.Nodup) ↔ ∀ n ∈ p.nodes, ¬n.Clashes) ∧
      ∀ block ∈ s.blocks, ∀ label name, (some label, name) ∈ block.2.references → label ∈ block.1 := by
  rcases statement_cases written with ⟨f, after, made, rfl⟩ | ⟨h, table, op, input, rfl, _⟩
  · obtain ⟨b, rfl, _, _, sound⟩ := stands_fragment each made
    obtain ⟨anchored, distinct⟩ := sound.toQuery
    refine ⟨(distinct false).trans ?_, (distinct true).trans ?_, anchored⟩
    · simp only [Plan.Separates, Bool.false_eq_true, false_or]
    · simp only [Plan.Separates, true_or, forall_const]
  · exact (each _ (Plan.mem_nodes_self _)).elim

/-- A table joined with itself twice, from the left, and a table joined with a join in which it is again. -/
theorem labels_distinct_iff_nested :
    let head (names : List String) : Head := ⟨⟨names.map fun name => ⟨name, .integer, false⟩⟩, .logical⟩
    let scan (name : String) := Plan.ofTable (Table.named name (head ["x"]).rowType)
    let on := Expr.call .eq [.ref 0 .integer false, .ref 1 .integer false] .boolean
    let join (names : List String) (left right : Plan) := Plan.join (head names) .inner on left right
    let fromLeft := join ["x", "x0", "x1"] (join ["x", "x0"] (scan "a") (scan "a")) (scan "a")
    let fromRight := join ["x", "x0", "x1"] (scan "a") (join ["x", "x0"] (scan "a") (scan "b"))
    (∃ s, statement .ansi fromLeft = .ok s ∧ ∀ block ∈ s.blocks, block.1.Nodup) ∧
      ∃ s, statement .ansi fromRight = .ok s ∧ ¬∀ block ∈ s.blocks, block.2.labels.Nodup := by
  intro head scan on join fromLeft fromRight
  have apart (name : String) (other : name.toList.head? ≠ some 't') : ∀ k, name ≠ derivedName k := by
    rintro k rfl
    simp [derivedName] at other
  have a : (scan "a").Labelled := ⟨List.cons_ne_nil _ _, apart "a" (by decide)⟩
  have b : (scan "b").Labelled := ⟨List.cons_ne_nil _ _, apart "b" (by decide)⟩
  have left : ∀ n ∈ fromLeft.nodes, n.Labelled ∧ ¬n.Clashes := by
    have nodes : fromLeft.nodes =
        [fromLeft, join ["x", "x0"] (scan "a") (scan "a"), scan "a", scan "a", scan "a"] := rfl
    rw [nodes]
    simp only [List.forall_mem_cons]
    exact ⟨⟨trivial, nofun⟩, ⟨trivial, nofun⟩, ⟨a, id⟩, ⟨a, id⟩, ⟨a, id⟩, fun _ mem => absurd mem List.not_mem_nil⟩
  have right : ∀ n ∈ fromRight.nodes, n.Labelled := by
    have nodes : fromRight.nodes =
        [fromRight, scan "a", join ["x", "x0"] (scan "a") (scan "b"), scan "a", scan "b"] := rfl
    rw [nodes]
    simp only [List.forall_mem_cons]
    exact ⟨trivial, a, trivial, a, b, fun _ mem => absurd mem List.not_mem_nil⟩
  refine ⟨⟨_, rfl, ?_⟩, ⟨_, rfl, fun distinct => ?_⟩⟩
  · exact (labels_distinct_iff .ansi fromLeft (fun n mem => (left n mem).1) _ rfl).2.1.2 fun n mem => (left n mem).2
  · refine (labels_distinct_iff .ansi fromRight right _ rfl).1.1 distinct fromRight (Plan.mem_nodes_self _) rfl ?_
    exact ⟨["a", "b"], rfl, "a", List.mem_cons_self, List.mem_cons_self⟩

end Sql

end FederatedQuery
