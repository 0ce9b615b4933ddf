import FederatedQuery.Proofs.Sql.Steps

/-!
Ordered blocks and the sorts they carry. A block that orders or limits its rows carries a sort, and so do blocks inside
it. Each operator passes on what the fragment of its input carries. A sort adds itself, and a sort without keys takes
the place of an order that was the last clause of its input.
-/
namespace FederatedQuery

namespace Plan

/-- A sort that has keys or limits. -/
def isSorting : Plan → Bool
  | sort _ collation offset fetch _ => !collation.isEmpty || (offset.isSome || fetch.isSome)
  | _ => false

/-- The sort whose order is the last clause of the fragment of a plan. -/
def openSort? : Plan → Option Plan
  | p@(sort _ collation offset fetch _) =>
    if !collation.isEmpty && !(offset.isSome || fetch.isSome) then some p else none
  | calculate _ program input => if program.isTrivial then input.openSort? else none
  | setOp _ _ _ first [] => first.openSort?
  | _ => none

/-- The sort whose order is written over by a sort without keys. -/
def overwritten? : Plan → Option Plan
  | sort _ [] _ _ input => input.openSort?
  | _ => none

theorem overwritten?_sort (h : Head) (collation : Collation) (offset fetch : Option Nat) (input : Plan) :
    (sort h collation offset fetch input).overwritten? = if collation = [] then input.openSort? else none := by
  cases collation <;> rfl

end Plan

namespace Sql

/-- Whether a block orders or limits its rows. -/
def Select.isOrdered (s : Select) : Bool := !s.orderBy.isEmpty || s.offset.isSome || s.fetch.isSome

def Query.ordered (q : Query) : List Select := q.selects.filter Select.isOrdered

def Term.ordered (t : Term) : List Select := t.queries.flatMap Query.ordered

/-- A block has the keys and the limits of a sort, over the fields of the sort's input. -/
def Carries (d : Dialect) : Plan → Select → Prop
  | .sort _ collation offset fetch input, s => ∃ next f middle b after keys projection,
    fragment d input next = .ok (f, middle) ∧ f.Offers middle b after ∧
      collation.mapM (orderTerms d b.fields) = .ok keys ∧
      s = Block.toSelect
        { b with orderBy := sortOrder d (offset.isSome || fetch.isSome) keys, offset, fetch } projection
  | _, _ => False

section Ordered

theorem ordered_select (s : Select) : (Query.select s).ordered =
    [s].filter Select.isOrdered ++ (s.derived.flatMap Query.ordered ++ s.terms.flatMap Term.ordered) := by
  rw [Query.ordered, selects_select, ← List.singleton_append, List.filter_append, List.filter_append,
    List.filter_flatMap, List.filter_flatMap, Select.subqueries, List.flatMap_assoc]
  rfl

theorem ordered_setOp (op : SetOp) (all : Bool) (inputs : List Query) :
    (Query.setOp op all inputs).ordered = inputs.flatMap Query.ordered := by
  rw [Query.ordered, selects_setOp, List.filter_flatMap]
  rfl

theorem ordered_flattened (op : SetOp) (all first : Bool) (q : Query) :
    (flattened op all first q).flatMap Query.ordered = q.ordered := by
  rw [Query.ordered, ← selects_flattened op all first q, List.filter_flatMap]
  rfl

theorem ordered_anyOrder : anyOrder.1.ordered = [] := by
  simp [anyOrder, Term.ordered, Term.queries, Term.leaves, Term.query?, ordered_select, Select.isOrdered,
    Select.derived, Select.terms, Select.empty]

theorem queries_anyOrder : anyOrder.1.queries ≠ [] := by
  simp [anyOrder, Term.queries, Term.leaves, Term.query?]

end Ordered

section Matched

variable {d : Dialect} {sorts : List Plan} {blocks : List Select} {sorts' : List Plan}

/-- Sorts and blocks belong together one to one. -/
def Matched (d : Dialect) (sorts : List Plan) (blocks : List Select) : Prop :=
  ∃ order, sorts.Perm order ∧ List.Forall₂ (Carries d) order blocks

theorem matched_nil : Matched d [] [] := ⟨[], .nil, .nil⟩

theorem Matched.append {blocks' : List Select} (first : Matched d sorts blocks)
    (second : Matched d sorts' blocks') : Matched d (sorts ++ sorts') (blocks ++ blocks') := by
  obtain ⟨order, same, carried⟩ := first
  obtain ⟨order', same', carried'⟩ := second
  exact ⟨order ++ order', same.append same', List.rel_append carried carried'⟩

theorem Matched.cons {n : Plan} {s : Select} (here : Carries d n s) (rest : Matched d sorts blocks) :
    Matched d (n :: sorts) (s :: blocks) :=
  .append ⟨[n], .refl _, .cons here .nil⟩ rest

theorem Matched.perm (matched : Matched d sorts blocks) (same : sorts'.Perm sorts) : Matched d sorts' blocks := by
  obtain ⟨order, same', carried⟩ := matched
  exact ⟨order, same.trans same', carried⟩

end Matched

section Blocks

variable {d : Dialect} {f made : Fragment} {b b' : Block} {next after : Nat} {opened : Option Plan} {kept : List Plan}
  {names : List String} {t : Term}

/-- A clause that is not in use is empty. -/
structure Block.Mirrored (b : Block) : Prop where
  filter : .filter ∉ b.clauses → b.filter = none
  groupBy : .groupBy ∉ b.clauses → b.groupBy = []
  having : .having ∉ b.clauses → b.having = none
  orderBy : .orderBy ∉ b.clauses → b.orderBy = []
  limits : .fetch ∉ b.clauses → b.offset = none ∧ b.fetch = none

/-- Outside its source and its condition, a block has no subquery that orders or limits rows. -/
structure Block.Plain (b : Block) : Prop where
  fields : ∀ t ∈ b.fields, t.queries = []
  source : ∀ t ∈ b.source.terms, t.ordered = []
  groupBy : ∀ t ∈ b.groupBy, t.ordered = []
  having : ∀ t ∈ b.having, t.ordered = []
  orderBy : ∀ t ∈ b.orderBy.map Prod.fst, t.ordered = []

def Block.inner (b : Block) : List Select :=
  b.source.queries.flatMap Query.ordered ++ b.filter.toList.flatMap Term.ordered

/-- The sort that a block carries itself, if any. It is open where an order is the last clause. -/
inductive Block.Top (d : Dialect) (b : Block) : Option Plan → List Plan → Prop
  | none (orderBy : b.orderBy = []) (offset : b.offset = .none) (fetch : b.fetch = .none) : Top d b .none []
  | pending (n : Plan) (ordered : b.orderBy ≠ []) (plain : ∀ t ∈ b.orderBy.map Prod.fst, t.queries = [])
      (unlimited : .fetch ∉ b.clauses) (carries : ∀ projection, Carries d n (b.toSelect projection)) :
      Top d b (.some n) [n]
  | limited (n : Plan) (ordered : b.offset.isSome || b.fetch.isSome) (limited : .fetch ∈ b.clauses)
      (carries : ∀ projection, Carries d n (b.toSelect projection)) : Top d b .none [n]

/-- A block carries some sorts, of which one can be open. -/
structure Block.Accounts (d : Dialect) (opened : Option Plan) (kept : List Plan) (b : Block) : Prop where
  mirrored : b.Mirrored
  plain : b.Plain
  sorts : ∃ top inner, b.Top d opened top ∧ Matched d inner b.inner ∧ kept.Perm (top ++ inner)

def Fragment.Accounts (d : Dialect) (opened : Option Plan) (kept : List Plan) : Fragment → Prop
  | .block b => b.Accounts d opened kept
  | .finished q _ => opened = none ∧ Matched d kept q.ordered

theorem Term.ordered_of_queries (free : t.queries = []) : t.ordered = [] := by
  rw [Term.ordered, free, List.flatMap_nil]

theorem ordered_toSelect (plain : b.Plain) {projection : List (Term × Option String)}
    (among : ∀ item ∈ projection, item.1 ∈ b.fields) : (Query.select (b.toSelect projection)).ordered =
      [b.toSelect projection].filter Select.isOrdered ++ b.inner := by
  have projected : (projection.map Prod.fst).flatMap Term.ordered = [] := by
    rw [List.flatMap_eq_nil_iff]
    intro t mem
    obtain ⟨item, inside, rfl⟩ := List.mem_map.1 mem
    exact Term.ordered_of_queries (plain.fields _ (among item inside))
  have having : b.having.toList.flatMap Term.ordered = [] :=
    List.flatMap_eq_nil_iff.2 fun t mem => plain.having t (Option.mem_toList.1 mem)
  rw [ordered_select, Block.inner]
  simp [Select.terms, Select.derived, Block.toSelect, projected, having, List.flatMap_eq_nil_iff.2 plain.source,
    List.flatMap_eq_nil_iff.2 plain.groupBy, List.flatMap_eq_nil_iff.2 plain.orderBy]

theorem Block.Accounts.toQuery (accounts : b.Accounts d opened kept) : Matched d kept b.toQuery.ordered := by
  obtain ⟨top, inner, here, matched, all⟩ := accounts.sorts
  obtain ⟨projection, same, among⟩ := exists_toSelect b
  rw [same, ordered_toSelect accounts.plain among]
  refine Matched.perm ?_ all
  cases here with
  | none orderBy offset fetch =>
    have unordered : (b.toSelect projection).isOrdered = false := by
      simp [Select.isOrdered, Block.toSelect, orderBy, offset, fetch]
    rw [List.filter_cons_of_neg (Bool.eq_false_iff.1 unordered)]
    exact matched
  | pending n ordered plain unlimited carries =>
    have ordered : (b.toSelect projection).isOrdered = true := by
      simp [Select.isOrdered, Block.toSelect, ordered]
    rw [List.filter_cons_of_pos ordered]
    exact .cons (carries projection) matched
  | limited n limits limited carries =>
    have ordered : (b.toSelect projection).isOrdered = true := by
      rw [Select.isOrdered, Bool.or_assoc]
      exact Bool.or_eq_true_iff.2 (.inr limits)
    rw [List.filter_cons_of_pos ordered]
    exact .cons (carries projection) matched

theorem Fragment.Accounts.toQuery (accounts : f.Accounts d opened kept) : Matched d kept f.toQuery.ordered := by
  cases f with
  | block => exact Block.Accounts.toQuery accounts
  | finished => exact accounts.2

theorem accounts_ofSource {source : Source} (qualifiers : List String) {fields : List Term} (names : List String)
    (terms : ∀ t ∈ source.terms, t.ordered = []) (plain : ∀ t ∈ fields, t.queries = [])
    (matched : Matched d kept (source.queries.flatMap Query.ordered)) :
    (Block.ofSource source qualifiers fields names).Accounts d none kept where
  mirrored := ⟨fun _ => rfl, fun _ => rfl, fun _ => rfl, fun _ => rfl, fun _ => ⟨rfl, rfl⟩⟩
  plain := ⟨plain, terms, nofun, nofun, nofun⟩
  sorts := ⟨[], kept, .none rfl rfl rfl, by simpa [Block.inner, Block.ofSource] using matched, .refl _⟩

theorem queries_plainColumns (mem : t ∈ plainColumns names) : t.queries = [] := by
  obtain ⟨name, _, rfl⟩ := List.mem_map.1 mem
  rfl

theorem Fragment.Accounts.derived (accounts : f.Accounts d opened kept) (next : Nat) :
    (f.derived next).Accounts d none kept := by
  refine accounts_ofSource _ _ nofun (fun t => queries_plainColumns) ?_
  simpa [Source.queries] using accounts.toQuery

theorem Fragment.Accounts.offered (accounts : f.Accounts d opened kept) (offers : f.Offers next b after) :
    ∃ opened', b.Accounts d opened' kept ∧ (opened = none → opened' = none) := by
  cases offers with
  | own => exact ⟨opened, accounts, id⟩
  | derived => exact ⟨none, accounts.derived next, fun _ => rfl⟩

theorem Block.Accounts.unordered (accounts : b.Accounts d opened kept) (closed : opened = none ∨ .orderBy ∉ b.clauses)
    (limits : .fetch ∉ b.clauses) : Matched d kept b.inner ∧ b.orderBy = [] ∧ b.offset = none ∧ b.fetch = none := by
  obtain ⟨top, inner, here, matched, all⟩ := accounts.sorts
  cases here with
  | none orderBy offset fetch => exact ⟨matched.perm all, orderBy, offset, fetch⟩
  | pending n ordered =>
    have unordered := closed.resolve_left (Option.some_ne_none n)
    exact absurd (accounts.mirrored.orderBy unordered) ordered
  | limited _ _ limited => exact absurd limited limits

/-- Clauses before the order can be written into a block without an order. -/
theorem Block.Accounts.written (accounts : b.Accounts d opened kept) (order : .orderBy ∉ b.clauses)
    (limits : .fetch ∉ b.clauses) (mirrored : b'.Mirrored) (plain : b'.Plain) (same : b'.inner = b.inner)
    (orderBy : b'.orderBy = b.orderBy) (offset : b'.offset = b.offset) (fetch : b'.fetch = b.fetch) :
    b'.Accounts d none kept := by
  obtain ⟨matched, unordered, start, count⟩ := accounts.unordered (.inr order) limits
  refine ⟨mirrored, plain, [], kept, .none (orderBy.trans unordered) (offset.trans start) (fetch.trans count), ?_,
    .refl _⟩
  rw [same]
  exact matched

end Blocks

section Steps

variable {d : Dialect} {f made : Fragment} {b b' : Block} {next after : Nat} {opened : Option Plan} {kept : List Plan}
  {names : List String} {collation : Collation} {input : Plan} {grouped : Bool} {fields : List Term}
  {keys : List (List (Term × Bool × Option Bool))} {start : Nat}

/-- Of the clauses of a block, those that are not empty stay as they are. -/
structure Block.Grows (b b' : Block) : Prop where
  source : b'.source = b.source
  filter : b.filter = none ∨ b'.filter = b.filter
  groupBy : b.groupBy = [] ∨ b'.groupBy = b.groupBy
  having : b.having = none ∨ b'.having = b.having
  orderBy : b.orderBy = [] ∨ b'.orderBy = b.orderBy
  offset : b.offset = none ∨ b'.offset = b.offset
  fetch : b.fetch = none ∨ b'.fetch = b.fetch

/-- A fragment with other names, or a block in which a fragment is continued. -/
def Fragment.Extended (f : Fragment) (next : Nat) (made : Fragment) : Prop :=
  (∃ names, made = f.renamed names) ∨ ∃ b b' after, f.Offers next b after ∧ made = .block b' ∧ b.Grows b'

theorem Block.Grows.trans {b'' : Block} (first : b.Grows b') (second : b'.Grows b'') : b.Grows b'' where
  source := second.source.trans first.source
  filter := by grind [first.filter, second.filter]
  groupBy := by grind [first.groupBy, second.groupBy]
  having := by grind [first.having, second.having]
  orderBy := by grind [first.orderBy, second.orderBy]
  offset := by grind [first.offset, second.offset]
  fetch := by grind [first.fetch, second.fetch]

/-- More clauses are in use, and no other has changed. -/
theorem Block.Mirrored.grow (mirrored : b.Mirrored) (used : b.clauses ⊆ b'.clauses)
    (filter : .filter ∈ b'.clauses ∨ b'.filter = b.filter) (groupBy : .groupBy ∈ b'.clauses ∨ b'.groupBy = b.groupBy)
    (having : .having ∈ b'.clauses ∨ b'.having = b.having) (orderBy : .orderBy ∈ b'.clauses ∨ b'.orderBy = b.orderBy)
    (limits : .fetch ∈ b'.clauses ∨ b'.offset = b.offset ∧ b'.fetch = b.fetch) : b'.Mirrored where
  filter unused := (filter.resolve_left unused).trans (mirrored.filter fun mem => unused (used mem))
  groupBy unused := (groupBy.resolve_left unused).trans (mirrored.groupBy fun mem => unused (used mem))
  having unused := (having.resolve_left unused).trans (mirrored.having fun mem => unused (used mem))
  orderBy unused := (orderBy.resolve_left unused).trans (mirrored.orderBy fun mem => unused (used mem))
  limits unused := by
    obtain ⟨offset, fetch⟩ := mirrored.limits fun mem => unused (used mem)
    obtain ⟨offset', fetch'⟩ := limits.resolve_left unused
    exact ⟨offset'.trans offset, fetch'.trans fetch⟩

theorem queries_qualified (label : String) (t : Term) : (qualified label t).queries = t.queries := by
  rcases t with ⟨_ | qualifier, name⟩ | _ | _ | _ | _ | _ | _ | _ | _ | _ | _ | _ | _ | _ | _ <;> rfl

section

variable (accounts : f.Accounts d opened kept)

include accounts

theorem Fragment.Accounts.renamed (names : List String) : (f.renamed names).Accounts d opened kept := by
  cases f with
  | finished => exact accounts
  | block =>
    obtain ⟨mirrored, plain, top, inner, here, matched, all⟩ := accounts
    refine ⟨mirrored.grow (List.Subset.refl _) (.inr rfl) (.inr rfl) (.inr rfl) (.inr rfl) (.inr ⟨rfl, rfl⟩),
      { plain with }, top, inner, ?_, matched, all⟩
    cases here with
    | none orderBy offset fetch => exact .none orderBy offset fetch
    | pending n ordered plain unlimited carries => exact .pending n ordered plain unlimited carries
    | limited n limits limited carries => exact .limited n limits limited carries

/-- A condition is written where there is none, and a projection can follow in the same block. -/
theorem Fragment.Accounts.condition {condition : Expr}
    (written : conditionFragment d grouped condition f next = .ok (made, after)) :
    ∃ b b', f.Offers next b after ∧ made = .block b' ∧ b.Grows b' ∧ b'.reaches .projection = false ∧
      b'.Accounts d none kept := by
  obtain ⟨b, t, offers, translated, written⟩ := conditionFragment_cases written
  obtain ⟨opened, accounts, -⟩ := accounts.offered offers
  have quiet := inherited_queries.scalarTerm accounts.plain.fields translated
  rcases written with ⟨free, rfl⟩ | ⟨rfl, _, ends, rfl⟩
  · have unused := accounts.mirrored.filter (Block.not_mem_of_reaches free (by decide))
    refine ⟨b, _, offers, rfl, ⟨rfl, .inl unused, .inr rfl, .inr rfl, .inr rfl, .inr rfl, .inr rfl⟩, ?_, ?_⟩
    · have later : b.reaches .projection = false := Block.reaches_of_le free (by decide)
      exact later
    · refine accounts.written (Block.not_mem_of_reaches free (by decide)) (Block.not_mem_of_reaches free (by decide))
        (accounts.mirrored.grow (List.subset_cons_self _ _) (.inl (.head _)) (.inr rfl) (.inr rfl) (.inr rfl)
          (.inr ⟨rfl, rfl⟩))
        { accounts.plain with } ?_ rfl rfl rfl
      simp [Block.inner, unused, Term.ordered_of_queries quiet]
  · have unused := accounts.mirrored.having (Block.not_mem_of_endsBy ends (by decide))
    refine ⟨b, _, offers, rfl, ⟨rfl, .inr rfl, .inr rfl, .inl unused, .inr rfl, .inr rfl, .inr rfl⟩, ?_, ?_⟩
    · have later : b.reaches .projection = false := Block.reaches_of_endsBy ends (by decide)
      exact later
    · refine accounts.written (Block.not_mem_of_endsBy ends (by decide)) (Block.not_mem_of_endsBy ends (by decide))
        (accounts.mirrored.grow (List.subset_cons_self _ _) (.inr rfl) (.inr rfl) (.inl (.head _)) (.inr rfl)
          (.inr ⟨rfl, rfl⟩))
        { accounts.plain with having := ?_ } rfl rfl rfl rfl
      rintro _ ⟨⟩
      exact Term.ordered_of_queries quiet

theorem Fragment.Accounts.project {projects : List Expr}
    (written : projectFragment d projects names f next = .ok (made, after)) :
    ∃ b b', f.readyFor .projection next = (b, after) ∧ made = .block b' ∧ b.Grows b' ∧ b'.Accounts d none kept := by
  obtain ⟨b, fields, ready, translated, rfl⟩ := projectFragment_cases written
  obtain ⟨opened, accounts, -⟩ := accounts.offered (offers_of_readyFor ready)
  have free := reaches_of_readyFor (by decide) ready
  refine ⟨b, _, ready, rfl, ⟨rfl, .inr rfl, .inr rfl, .inr rfl, .inr rfl, .inr rfl, .inr rfl⟩, ?_⟩
  refine accounts.written (Block.not_mem_of_reaches free (by decide)) (Block.not_mem_of_reaches free (by decide))
    (accounts.mirrored.grow (List.subset_cons_self _ _) (.inr rfl) (.inr rfl) (.inr rfl) (.inr rfl) (.inr ⟨rfl, rfl⟩))
    { accounts.plain with fields := inherited_queries.scalarTerms accounts.plain.fields translated } rfl rfl rfl rfl

/-- A program that does nothing leaves an order open, and any other closes it. -/
theorem Fragment.Accounts.program {program : Program}
    (written : programFragment d grouped program names f next = .ok (made, after)) :
    f.Extended next made ∧ made.Accounts d (if program.isTrivial then opened else none) kept := by
  obtain ⟨middle, between, conditioned, columns⟩ := programFragment_cases written
  rcases conditioned with ⟨unconditional, rfl, rfl⟩ | ⟨condition, conditional, conditioned⟩
  · rw [Program.isTrivial, unconditional]
    rcases columns with ⟨identity, rfl, rfl⟩ | ⟨other, projected⟩
    · rw [identity]
      exact ⟨.inl ⟨names, rfl⟩, accounts.renamed names⟩
    · rw [other]
      obtain ⟨b, b', ready, rfl, grows, accounts⟩ := accounts.project projected
      exact ⟨.inr ⟨b, b', after, offers_of_readyFor ready, rfl, grows⟩, accounts⟩
  · rw [Program.isTrivial, conditional]
    obtain ⟨b, b', offers, rfl, grows, free, accounts⟩ := accounts.condition conditioned
    have accounts : (Fragment.block b').Accounts d Option.none kept := accounts
    rcases columns with ⟨identity, rfl, rfl⟩ | ⟨other, projected⟩
    · refine ⟨.inr ⟨b, _, _, offers, rfl, grows.trans ?_⟩, accounts.renamed names⟩
      exact ⟨rfl, .inr rfl, .inr rfl, .inr rfl, .inr rfl, .inr rfl, .inr rfl⟩
    · obtain ⟨c, c', ready, rfl, grows', accounts⟩ := accounts.project projected
      rw [readyFor_own free] at ready
      cases ready
      exact ⟨.inr ⟨b, c', _, offers, rfl, grows.trans grows'⟩, accounts⟩

theorem Fragment.Accounts.aggregate {inner : Option Nat} {group : List Nat} {calls : List AggCall}
    (written : aggregateFragment d inner group calls names f next = .ok (made, after)) :
    f.Extended next made ∧ made.Accounts d none kept := by
  obtain ⟨b, results, offers, called, written⟩ := aggregateFragment_cases written
  obtain ⟨opened, accounts, -⟩ := accounts.offered offers
  have results' := (inherited_queries (d := d)).aggregateTerms accounts.plain.fields called
  rcases written with ⟨rfl, ends, _, rfl⟩ | ⟨free, keys, keyed, rfl⟩
  · refine ⟨.inr ⟨b, _, after, offers, rfl, ⟨rfl, .inr rfl, .inr rfl, .inr rfl, .inr rfl, .inr rfl, .inr rfl⟩⟩, ?_⟩
    exact accounts.written (Block.not_mem_of_endsBy ends (by decide)) (Block.not_mem_of_endsBy ends (by decide))
      (accounts.mirrored.grow (List.subset_cons_self _ _) (.inr rfl) (.inr rfl) (.inr rfl) (.inr rfl) (.inr ⟨rfl, rfl⟩))
      { accounts.plain with fields := results' } rfl rfl rfl rfl
  · have unused := accounts.mirrored.groupBy (Block.not_mem_of_reaches free (by decide))
    refine ⟨.inr ⟨b, _, after, offers, rfl, ⟨rfl, .inr rfl, .inl unused, .inr rfl, .inr rfl, .inr rfl, .inr rfl⟩⟩, ?_⟩
    have keys' := fun t mem => accounts.plain.fields t (mem_of_fieldTerms keyed t mem)
    exact accounts.written (Block.not_mem_of_reaches free (by decide)) (Block.not_mem_of_reaches free (by decide))
      (accounts.mirrored.grow (List.subset_cons_self _ _) (.inr rfl) (.inl (.head _)) (.inr rfl) (.inr rfl)
        (.inr ⟨rfl, rfl⟩))
      { accounts.plain with
        fields := List.forall_mem_append.2 ⟨keys', results'⟩
        groupBy := fun t mem => Term.ordered_of_queries (keys' t mem) } rfl rfl rfl rfl

theorem Fragment.Accounts.side {taken : List String} {s : Side}
    (same : f.side taken next = (s, after)) : Matched d kept (s.source.queries.flatMap Query.ordered) ∧
      (∀ t ∈ s.source.terms, t.ordered = []) ∧ ∀ t ∈ s.fields, t.queries = [] := by
  obtain ⟨b, middle, found, cases⟩ := side_cases taken f next
  obtain ⟨offers, bare⟩ := offers_of_bare found
  obtain ⟨opened, accounts, -⟩ := accounts.offered offers
  obtain ⟨matched, -⟩ := accounts.unordered (.inr (by rw [bare]; decide)) (by rw [bare]; decide)
  rw [Block.inner, accounts.mirrored.filter (by rw [bare]; decide), Option.toList_none, List.flatMap_nil,
    List.append_nil] at matched
  have fields (label : String) : ∀ t ∈ b.fields.map (qualified label), t.queries = [] := by
    refine List.forall_mem_map.2 fun t mem => ?_
    rw [queries_qualified]
    exact accounts.plain.fields t mem
  rcases cases with ⟨_, _, _, _, _, found⟩ | ⟨path, label, source, _, found⟩ | ⟨_, _, found⟩ <;>
    (rw [found] at same; cases same)
  · exact ⟨matched, accounts.plain.source, accounts.plain.fields⟩
  · rw [source] at matched
    exact ⟨matched, nofun, fields _⟩
  · exact ⟨matched, accounts.plain.source, fields _⟩

end

theorem accounts_joinFragment {kind : JoinKind} {on : Expr} {left right : Fragment} {opened' : Option Plan}
    {kept' : List Plan} (first : left.Accounts d opened kept) (second : right.Accounts d opened' kept')
    (written : joinFragment d kind on names left right next = .ok (made, after)) :
    made.Accounts d none (kept ++ kept') := by
  obtain ⟨l, middle, r, t, one, other, translated, written⟩ := joinFragment_cases written
  obtain ⟨matched, terms, fields⟩ := first.side one
  obtain ⟨matched', terms', fields'⟩ := second.side other
  have both := List.forall_mem_append.2 ⟨fields, fields'⟩
  have quiet := Term.ordered_of_queries (inherited_queries.scalarTerm both translated)
  rcases written with ⟨_, rfl⟩ | ⟨_, rfl⟩
  · have source := accounts_ofSource l.qualifiers names terms fields matched
    refine ⟨⟨fun free => absurd (.head _) free, fun _ => rfl, fun _ => rfl, fun _ => rfl,
      fun _ => ⟨rfl, rfl⟩⟩, { source.plain with }, [], _, .none rfl rfl rfl, ?_, .refl _⟩
    -- The sorts of the right side are inside the test, so they are counted with the condition.
    have tests : (Query.select (r.test t)).ordered = r.source.queries.flatMap Query.ordered := by
      have unordered : (r.test t).terms.flatMap Term.ordered = [] := by
        refine List.flatMap_eq_nil_iff.2 fun u mem => ?_
        rcases mem_terms_test.1 mem with mem | rfl
        · exact terms' u mem
        · exact quiet
      rw [ordered_select, unordered, List.append_nil]
      rfl
    simpa [Block.inner, Block.ofSource, Term.ordered, Term.queries, Term.leaves, Term.query?, tests] using
      matched.append matched'
  · refine accounts_ofSource _ _ ?_ both ?_
    · simp only [Source.terms, List.mem_cons, List.mem_append]
      rintro u (rfl | mem | mem)
      · exact quiet
      · exact terms u mem
      · exact terms' u mem
    · rw [Source.queries, List.flatMap_append]
      exact matched.append matched'

theorem orderTerms_ne_nil {key : SortKey} {items : List (Term × Bool × Option Bool)}
    (written : orderTerms d fields key = .ok items) : items ≠ [] := by
  obtain ⟨t, _, written⟩ := bind_eq_ok.1 written
  cases written
  split <;> exact List.cons_ne_nil _ _

variable {offset fetch : Option Nat}

/-- A block with the keys and the limits of a sort carries it. The sort is open if it has keys and no limits. -/
theorem top_sorted {h : Head}
    (plain : ∀ t ∈ fields, t.queries = []) (found : collation.mapM (orderTerms d fields) = .ok keys)
    (orderBy : b.orderBy = sortOrder d (offset.isSome || fetch.isSome) keys) (start : b.offset = offset)
    (count : b.fetch = fetch) (limited : .fetch ∈ b.clauses ↔ (offset.isSome || fetch.isSome) = true)
    (carries : ∀ projection, Carries d (.sort h collation offset fetch input) (b.toSelect projection)) :
    b.Top d (Plan.sort h collation offset fetch input).openSort?
      ([Plan.sort h collation offset fetch input].filter Plan.isSorting) := by
  have terms := sortOrder_cases found (offset.isSome || fetch.isSome)
  rw [← orderBy] at terms
  cases bounds : offset.isSome || fetch.isSome with
  | true =>
    have sorting : (Plan.sort h collation offset fetch input).isSorting = true := by
      rw [Plan.isSorting, bounds, Bool.or_true]
    have closed : (Plan.sort h collation offset fetch input).openSort? = none := by
      rw [Plan.openSort?, bounds, Bool.not_true, Bool.and_false, if_neg Bool.false_ne_true]
    rw [List.filter_cons_of_pos sorting, closed]
    exact .limited _ (by rw [start, count, bounds]) (limited.2 bounds) carries
  | false =>
    have unlimited : .fetch ∉ b.clauses := fun mem => Bool.false_ne_true (bounds.symm.trans (limited.1 mem))
    simp only [Bool.or_eq_false_iff, Option.isSome_eq_false_iff, Option.isNone_iff_eq_none] at bounds
    obtain ⟨rfl, rfl⟩ := bounds
    cases collation with
    | nil =>
      cases found
      exact .none orderBy start count
    | cons =>
      obtain ⟨items, others, first, _, rfl⟩ := List.forall₂_cons_left_iff.1 (mapM_eq_ok.1 found)
      have ordered : b.orderBy ≠ [] := by
        rw [orderBy]
        exact fun empty => orderTerms_ne_nil first (List.append_eq_nil_iff.1 empty).1
      have within := terms.resolve_right fun empty => List.cons_ne_nil _ _ empty.1
      exact .pending _ ordered (List.forall_mem_map.2 (within _ inherited_queries plain)) unlimited carries

theorem accounts_sorted (h : Head)
    (below : fragment d input start = .ok (f, next)) (offers : f.Offers next b after) (mirrored : b.Mirrored)
    (plain : b.Plain) (free : .fetch ∉ b.clauses) (matched : Matched d kept b.inner)
    (found : collation.mapM (orderTerms d b.fields) = .ok keys) {orderBy : List (Term × Bool × Option Bool)}
    {clauses : List Clause} (order : orderBy = sortOrder d (offset.isSome || fetch.isSome) keys)
    (used : clauses = (if orderBy.isEmpty then [] else [.orderBy]) ++
      (if offset.isSome || fetch.isSome then [.fetch] else []) ++ b.clauses) :
    Block.Accounts d (Plan.sort h collation offset fetch input).openSort?
      ([Plan.sort h collation offset fetch input].filter Plan.isSorting ++ kept)
      { b with orderBy, offset, fetch, clauses } := by
  have quiet : ∀ t ∈ orderBy.map Prod.fst, t.ordered = [] := by
    rw [order]
    rcases sortOrder_cases found (offset.isSome || fetch.isSome) with within | ⟨_, _, any⟩
    · refine List.forall_mem_map.2 fun item mem => Term.ordered_of_queries ?_
      exact within _ inherited_queries plain.fields item mem
    · rw [any]
      simpa using ordered_anyOrder
  have more : b.clauses ⊆ clauses := by
    rw [used]
    exact List.subset_append_right _ _
  have ordered : .orderBy ∉ clauses → orderBy = [] := by
    intro unused
    by_contra nonempty
    refine unused ?_
    rw [used, if_neg (by simpa using nonempty)]
    exact .head _
  have limited : .fetch ∈ clauses ↔ (offset.isSome || fetch.isSome) = true := by
    rw [used]
    cases orderBy.isEmpty <;> cases offset.isSome || fetch.isSome <;> simp [free]
  refine ⟨⟨fun unused => mirrored.filter fun mem => unused (more mem),
    fun unused => mirrored.groupBy fun mem => unused (more mem),
    fun unused => mirrored.having fun mem => unused (more mem), ordered, fun unused => ?_⟩,
    { plain with orderBy := quiet }, _, kept, top_sorted plain.fields found order rfl rfl limited fun projection => ?_,
    matched, .refl _⟩
  · simpa using mt limited.2 unused
  · rw [order]
    exact ⟨start, f, next, b, after, keys, projection, below, offers, found, rfl⟩

theorem not_extended {order : List (Term × Bool × Option Bool)} (ordered : b.orderBy ≠ [])
    (plain : ∀ t ∈ b.orderBy.map Prod.fst, t.queries = []) (other : order = [] ∨ order = [anyOrder])
    (source : b'.source = b.source) (replaced : b'.orderBy = order) :
    ¬(Fragment.block b).Extended next (.block b') := by
  have changed : b'.orderBy ≠ b.orderBy := by
    intro same
    rw [← same, replaced] at ordered plain
    rcases other with rfl | rfl
    · exact ordered rfl
    · exact queries_anyOrder (plain _ (.head _))
  rintro (⟨names, same⟩ | ⟨c, c', after, offers, same, grows⟩)
  · cases same
    exact changed rfl
  · cases same
    cases offers with
    | own => exact grows.orderBy.elim ordered changed
    | derived =>
      -- The source of the block would be the block itself.
      have size := congrArg sizeOf (source.symm.trans grows.source)
      simp only [Fragment.derived, Block.ofSource, Fragment.toQuery, Block.toQuery, Source.derived.sizeOf_spec,
        Query.select.sizeOf_spec, Select.mk.sizeOf_spec, Option.some.sizeOf_spec] at size
      omega

theorem reaches_fetch (free : .fetch ∉ b.clauses) : b.reaches .fetch = false := by
  refine List.any_eq_false.2 fun used mem later => free ?_
  cases used with
  | fetch => exact mem
  | _ => cases later

/-- The block for a sort has no order, except that of an open sort before a sort without keys. -/
theorem Fragment.Accounts.ready (accounts : f.Accounts d opened kept)
    (ready : f.readyFor (sortClause collation) next = (b, after)) :
    b.Mirrored ∧ b.Plain ∧ .fetch ∉ b.clauses ∧
      ((collation = [] → opened = none) ∧ Matched d kept b.inner ∧ b.orderBy = [] ∧ b.offset = none ∧ b.fetch = none ∨
        ∃ n inner, collation = [] ∧ opened = some n ∧ f = .block b ∧ Matched d inner b.inner ∧
          kept.Perm (n :: inner) ∧ b.orderBy ≠ [] ∧ ∀ t ∈ b.orderBy.map Prod.fst, t.queries = []) := by
  have free := reaches_of_readyFor (position_sortClause collation) ready
  obtain ⟨opened', accounts', closed⟩ := accounts.offered (offers_of_readyFor ready)
  have unlimited : .fetch ∉ b.clauses := by
    refine Block.not_mem_of_reaches free ?_
    unfold sortClause
    split <;> decide
  refine ⟨accounts'.mirrored, accounts'.plain, unlimited, ?_⟩
  cases collation with
  | cons =>
    have unordered := accounts'.unordered (.inr (Block.not_mem_of_reaches free (Nat.le_refl _))) unlimited
    exact .inl ⟨fun empty => absurd empty (List.cons_ne_nil _ _), unordered⟩
  | nil =>
    cases opened with
    | none => exact .inl ⟨fun _ => rfl, accounts'.unordered (.inl (closed rfl)) unlimited⟩
    | some n =>
      cases f with
      | finished => exact absurd accounts.1 (Option.some_ne_none n)
      | block =>
        obtain ⟨top, inner, here, matched, all⟩ := Block.Accounts.sorts accounts
        cases here with
        | pending _ ordered plain free =>
          rw [sortClause, List.isEmpty_nil, if_pos rfl, readyFor_own (reaches_fetch free)] at ready
          cases ready
          exact .inr ⟨n, inner, rfl, rfl, rfl, matched, all, ordered, plain⟩

/-- A sort is carried by its block. Without keys it takes the place of an open order. -/
theorem Fragment.Accounts.sort (h : Head) (below : fragment d input start = .ok (f, next))
    (accounts : f.Accounts d input.openSort? kept)
    (written : sortFragment d collation offset fetch f next = .ok (made, after)) :
    (∃ kept', made.Accounts d (Plan.sort h collation offset fetch input).openSort? kept' ∧
        ([Plan.sort h collation offset fetch input].filter Plan.isSorting ++ kept).Perm
          (kept' ++ (Plan.sort h collation offset fetch input).overwritten?.toList)) ∧
      ((Plan.sort h collation offset fetch input).overwritten? = none ↔ f.Extended next made) := by
  obtain ⟨b, keys, ready, found, orderBy, clauses, order, used, rfl⟩ := sortFragment_cases written
  have offers := offers_of_readyFor ready
  obtain ⟨mirrored, plain, free, state⟩ := accounts.ready ready
  have sorted (inner : List Plan) (matched : Matched d inner b.inner) :=
    accounts_sorted h below offers mirrored plain free matched found order used
  rw [Plan.overwritten?_sort]
  rcases state with ⟨closed, matched, unordered, offset, fetch⟩ |
    ⟨n, inner, rfl, opened, rfl, matched, all, ordered, terms⟩
  · have intact : (if collation = [] then input.openSort? else none) = none := by
      split
      · next empty => exact closed empty
      · rfl
    rw [intact]
    refine ⟨⟨_, sorted kept matched, by simp⟩, iff_of_true rfl (.inr ⟨b, _, after, offers, rfl, ?_⟩)⟩
    exact ⟨rfl, .inr rfl, .inr rfl, .inr rfl, .inl unordered, .inl offset, .inl fetch⟩
  · rw [opened]
    refine ⟨⟨_, sorted inner matched, ?_⟩, iff_of_false (Option.some_ne_none n) ?_⟩
    · rw [List.append_assoc]
      exact (all.trans (List.perm_append_singleton n inner).symm).append_left _
    · cases found
      refine not_extended ordered terms ?_ rfl order
      rw [sortOrder]
      split
      · exact .inr rfl
      · exact .inl rfl

end Steps

end Sql

end FederatedQuery
