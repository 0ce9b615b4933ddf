import FederatedQuery.Proofs.Sql.Fragments
import FederatedQuery.Proofs.Sql.Parts

/-!
What an operator does to the fragment of its input. It writes its clauses into a block, which is that of its input
or a new one over it. Every column and subquery that it writes is taken from the fields of that block.
-/
namespace FederatedQuery.Sql

variable {d : Dialect} {fields : List Term} {t : Term}

section Terms

variable {ts : List Term}

theorem Term.forall_mem_leavesOf {Q : Term → Prop} : (∀ l ∈ leavesOf ts, Q l) ↔ ∀ t ∈ ts, ∀ l ∈ t.leaves, Q l := by
  induction ts with
  | nil => simp [leavesOf]
  | cons _ _ ih => rw [leavesOf, List.forall_mem_append, List.forall_mem_cons, ih]

/-- The words of calls and aggregates, before a dialect renames them. -/
def callWords : List String :=
  ["=", "<>", "<", "<=", ">", ">=", "AND", "OR", "NOT", "IS NULL", "IS NOT NULL", "IS TRUE", "IS FALSE", "+", "-", "*",
    "/", "%", "MOD", "||", "UPPER", "LOWER", "CHAR_LENGTH", "COALESCE", "COUNT", "SUM", "MIN", "MAX", "AVG"]

/-- A property that every term has that is written with terms that have it. -/
structure Inherited (d : Dialect) (P : Term → Prop) : Prop where
  literal (v : Value) : P (.literal v)
  param (index : Nat) (ty : SqlType) : P (.param index ty)
  star : P .star
  binary {symbol : String} (fixed : symbol ∈ callWords) {left right : Term} (first : P left) (second : P right) :
    P (.binary symbol left right)
  unary {symbol : String} (fixed : symbol ∈ callWords) {t : Term} (inside : P t) : P (.unary symbol t)
  suffixed {symbol : String} (fixed : symbol ∈ callWords) {t : Term} (inside : P t) : P (.suffixed t symbol)
  function {name : String} (fixed : name ∈ callWords ∨ name ∈ callWords.map d.functionName) (distinct : Bool)
    {args : List Term} (each : ∀ t ∈ args, P t) : P (.function name distinct args)
  cast (ty : SqlType) {t : Term} (inside : P t) : P (.cast t (d.castName ty))
  case {branches : List (Term × Term)} {otherwise : Option Term} (each : ∀ b ∈ branches, P b.1 ∧ P b.2)
    (last : ∀ t ∈ otherwise, P t) : P (.case branches otherwise)
  substring {text start : Term} {length : Option Term} (first : P text) (second : P start)
    (third : ∀ t ∈ length, P t) : P (.substring text start length)
  array {items : List Term} (each : ∀ t ∈ items, P t) : P (.array items)
  item {whole index : Term} (first : P whole) (second : P index) : P (.item whole index)

/-- The columns and subqueries of a term are those of the terms that it is written with. -/
theorem inherited_leaves (Q : Term → Prop) : Inherited d fun t => ∀ l ∈ t.leaves, Q l := by
  have option {t : Option Term} (each : ∀ u ∈ t, ∀ l ∈ u.leaves, Q l) : ∀ l ∈ Term.optionLeaves t, Q l := by
    cases t with
    | none => exact nofun
    | some t => exact each t rfl
  have branches {bs : List (Term × Term)} (each : ∀ b ∈ bs, (∀ l ∈ b.1.leaves, Q l) ∧ ∀ l ∈ b.2.leaves, Q l) :
      ∀ l ∈ Term.branchLeaves bs, Q l := by
    induction bs with
    | nil => exact nofun
    | cons _ _ ih =>
      obtain ⟨here, later⟩ := List.forall_mem_cons.1 each
      exact List.forall_mem_append.2 ⟨List.forall_mem_append.2 here, ih later⟩
  exact {
    literal _ := nofun
    param _ _ := nofun
    star := nofun
    binary _ _ _ first second := List.forall_mem_append.2 ⟨first, second⟩
    unary _ _ inside := inside
    suffixed _ _ inside := inside
    function _ _ _ each := Term.forall_mem_leavesOf.2 each
    cast _ _ inside := inside
    case each last := List.forall_mem_append.2 ⟨branches each, option last⟩
    substring first second third := List.forall_mem_append.2 ⟨List.forall_mem_append.2 ⟨first, second⟩, option third⟩
    array each := Term.forall_mem_leavesOf.2 each
    item first second := List.forall_mem_append.2 ⟨first, second⟩ }

/-- A term without subqueries is written with fields that have none. -/
theorem inherited_queries : Inherited d fun t => t.queries = [] := by
  simpa only [Term.queries, List.filterMap_eq_nil_iff] using inherited_leaves fun l => l.query? = none

theorem mem_of_fieldTerm {i : Nat} (found : fieldTerm fields i = .ok t) : t ∈ fields := by
  rw [fieldTerm] at found
  split at found
  · next located =>
    cases found
    exact List.mem_of_getElem? located
  · cases found

theorem mem_of_fieldTerms {indexes : List Nat} (found : indexes.mapM (fieldTerm fields) = .ok ts) :
    ∀ t ∈ ts, t ∈ fields := by
  intro t mem
  obtain ⟨i, _, here⟩ := exists_of_forall₂_right (mapM_eq_ok.1 found) mem
  exact mem_of_fieldTerm here

variable {P : Term → Prop} {args : List Term}

namespace Inherited

variable {ts : List Term}

variable (inherited : Inherited d P)

include inherited

theorem literalTerm {v : Value} (written : Sql.literalTerm d v = .ok t) : P t := by
  cases v with
  | bool =>
    cases written
    split
    · exact inherited.literal _
    · exact inherited.binary (by decide) (inherited.literal _) (inherited.literal _)
  | float | array =>
    rw [Sql.literalTerm] at written
    split at written <;> cases written
    exact inherited.literal _
  | _ =>
    cases written
    exact inherited.literal _

theorem chainTerm {symbol : String} (fixed : symbol ∈ callWords) (each : ∀ t ∈ args, P t)
    (written : Sql.chainTerm symbol args = .ok t) : P t := by
  have chain (first : Term) (rest : List Term) (here : P first) (each : ∀ t ∈ rest, P t) :
      P (rest.foldl (.binary symbol) first) := by
    induction rest generalizing first with
    | nil => exact here
    | cons _ _ ih =>
      obtain ⟨next, later⟩ := List.forall_mem_cons.1 each
      exact ih _ (inherited.binary fixed here next) later
  cases args with
  | nil => cases written
  | cons first rest =>
    cases written
    obtain ⟨here, later⟩ := List.forall_mem_cons.1 each
    exact chain first rest here later

theorem caseTerm (each : ∀ t ∈ args, P t) : P (.case (Sql.caseTerm args).1 (Sql.caseTerm args).2) := by
  have both : (∀ b ∈ (Sql.caseTerm args).1, P b.1 ∧ P b.2) ∧ ∀ t ∈ (Sql.caseTerm args).2, P t := by
    induction args using caseTerm.induct with
    | case1 => simp [Sql.caseTerm]
    | case2 => simpa [Sql.caseTerm] using each
    | case3 condition result rest branches otherwise same ih =>
      simp only [List.forall_mem_cons] at each
      have later := ih each.2.2
      exact ⟨List.forall_mem_cons.2 ⟨⟨each.1, each.2.1⟩, later.1⟩, later.2⟩
  exact inherited.case both.1 both.2

theorem callTerm {op : Op} {ty : SqlType} (each : ∀ t ∈ args, P t)
    (written : Sql.callTerm d op args ty = .ok t) : P t := by
  have single {f : Term → Term} (written : (firstTerm op args).map f = .ok t) (kept : ∀ {u}, P u → P (f u)) : P t := by
    obtain ⟨u, found, rfl⟩ := map_eq_ok.1 written
    cases args with
    | nil => cases found
    | cons =>
      cases found
      exact kept (each _ (.head _))
  have renamed {standard symbol : String} (fixed : standard ∈ callWords) (fixed' : symbol ∈ callWords)
      (written : renamedTerm d standard symbol args = .ok t) : P t := by
    rw [renamedTerm] at written
    split at written
    · exact inherited.chainTerm fixed' each written
    · cases written
      exact inherited.function (.inr (List.mem_map_of_mem fixed)) false each
  have connective {b : Bool} {symbol : String} (fixed : symbol ∈ callWords)
      (written : (if args.isEmpty then Sql.literalTerm d (.bool b) else Sql.chainTerm symbol args) = .ok t) : P t := by
    split at written
    · exact inherited.literalTerm written
    · exact inherited.chainTerm fixed each written
  cases op with
  | eq | ne | lt | le | gt | ge | plus | minus | times | divide => exact inherited.chainTerm (by decide) each written
  | and | or => exact connective (by decide) written
  | not | negate => exact single written (inherited.unary (by decide))
  | isNull | isNotNull | isTrue | isFalse => exact single written (inherited.suffixed (by decide))
  | cast => exact single written (inherited.cast ty)
  | mod | concat => exact renamed (by decide) (by decide) written
  | upper | lower | charLength =>
    cases written
    exact inherited.function (.inr (List.mem_map_of_mem (by decide))) false each
  | coalesce =>
    cases written
    exact inherited.function (.inl (by decide)) false each
  | case =>
    cases written
    exact inherited.caseTerm each
  | substring =>
    rcases args with _ | ⟨text, _ | ⟨start, rest⟩⟩
    · cases written
    · cases written
    · rw [Sql.callTerm] at written
      split at written <;> cases written
      simp only [List.forall_mem_cons] at each
      exact inherited.substring each.1 each.2.1 fun t mem => each.2.2 t (List.mem_of_mem_head? mem)
  | item =>
    rcases args with _ | ⟨array, _ | ⟨index, rest⟩⟩ <;> simp only [Sql.callTerm] at written <;>
      split at written <;> cases written
    simp only [List.forall_mem_cons] at each
    exact inherited.item each.1 each.2.1
  | arrayValue =>
    rw [Sql.callTerm] at written
    split at written <;> cases written
    exact inherited.array each
  | unwind => cases written

theorem scalarTerm {e : Expr} (each : ∀ t ∈ fields, P t) (written : Sql.scalarTerm d fields e = .ok t) : P t := by
  induction e using Expr.induction generalizing t with
  | ref => exact each t (mem_of_fieldTerm written)
  | lit => exact inherited.literalTerm written
  | param index ty =>
    cases written
    exact inherited.param index ty
  | call op es ty ih =>
    obtain ⟨ts, operands, written⟩ := bind_eq_ok.1 written
    refine inherited.callTerm (fun t mem => ?_) written
    obtain ⟨e, inside, here⟩ := exists_of_forall₂_right (scalarTerms_eq_ok.1 operands) mem
    exact ih e inside here

theorem scalarTerms {es : List Expr} (each : ∀ t ∈ fields, P t)
    (written : Sql.scalarTerms d fields es = .ok ts) : ∀ t ∈ ts, P t := by
  intro t mem
  obtain ⟨e, _, here⟩ := exists_of_forall₂_right (scalarTerms_eq_ok.1 written) mem
  exact inherited.scalarTerm each here

theorem aggregateTerms {calls : List AggCall} (each : ∀ t ∈ fields, P t)
    (written : calls.mapM (aggregateTerm fields) = .ok ts) : ∀ t ∈ ts, P t := by
  intro t mem
  obtain ⟨call, _, here⟩ := exists_of_forall₂_right (mapM_eq_ok.1 written) mem
  have fixed : call.function.name ∈ callWords := by cases call.function <;> decide
  rw [aggregateTerm] at here
  split at here
  · cases here
    exact inherited.function (.inl fixed) _ (List.forall_mem_singleton.2 inherited.star)
  · obtain ⟨args, found, here⟩ := bind_eq_ok.1 here
    cases here
    exact inherited.function (.inl fixed) _ fun u mem => each u (mem_of_fieldTerms found u mem)

theorem orderTerms {key : SortKey} {items : List (Term × Bool × Option Bool)}
    (each : ∀ t ∈ fields, P t) (written : Sql.orderTerms d fields key = .ok items) : ∀ item ∈ items, P item.1 := by
  obtain ⟨t, found, written⟩ := bind_eq_ok.1 written
  have here := each t (mem_of_fieldTerm found)
  cases written
  cases rendering : d.nullsRendering key.nulls key.isDescending with
  | native | clause => simpa only [List.forall_mem_singleton] using here
  | emulated =>
    have test : P (.suffixed t "IS NULL") := inherited.suffixed (by decide) here
    refine List.forall_mem_cons.2 ⟨?_, List.forall_mem_singleton.2 here⟩
    split
    · exact test
    · refine inherited.case (List.forall_mem_singleton.2 ⟨test, inherited.literal _⟩) ?_
      rintro u ⟨⟩
      exact inherited.literal _

end Inherited

end Terms

section Operators

variable {f made : Fragment} {next after : Nat} {names : List String} {b : Block} {c : Clause} {grouped : Bool}
  {collation : Collation} {c' : Clause} {condition : Expr} {projects : List Expr} {program : Program}
  {calls : List AggCall} {group : List Nat} {inner fetch offset : Option Nat}

theorem Block.reaches_of_le (free : b.reaches c = false) (later : c.position ≤ c'.position) : b.reaches c' = false :=
  List.any_eq_false.2 fun _ mem reached => not_mem_of_reaches free (Nat.le_trans later (of_decide_eq_true reached)) mem

theorem Block.reaches_of_endsBy (ends : b.endsBy c = true) (later : c.position < c'.position) : b.reaches c' = false :=
  List.any_eq_false.2 fun _ mem reached =>
    not_mem_of_endsBy ends (Nat.lt_of_lt_of_le later (of_decide_eq_true reached)) mem

theorem exists_toSelect (b : Block) :
    ∃ projection, b.toQuery = .select (b.toSelect projection) ∧ ∀ item ∈ projection, item.1 ∈ b.fields := by
  refine ⟨_, rfl, ?_⟩
  split
  · exact nofun
  · intro item mem
    rw [← List.map_uncurry_zip_eq_zipWith, List.mem_map] at mem
    obtain ⟨⟨field, name⟩, inside, rfl⟩ := mem
    exact (List.of_mem_zip inside).1

/-- The blocks in which a fragment can be continued, with the number of the next derived source: its own block, or a
new one over it. -/
inductive Fragment.Offers : Fragment → Nat → Block → Nat → Prop
  | own (b : Block) (next : Nat) : Offers (.block b) next b next
  | derived (f : Fragment) (next : Nat) : Offers f next (f.derived next) (next + 1)

theorem offers_of_readyFor (ready : f.readyFor c next = (b, after)) : f.Offers next b after := by
  cases f with
  | block =>
    rw [Fragment.readyFor] at ready
    split at ready <;> cases ready
    · exact .derived _ _
    · exact .own _ _
  | finished =>
    cases ready
    exact .derived _ _

theorem reaches_of_readyFor (later : 0 < c.position) (ready : f.readyFor c next = (b, after)) :
    b.reaches c = false := by
  have fresh : (f.derived next).reaches c = false := by
    have source : Clause.source.position = 0 := rfl
    simp only [Fragment.derived, Block.ofSource, Block.reaches, List.any_cons, List.any_nil, Bool.or_false, source,
      decide_eq_false_iff_not]
    omega
  cases f with
  | block =>
    rw [Fragment.readyFor] at ready
    split at ready <;> cases ready
    · exact fresh
    · next free => exact Bool.eq_false_iff.2 free
  | finished =>
    cases ready
    exact fresh

theorem offers_of_bare (bare : f.bare next = (b, after)) : f.Offers next b after ∧ b.clauses = [.source] := by
  cases f with
  | block =>
    rw [Fragment.bare] at bare
    split at bare <;> cases bare
    · next only => exact ⟨.own _ _, of_decide_eq_true only⟩
    · exact ⟨.derived _ _, rfl⟩
  | finished =>
    cases bare
    exact ⟨.derived _ _, rfl⟩

/-- A condition is written on the rows of a block that has no such clause nor a later one, or on its groups. -/
theorem conditionFragment_cases (written : conditionFragment d grouped condition f next = .ok (made, after)) :
    ∃ b t, f.Offers next b after ∧ scalarTerm d b.fields condition = .ok t ∧
      (b.reaches .filter = false ∧ made = .block { b with filter := some t, clauses := .filter :: b.clauses } ∨
        f = .block b ∧ grouped = true ∧ b.endsBy .groupBy = true ∧
          made = .block { b with having := some t, clauses := .having :: b.clauses }) := by
  have free : (f.readyFor .filter next).1.reaches .filter = false := reaches_of_readyFor (by decide) rfl
  cases f with
  | block b =>
    simp only [conditionFragment] at written
    split at written <;> obtain ⟨t, translated, written⟩ := bind_eq_ok.1 written <;> cases written
    · next having =>
      rw [Bool.and_eq_true] at having
      exact ⟨b, t, .own _ _, translated, .inr ⟨rfl, having.1, having.2, rfl⟩⟩
    · exact ⟨_, t, offers_of_readyFor rfl, translated, .inl ⟨free, rfl⟩⟩
  | finished =>
    obtain ⟨t, translated, written⟩ := bind_eq_ok.1 written
    cases written
    exact ⟨_, t, .derived _ _, translated, .inl ⟨free, rfl⟩⟩

theorem projectFragment_cases (written : projectFragment d projects names f next = .ok (made, after)) :
    ∃ b fields, f.readyFor .projection next = (b, after) ∧ scalarTerms d b.fields projects = .ok fields ∧
      made = .block { b with fields, names, clauses := .projection :: b.clauses } := by
  obtain ⟨fields, translated, written⟩ := bind_eq_ok.1 written
  cases written
  exact ⟨_, fields, rfl, translated, rfl⟩

theorem programFragment_cases (written : programFragment d grouped program names f next = .ok (made, after)) :
    ∃ middle between,
      (program.condition = none ∧ middle = f ∧ between = next ∨ ∃ condition, program.condition = some condition ∧
        conditionFragment d grouped condition f next = .ok (middle, between)) ∧
      (program.isIdentity = true ∧ made = middle.renamed names ∧ after = between ∨
        program.isIdentity = false ∧
          projectFragment d program.projects names middle between = .ok (made, after)) := by
  have columns {middle : Fragment} {between : Nat}
      (written : (if program.isIdentity then pure (middle.renamed names, between)
        else projectFragment d program.projects names middle between) = Except.ok (made, after)) :
      program.isIdentity = true ∧ made = middle.renamed names ∧ after = between ∨
        program.isIdentity = false ∧
          projectFragment d program.projects names middle between = .ok (made, after) := by
    split at written
    · next identity =>
      cases written
      exact .inl ⟨identity, rfl, rfl⟩
    · next other => exact .inr ⟨Bool.eq_false_iff.2 other, written⟩
  rw [programFragment] at written
  split at written
  · cases written
  · cases found : program.condition with
    | none =>
      simp only [found] at written
      exact ⟨f, next, .inl ⟨rfl, rfl, rfl⟩, columns written⟩
    | some condition =>
      simp only [found] at written
      obtain ⟨⟨middle, between⟩, conditioned, written⟩ := bind_eq_ok.1 written
      exact ⟨middle, between, .inr ⟨condition, rfl, conditioned⟩, columns written⟩

/-- An aggregate groups a block that has no such clause nor a later one, or takes the aggregates of a grouped block as
arguments. -/
theorem aggregateFragment_cases
    (written : aggregateFragment d inner group calls names f next = .ok (made, after)) :
    ∃ b results, f.Offers next b after ∧ calls.mapM (aggregateTerm b.fields) = .ok results ∧
      (f = .block b ∧ b.endsBy .groupBy = true ∧ group = [] ∧
          made = .block { b with fields := results, names, clauses := .projection :: b.clauses } ∨
        b.reaches .groupBy = false ∧ ∃ keys, group.mapM (fieldTerm b.fields) = .ok keys ∧
          made = .block { b with
            groupBy := keys, fields := keys ++ results, names, clauses := .groupBy :: b.clauses }) := by
  have free : (f.readyFor .groupBy next).1.reaches .groupBy = false := reaches_of_readyFor (by decide) rfl
  rw [aggregateFragment.eq_def] at written
  split at written
  on_goal 1 => split at written
  · next nested =>
    simp only [nests, Bool.and_eq_true, List.isEmpty_iff] at nested
    obtain ⟨results, called, written⟩ := bind_eq_ok.1 written
    cases written
    exact ⟨_, results, .own _ _, called, .inl ⟨rfl, nested.1.2, nested.1.1.2, rfl⟩⟩
  all_goals
    obtain ⟨keys, keyed, written⟩ := bind_eq_ok.1 written
    obtain ⟨results, called, written⟩ := bind_eq_ok.1 written
    cases written
    exact ⟨_, results, offers_of_readyFor rfl, called, .inr ⟨free, keys, keyed, rfl⟩⟩

/-- The first clause of a sort: its limits when it has no keys. -/
def sortClause (collation : Collation) : Clause := if collation.isEmpty then .fetch else .orderBy

theorem position_sortClause (collation : Collation) : 0 < (sortClause collation).position := by
  unfold sortClause
  split <;> decide

/-- The order that a sort writes, given the terms of its keys. -/
def sortOrder (d : Dialect) (limited : Bool) (keys : List (List (Term × Bool × Option Bool))) :
    List (Term × Bool × Option Bool) :=
  if keys.isEmpty && limited && d.limitNeedsOrder then [anyOrder] else keys.flatten

/-- The order of a sort is written with the fields, except where it stands for any order. -/
theorem sortOrder_cases {fields : List Term} {keys : List (List (Term × Bool × Option Bool))}
    (found : collation.mapM (orderTerms d fields) = .ok keys) (limited : Bool) :
    (∀ P, Inherited d P → (∀ t ∈ fields, P t) → ∀ item ∈ sortOrder d limited keys, P item.1) ∨
      collation = [] ∧ limited = true ∧ sortOrder d limited keys = [anyOrder] := by
  rw [mapM_eq_ok] at found
  rw [sortOrder]
  split
  · next unkeyed =>
    simp only [Bool.and_eq_true, List.isEmpty_iff] at unkeyed
    obtain ⟨⟨rfl, limited⟩, _⟩ := unkeyed
    exact .inr ⟨List.forall₂_nil_right_iff.1 found, limited, rfl⟩
  · refine .inl fun P inherited each item mem => ?_
    obtain ⟨items, among, mem⟩ := List.mem_flatten.1 mem
    obtain ⟨key, _, here⟩ := exists_of_forall₂_right found among
    exact inherited.orderTerms each here item mem

theorem sortFragment_cases (written : sortFragment d collation offset fetch f next = .ok (made, after)) :
    ∃ b keys, f.readyFor (sortClause collation) next = (b, after) ∧
      collation.mapM (orderTerms d b.fields) = .ok keys ∧ ∃ orderBy clauses,
        orderBy = sortOrder d (offset.isSome || fetch.isSome) keys ∧
        clauses = (if orderBy.isEmpty then [] else [.orderBy]) ++
          (if offset.isSome || fetch.isSome then [.fetch] else []) ++ b.clauses ∧
        made = .block { b with orderBy, offset, fetch, clauses } := by
  obtain ⟨keys, found, written⟩ := bind_eq_ok.1 written
  cases written
  exact ⟨_, keys, rfl, found, _, _, rfl, rfl, rfl⟩

/-- The terms of a block outside its fields. -/
def Block.others (b : Block) : List Term := b.filter.toList ++ b.groupBy ++ b.having.toList ++ b.orderBy.map Prod.fst

/-- A block over the same source, written with the terms of another. -/
structure Block.Follows (d : Dialect) (b b' : Block) : Prop where
  source : b'.source = b.source
  terms {P : Term → Prop} (inherited : Inherited d P) (any : P anyOrder.1) (fields : ∀ t ∈ b.fields, P t)
    (others : ∀ t ∈ b.others, P t) : (∀ t ∈ b'.fields, P t) ∧ ∀ t ∈ b'.others, P t

theorem Block.Follows.trans {b' b'' : Block} (first : b.Follows d b') (second : b'.Follows d b'') :
    b.Follows d b'' where
  source := second.source.trans first.source
  terms inherited any fields others :=
    have middle := first.terms inherited any fields others
    second.terms inherited any middle.1 middle.2

theorem conditionFragment_follows (written : conditionFragment d grouped condition f next = .ok (made, after)) :
    ∃ b b', f.Offers next b after ∧ made = .block b' ∧ b.Follows d b' ∧ b'.fields = b.fields ∧
      b'.reaches .projection = false := by
  obtain ⟨b, t, offers, translated, made⟩ := conditionFragment_cases written
  have later : b.reaches .projection = false := made.elim
    (fun rows => Block.reaches_of_le rows.1 (by decide)) fun groups => Block.reaches_of_endsBy groups.2.2.1 (by decide)
  rcases made with ⟨_, rfl⟩ | ⟨_, _, _, rfl⟩
  all_goals
    refine ⟨b, _, offers, rfl, ⟨rfl, fun inherited any fields others => ⟨fields, ?_⟩⟩, rfl, later⟩
    have here := inherited.scalarTerm fields translated
    simp only [Block.others, List.forall_mem_append, Option.toList_some, List.forall_mem_singleton] at others ⊢
  · exact ⟨⟨⟨here, others.1.1.2⟩, others.1.2⟩, others.2⟩
  · exact ⟨⟨others.1.1, here⟩, others.2⟩

theorem projectFragment_follows (written : projectFragment d projects names f next = .ok (made, after)) :
    ∃ b b', f.readyFor .projection next = (b, after) ∧ made = .block b' ∧ b.Follows d b' ∧
      b'.fields.length = projects.length ∧ b'.names = names := by
  obtain ⟨b, fields, ready, translated, rfl⟩ := projectFragment_cases written
  exact ⟨b, _, ready, rfl, ⟨rfl, fun inherited _ each others => ⟨inherited.scalarTerms each translated, others⟩⟩,
    (scalarTerms_eq_ok.1 translated).length_eq.symm, rfl⟩

theorem readyFor_own (free : b.reaches c = false) (next : Nat) : (Fragment.block b).readyFor c next = (b, next) := by
  rw [Fragment.readyFor, free, if_neg Bool.false_ne_true]

theorem programFragment_follows (written : programFragment d grouped program names f next = .ok (made, after)) :
    program.isTrivial = true ∧ made = f.renamed names ∧ after = next ∨
      program.isTrivial = false ∧ ∃ b b', f.Offers next b after ∧ made = .block b' ∧ b.Follows d b' ∧ b'.names = names ∧
        (program.isIdentity = true ∧ b'.fields = b.fields ∨ b'.fields.length = program.projects.length) := by
  obtain ⟨middle, between, conditioned, columns⟩ := programFragment_cases written
  rcases conditioned with ⟨unconditional, rfl, rfl⟩ | ⟨condition, conditional, conditioned⟩
  · rw [Program.isTrivial, unconditional]
    rcases columns with ⟨identity, rfl, rfl⟩ | ⟨other, projected⟩
    · exact .inl ⟨identity, rfl, rfl⟩
    · obtain ⟨b, b', ready, rfl, follows, wide, named⟩ := projectFragment_follows projected
      exact .inr ⟨other, b, b', offers_of_readyFor ready, rfl, follows, named, .inr wide⟩
  · rw [Program.isTrivial, conditional]
    obtain ⟨b, b', offers, rfl, follows, same, free⟩ := conditionFragment_follows conditioned
    refine .inr ⟨rfl, ?_⟩
    rcases columns with ⟨identity, rfl, rfl⟩ | ⟨other, projected⟩
    · exact ⟨b, _, offers, rfl, ⟨follows.source, follows.terms⟩, rfl, .inl ⟨identity, same⟩⟩
    · obtain ⟨c, c', ready, rfl, follows', wide, named⟩ := projectFragment_follows projected
      -- The projection goes into the block of the condition.
      rw [readyFor_own free] at ready
      cases ready
      exact ⟨b, c', offers, rfl, follows.trans follows', named, .inr wide⟩

theorem aggregateFragment_follows (written : aggregateFragment d inner group calls names f next = .ok (made, after)) :
    ∃ b b', f.Offers next b after ∧ made = .block b' ∧ b.Follows d b' ∧ b'.names = names ∧
      b'.fields.length = group.length + calls.length := by
  obtain ⟨b, results, offers, called, written⟩ := aggregateFragment_cases written
  have count := (mapM_eq_ok.1 called).length_eq
  rcases written with ⟨rfl, ends, rfl, rfl⟩ | ⟨free, keys, keyed, rfl⟩
  · refine ⟨b, _, offers, rfl, ⟨rfl, fun inherited any fields others => ?_⟩, rfl, by simp [count]⟩
    exact ⟨inherited.aggregateTerms fields called, others⟩
  · refine ⟨b, _, offers, rfl, ⟨rfl, fun inherited any fields others => ?_⟩, rfl, ?_⟩
    · have keys' := fun t mem => fields t (mem_of_fieldTerms keyed t mem)
      simp only [Block.others, List.forall_mem_append] at others ⊢
      exact ⟨⟨keys', inherited.aggregateTerms fields called⟩, ⟨⟨others.1.1.1, keys'⟩, others.1.2⟩, others.2⟩
    · rw [List.length_append, ← (mapM_eq_ok.1 keyed).length_eq, count]

theorem sortFragment_follows (written : sortFragment d collation offset fetch f next = .ok (made, after)) :
    ∃ b b', f.Offers next b after ∧ made = .block b' ∧ b.Follows d b' ∧ b'.fields = b.fields ∧ b'.names = b.names := by
  obtain ⟨b, keys, ready, found, orderBy, clauses, rfl, _, rfl⟩ := sortFragment_cases written
  refine ⟨b, _, offers_of_readyFor ready, rfl, ⟨rfl, fun inherited any fields others => ⟨fields, ?_⟩⟩, rfl, rfl⟩
  simp only [Block.others, List.forall_mem_append, List.forall_mem_map] at others ⊢
  refine ⟨others.1, ?_⟩
  rcases sortOrder_cases found (offset.isSome || fetch.isSome) with within | ⟨_, _, alone⟩
  · exact within _ inherited fields
  · rw [alone]
    exact List.forall_mem_singleton.2 any

/-- A side of a join is a block without clauses: a join with its fields as they are, a table under a new name when its
own is taken, and any other source under its name. -/
theorem side_cases (taken : List String) (f : Fragment) (next : Nat) :
    ∃ b after, f.bare next = (b, after) ∧
      ((∃ kind left right on, b.source = .join kind left right on ∧
          f.side taken next = (⟨b.source, b.fields, b.qualifiers⟩, after)) ∨
        (∃ path label, b.source = .table path label ∧ b.qualifiers.head?.getD "" ∈ taken ∧
          f.side taken next = (⟨.table path (some (derivedName after)),
            b.fields.map (qualified (derivedName after)), [derivedName after]⟩, after + 1)) ∨
        (∀ kind left right on, b.source ≠ .join kind left right on) ∧
          (∀ path label, b.source = .table path label → b.qualifiers.head?.getD "" ∉ taken) ∧
          f.side taken next = (⟨b.source, b.fields.map (qualified (b.qualifiers.head?.getD "")),
            [b.qualifiers.head?.getD ""]⟩, after)) := by
  refine ⟨(f.bare next).1, (f.bare next).2, rfl, ?_⟩
  unfold Fragment.side
  cases source : (f.bare next).1.source with
  | join kind left right on => exact .inl ⟨kind, left, right, on, rfl, by simp only [source]⟩
  | table path label =>
    by_cases mem : (f.bare next).1.qualifiers.head?.getD "" ∈ taken
    · exact .inr (.inl ⟨path, label, rfl, mem, by simp only [source, if_pos mem]⟩)
    · exact .inr (.inr ⟨nofun, fun _ _ _ => mem, by simp only [source, if_neg mem]⟩)
  | derived | values => exact .inr (.inr ⟨nofun, nofun, by simp only [source]⟩)

/-- The block that tests for rows of a side. -/
def Side.test (s : Side) (t : Term) : Select := { Select.empty with source := some s.source, filter := some t }

theorem mem_terms_test {s : Side} {t u : Term} : u ∈ (s.test t).terms ↔ u ∈ s.source.terms ∨ u = t := by
  simp [Side.test, Select.terms, Select.empty]

/-- A join lists its sides, or tests the left rows by a query of the right side. -/
theorem joinFragment_cases {kind : JoinKind} {on : Expr} {left right : Fragment}
    (written : joinFragment d kind on names left right next = .ok (made, after)) :
    ∃ l middle r t, left.side [] next = (l, middle) ∧ right.side l.qualifiers middle = (r, after) ∧
      scalarTerm d (l.fields ++ r.fields) on = .ok t ∧
      (kind.leftOnly = true ∧ made = .block { Block.ofSource l.source l.qualifiers l.fields names with
          filter := some (.exists (kind = .anti) (.select (r.test t))), clauses := [.filter, .source] } ∨
        kind.leftOnly = false ∧ made = .block (.ofSource (.join kind l.source r.source t) (l.qualifiers ++ r.qualifiers)
          (l.fields ++ r.fields) names)) := by
  obtain ⟨t, translated, written⟩ := bind_eq_ok.1 written
  cases one : kind.leftOnly with
  | true =>
    rw [one] at written
    cases written
    exact ⟨_, _, _, t, rfl, rfl, translated, .inl ⟨rfl, rfl⟩⟩
  | false =>
    rw [one] at written
    cases written
    exact ⟨_, _, _, t, rfl, rfl, translated, .inr ⟨rfl, rfl⟩⟩

end Operators

section Plans

variable {next after : Nat} {P : Term → Prop} {rows : List Row} {terms : List (List Term)} {filter : Option Term}

theorem Inherited.literalRows (inherited : Inherited d P)
    (written : Sql.literalRows d rows = .ok terms) : ∀ row ∈ terms, ∀ t ∈ row, P t := by
  intro row mem t inside
  obtain ⟨values, _, here⟩ := exists_of_forall₂_right (mapM_eq_ok.1 written) mem
  obtain ⟨v, _, literal⟩ := exists_of_forall₂_right (mapM_eq_ok.1 here) inside
  exact inherited.literalTerm literal

theorem leaves_literalRows (written : literalRows d rows = .ok terms) : ∀ row ∈ terms, ∀ t ∈ row, t.leaves = [] := by
  simpa only [imp_false, ← List.eq_nil_iff_forall_not_mem] using (inherited_leaves fun _ => False).literalRows written

/-- A query of one literal row is one block, over the table for no table. -/
theorem selects_literalSelect {names : List String} {row : List Term}
    (plain : ∀ t ∈ row, t.leaves = []) (tests : ∀ t ∈ filter, t.leaves = []) :
    ∃ projection, (literalSelect d names filter row).selects = [{ Select.empty with
      projection, source := d.dualTable.map fun dual => .table [dual] none, filter }] := by
  have projected : ∀ t ∈ List.zipWith (fun t _ => t) row names, t.queries = [] := by
    intro t mem
    rw [← List.map_uncurry_zip_eq_zipWith, List.mem_map] at mem
    obtain ⟨⟨field, name⟩, both, rfl⟩ := mem
    exact congrArg _ (plain field (List.of_mem_zip both).1)
  have tested : ∀ t, filter = some t → t.queries = [] := fun t same => congrArg _ (tests t same)
  refine ⟨List.zipWith (fun t name => (t, some name)) row names, ?_⟩
  rw [literalSelect, selects_single]
  · cases d.dualTable <;> rfl
  · refine List.flatMap_eq_nil_iff.2 ?_
    cases d.dualTable <;> simpa [Select.terms, Select.empty, Source.terms, or_imp, forall_and] using ⟨projected, tested⟩

theorem selects_flattened (op : SetOp) (all first : Bool) (q : Query) :
    (flattened op all first q).flatMap Query.selects = q.selects := by
  cases q with
  | select => simp [flattened]
  | setOp op' all' inputs =>
    rw [flattened]
    split
    · exact (selects_setOp op' all' inputs).symm
    · simp

theorem forall₂_fragments {R : Plan → Fragment → Prop} {plans : List Plan} {fs : List Fragment}
    (each : ∀ p ∈ plans, ∀ next f after, fragment d p next = .ok (f, after) → R p f)
    (written : fragments d plans next = .ok (fs, after)) : List.Forall₂ R plans fs := by
  induction plans generalizing next fs with
  | nil =>
    cases written
    exact .nil
  | cons _ _ ih =>
    obtain ⟨⟨f, middle⟩, first, written⟩ := bind_eq_ok.1 written
    obtain ⟨⟨fs, last⟩, others, written⟩ := bind_eq_ok.1 written
    cases written
    obtain ⟨here, later⟩ := List.forall_mem_cons.1 each
    exact .cons (here _ _ _ first) (ih later others)

theorem Inherited.conditionTerm (inherited : Inherited d P) {condition : Option Expr}
    (each : ∀ t ∈ fields, P t) (written : Sql.conditionTerm d fields condition = .ok filter) : ∀ t ∈ filter, P t := by
  cases condition with
  | none =>
    cases written
    exact nofun
  | some =>
    obtain ⟨t, translated, rfl⟩ := map_eq_ok.1 written
    rintro _ ⟨⟩
    exact inherited.scalarTerm each translated

theorem Inherited.assignmentTerms (inherited : Inherited d P) {columns : List String} {changes : List (Nat × Expr)}
    {assignments : List (String × Term)} (each : ∀ t ∈ plainColumns columns, P t)
    (written : changes.mapM (assignmentTerm d columns) = .ok assignments) : ∀ item ∈ assignments, P item.2 := by
  intro item mem
  obtain ⟨change, _, here⟩ := exists_of_forall₂_right (mapM_eq_ok.1 written) mem
  rw [assignmentTerm] at here
  split at here
  · cases here
  · obtain ⟨t, translated, here⟩ := bind_eq_ok.1 here
    cases here
    exact inherited.scalarTerm each translated

theorem insertSource_cases {input : Plan} {source : InsertSource} (written : insertSource d input = .ok source) :
    (∃ h rows terms, input = .values h rows ∧ literalRows d rows = .ok terms ∧ source = .values terms) ∨
      ∃ f after, fragment d input 0 = .ok (f, after) ∧ source = .query f.toQuery := by
  rw [insertSource.eq_def] at written
  split at written
  · obtain ⟨terms, literals, written⟩ := bind_eq_ok.1 written
    cases written
    exact .inl ⟨_, _, terms, rfl, literals, rfl⟩
  · obtain ⟨⟨f, after⟩, made, written⟩ := bind_eq_ok.1 written
    cases written
    exact .inr ⟨f, after, made, rfl⟩

theorem statement_cases {p : Plan} {s : Statement} (written : statement d p = .ok s) :
    (∃ f after, fragment d p 0 = .ok (f, after) ∧ s = .query f.toQuery) ∨
      ∃ h table op input, p = .modify h table op input ∧ modification d table op input = .ok s := by
  have query (written : (do return Statement.query (← fragment d p 0).1.toQuery) = Except.ok s) :
      ∃ f after, fragment d p 0 = .ok (f, after) ∧ s = .query f.toQuery := by
    obtain ⟨⟨f, after⟩, made, written⟩ := bind_eq_ok.1 written
    cases written
    exact ⟨f, after, made, rfl⟩
  cases p with
  | modify h table op input => exact .inr ⟨h, table, op, input, rfl, written⟩
  | _ => exact .inl (query written)

end Plans

end FederatedQuery.Sql
