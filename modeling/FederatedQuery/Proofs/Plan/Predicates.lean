import FederatedQuery.Proofs.Plan.RowTypes
import FederatedQuery.Proofs.Simplify.Sound

/-!
Predicates that are pulled up through a query are true on its rows. The one exception is an aggregation
without group fields over no rows: the row that it makes up is not made of rows on which the predicates
below were true.
-/
namespace FederatedQuery

namespace Predicates

variable {row row' : Row} {params : Bindings} {p q : Predicates} {P : Expr → Prop} {negative : Bool}
  {mapping : Nat → Option Nat}

theorem everywhere_union (durable : Expr.Durable P) (left : p.Everywhere P)
    (right : q.Everywhere P) : (p.union q).Everywhere P :=
  everywhere_foldl_assume durable left right

theorem everywhere_ofList (durable : Expr.Durable P) {es : List Expr} (each : ∀ e ∈ es, e.Everywhere P) :
    (ofList es).Everywhere P :=
  everywhere_foldl_assume durable nofun each

theorem everywhere_filterMap_remap (durable : Expr.Durable P) (refs : ∀ index ty nullable, P (.ref index ty nullable))
    (all : p.Everywhere P) :
    ∀ e ∈ p.conjuncts.filterMap (Expr.remap mapping), e.Everywhere P := by
  intro e mem
  obtain ⟨c, inside, bound⟩ := List.mem_filterMap.1 mem
  refine durable.bindRefs (fun index ty nullable x found => ?_) (all c inside) bound
  obtain ⟨j, _, rfl⟩ := Option.map_eq_some_iff.1 found
  exact Expr.everywhere_ref.2 (refs j ty nullable)

theorem everywhere_remap (durable : Expr.Durable P) (refs : ∀ index ty nullable, P (.ref index ty nullable))
    (mapping : Nat → Option Nat) (all : p.Everywhere P) :
    (p.remap mapping).Everywhere P :=
  everywhere_ofList durable (everywhere_filterMap_remap durable refs all)

theorem Holds.union (signed : q.Everywhere (Expr.ZeroSigned negative))
    (left : p.Holds row params) (right : q.Holds row params) : (p.union q).Holds row params :=
  holds_foldl_assume left signed right

/-- Re-indexed predicates are true on a row that has the fields at their new places. -/
theorem Holds.remap (signed : p.Everywhere (Expr.ZeroSigned negative)) (holds : p.Holds row params)
    (reads : ∀ i j v, mapping i = some j → Expr.field row i = .ok v → Expr.field row' j = .ok v) :
    (p.remap mapping).Holds row' params := by
  refine holds_ofList (everywhere_filterMap_remap (Expr.durable_zeroSigned negative) (fun _ _ _ => trivial) signed)
    fun e mem => ?_
  obtain ⟨c, inside, bound⟩ := List.mem_filterMap.1 mem
  refine Expr.related_bindRefs stepwise_keeps bound (fun index _ ty nullable x found v value => ?_) _ (holds c inside)
  obtain ⟨j, mapped, rfl⟩ := Option.map_eq_some_iff.1 found
  exact reads index j v mapped value

theorem Holds.intersect_left (holds : p.Holds row params) : (p.intersect q).Holds row params :=
  fun c mem => holds c (List.mem_of_mem_filter mem)

theorem Holds.intersect_right (left : p.Everywhere (Expr.ZeroSigned negative))
    (right : q.Everywhere (Expr.ZeroSigned negative)) (holds : q.Holds row params) :
    (p.intersect q).Holds row params := by
  intro c mem
  obtain ⟨inside, found⟩ := List.mem_filter.1 mem
  exact holds c (Expr.mem_of_isIn found (left c inside) right)

theorem Holds.of_fields (reads : ∀ index v, Expr.field row index = .ok v → Expr.field row' index = .ok v)
    (holds : p.Holds row params) : p.Holds row' params :=
  fun c mem => Expr.transfers_of_refs (fun index _ => reads index) _ (holds c mem)

end Predicates

namespace Plan

variable {P : Expr → Prop} {p : Plan} {q : Predicates} {rest : List Plan} {negative : Bool} {params : Bindings}

/-- The condition of a program or a join. -/
def condition? : Plan → Option Expr
  | calculate _ program _ => program.condition
  | join _ _ on _ _ => some on
  | _ => none

theorem mem_notNullFrom {index : Nat} {fields : List Field} {e : Expr} (mem : e ∈ notNullFrom index fields) :
    ∃ i f, fields[i]? = some f ∧ f.nullable = false ∧ e = .apply .isNotNull [.ref (index + i) f.type false] := by
  induction fields generalizing index with
  | nil => cases mem
  | cons f rest ih =>
    have later (mem : e ∈ notNullFrom (index + 1) rest) : ∃ i g, (f :: rest)[i]? = some g ∧ g.nullable = false ∧
        e = .apply .isNotNull [.ref (index + i) g.type false] := by
      obtain ⟨i, g, located, never, rfl⟩ := ih mem
      exact ⟨i + 1, g, located, never, by rw [Nat.add_right_comm, Nat.add_assoc]⟩
    rw [notNullFrom] at mem
    split at mem
    · exact later mem
    · next never =>
      rcases List.mem_cons.1 mem with rfl | mem
      · exact ⟨0, f, rfl, Bool.not_eq_true _ ▸ never, rfl⟩
      · exact later mem

theorem forall_intersectPredicates {Q : Expr → Prop} (all : ∀ c ∈ q.conjuncts, Q c) :
    ∀ c ∈ (intersectPredicates q rest).conjuncts, Q c := by
  induction rest generalizing q with
  | nil => exact all
  | cons _ _ ih => exact ih fun c mem => all c (List.mem_of_mem_filter mem)

/-- What is so of the columns that are not null and of the conditions, and is kept by the ways to combine
predicates, is so of what is pulled up. -/
theorem forall_predicates {Q : Expr → Prop}
    (columns : ∀ fields, ∀ c ∈ (Predicates.ofList (notNullFrom 0 fields)).conjuncts, Q c)
    (remap : ∀ q : Predicates, (∀ c ∈ q.conjuncts, Q c) → ∀ mapping, ∀ c ∈ (q.remap mapping).conjuncts, Q c)
    (union : ∀ q r : Predicates, (∀ c ∈ q.conjuncts, Q c) → (∀ c ∈ r.conjuncts, Q c) → ∀ c ∈ (q.union r).conjuncts, Q c)
    (conditions : ∀ n ∈ p.nodes, ∀ e ∈ n.condition?, ∀ c ∈ (Predicates.ofList [e]).conjuncts, Q c) :
    ∀ c ∈ p.predicates.conjuncts, Q c := by
  have vacuous : ∀ c ∈ Predicates.empty.conjuncts, Q c := nofun
  apply p.induction_nodes
  intro n node below
  have here := conditions n node
  cases n with
  | scan => exact columns _
  | values | modify | collect => exact vacuous
  | calculate h program input =>
    have inner := below input (.head _)
    rw [predicates]
    refine remap _ ?_ _
    split
    · next condition found => exact union _ _ inner (here condition found)
    · exact inner
  | aggregate h group calls input => exact remap _ (below input (.head _)) _
  | sort h collation offset fetch input | converter h source input =>
    rw [predicates]
    exact below input (.head _)
  | join h kind on left right =>
    have first := below left (.head _)
    have second := remap _ (below right (.tail _ (.head _))) fun i => some (i + left.rowType.arity)
    cases kind with
    | inner => exact union _ _ (union _ _ first second) (here on rfl)
    | left | semi | anti =>
      rw [predicates]
      exact first
    | right => exact second
    | full =>
      rw [predicates]
      exact vacuous
  | setOp h op all first rest =>
    have inner := below first (.head _)
    cases op with
    | minus => exact inner
    | union | intersect =>
      rw [predicates]
      exact forall_intersectPredicates inner

theorem everywhere_predicates (durable : Expr.Durable P) (refs : ∀ index ty nullable, P (.ref index ty nullable))
    (conditions : ∀ n ∈ p.nodes, ∀ e ∈ n.condition?, e.Everywhere P) : p.predicates.Everywhere P := by
  refine forall_predicates (fun fields => Predicates.everywhere_ofList durable fun e mem => ?_)
    (fun _ all mapping => Predicates.everywhere_remap durable refs mapping all)
    (fun _ _ => Predicates.everywhere_union durable) fun n mem e found =>
      Predicates.everywhere_ofList durable (List.forall_mem_singleton.2 (conditions n mem e found))
  obtain ⟨i, f, _, _, rfl⟩ := mem_notNullFrom mem
  exact Expr.everywhere_call.2 ⟨durable.logical rfl, List.forall_mem_singleton.2 (Expr.everywhere_ref.2 (refs _ _ _))⟩

section Rows

variable {row made : Row} {params : Bindings} {i j : Nat} {v : Value} {other : Row}

theorem field_made {program : Program} (outcome : Rows.Made program params row made)
    (forwarded : program.forwarded.findIdx? (· == some i) = some j) (read : Expr.field row i = .ok v) :
    Expr.field made j = .ok v := by
  obtain ⟨e, located, ref⟩ : ∃ e, program.projects[j]? = some e ∧ ∃ ty nullable, e = .ref i ty nullable := by
    obtain ⟨inside, found, _⟩ := List.findIdx?_eq_some_iff_getElem.1 forwarded
    have located := List.getElem?_eq_getElem inside
    rw [beq_iff_eq.1 found, Program.forwarded, List.getElem?_map, Option.map_eq_some_iff] at located
    obtain ⟨e, located, ref⟩ := located
    cases e with
    | ref index ty nullable =>
      cases ref
      exact ⟨_, located, ty, nullable, rfl⟩
    | _ => cases ref
  obtain ⟨ty, nullable, rfl⟩ := ref
  have projected {r : Row} (evaluated : program.projectRow row params = .ok r) : r[j]? = some v := by
    obtain ⟨w, there, value⟩ := exists_getElem?_of_forall₂ (Expr.evalAll_eq_ok.1 evaluated) located
    rw [Expr.eval, read, Except.ok.injEq] at value
    rw [there, value]
  rw [Expr.field_eq_ok]
  cases outcome with
  | projected _ evaluated => exact projected evaluated
  | @unwound r position items item found evaluated array mem =>
    have apart : position ≠ j := by
      rintro rfl
      obtain ⟨inside, unwinds, _⟩ := List.findIdx?_eq_some_iff_getElem.1 found
      rw [List.getElem?_eq_getElem inside, Option.some.injEq] at located
      rw [located] at unwinds
      cases unwinds
    rw [List.getElem?_set_ne apart, projected evaluated]

theorem field_key {group : List Nat} {key results : Row} (keyed : Rows.keyOf group row = .ok key)
    (found : group.findIdx? (· == i) = some j) (read : Expr.field row i = .ok v) :
    Expr.field (key ++ results) j = .ok v := by
  obtain ⟨inside, same, _⟩ := List.findIdx?_eq_some_iff_getElem.1 found
  have located := List.getElem?_eq_getElem inside
  rw [beq_iff_eq.1 same] at located
  obtain ⟨w, there, value⟩ := exists_getElem?_of_forall₂ (mapM_eq_ok.1 keyed) located
  rw [Expr.field_eq_ok] at read ⊢
  rw [Rows.groupKeyOf, read, Except.ok.injEq] at value
  rw [List.getElem?_append_left (List.getElem?_eq_some_iff.1 there).1, there, value]

theorem field_append_left (read : Expr.field row i = .ok v) : Expr.field (row ++ other) i = .ok v := by
  rw [Expr.field_eq_ok] at read ⊢
  rw [List.getElem?_append_left (List.getElem?_eq_some_iff.1 read).1, read]

theorem field_append_right {arity : Nat} (long : other.length = arity)
    (read : Expr.field row i = .ok v) : Expr.field (other ++ row) (i + arity) = .ok v := by
  rw [Expr.field_eq_ok] at read ⊢
  rw [List.getElem?_append_right (by omega), ← read]
  congr
  omega

end Rows

theorem holds_intersectPredicates {row : Row} (signed : q.Everywhere (Expr.ZeroSigned negative))
    (others : ∀ p ∈ rest, p.predicates.Everywhere (Expr.ZeroSigned negative))
    (holds : q.Holds row params ∨ ∃ p ∈ rest, p.predicates.Holds row params) :
    (intersectPredicates q rest).Holds row params := by
  induction rest generalizing q with
  | nil => exact holds.resolve_right (by simp)
  | cons p rest ih =>
    refine ih (fun c mem => signed c (List.mem_of_mem_filter mem)) (fun p mem => others p (.tail _ mem)) ?_
    rcases holds with first | ⟨r, mem, later⟩
    · exact .inl first.intersect_left
    · rcases List.mem_cons.1 mem with rfl | mem
      · exact .inl (later.intersect_right signed (others r (.head _)))
      · exact .inr ⟨r, mem, later⟩

/-- Over an input without rows, an aggregation without group fields makes a row on which the predicates
that refer to no field are true. -/
def HoldsOnNothing (params : Bindings) (store : Store) : Plan → Prop
  | aggregate _ group _ input => group = [] → (input.feed asWritten params store).result = .ok [] →
    ∀ e ∈ input.predicates.conjuncts, e.refs = [] → e.eval [] params = .ok (.bool true)
  | _ => True

section Operators

variable {row : Row} {params : Bindings} {negative : Bool} {h : Head}

theorem holds_notNull {t : RowType} (fits : t.Fits true row) :
    (Predicates.ofList (notNullFrom 0 t.fields)).Holds row params := by
  have signed : ∀ e ∈ notNullFrom 0 t.fields, e.Everywhere (Expr.ZeroSigned false) := by
    intro e mem
    obtain ⟨i, f, _, _, rfl⟩ := mem_notNullFrom mem
    simp [Expr.apply, Expr.ZeroSigned]
  refine Predicates.holds_ofList signed fun e mem => ?_
  obtain ⟨i, f, declared, never, rfl⟩ := mem_notNullFrom mem
  have inside : i < row.length := fits.length_eq ▸ (List.getElem?_eq_some_iff.1 declared).1
  obtain ⟨v, located⟩ : ∃ v, row[i]? = some v := ⟨_, List.getElem?_eq_getElem inside⟩
  have read : Expr.field row (0 + i) = .ok v := by rwa [Nat.zero_add, Expr.field_eq_ok]
  rw [Expr.apply, Expr.eval_eager rfl, Expr.evalAll, Expr.eval, read]
  change Except.ok (Value.bool !v.isNull) = _
  rw [fits.present declared never located]
  rfl

theorem holds_made {program : Program} {input : Plan} {made : Row}
    (signed : input.predicates.Everywhere (Expr.ZeroSigned negative))
    (condition : ∀ e ∈ program.condition, e.Everywhere (Expr.ZeroSigned negative))
    (holds : input.predicates.Holds row params) (accepted : program.accepts row params = .ok true)
    (outcome : Rows.Made program params row made) :
    (predicates (.calculate h program input)).Holds made params := by
  rw [predicates]
  cases tested : program.condition with
  | none => exact holds.remap signed fun i j v => field_made outcome
  | some e =>
    rw [Program.accepts, tested] at accepted
    have one : ∀ x ∈ [e], x.Everywhere (Expr.ZeroSigned negative) := List.forall_mem_singleton.2 (condition e tested)
    have assumed : (Predicates.ofList [e]).Holds row params :=
      Predicates.holds_ofList one (List.forall_mem_singleton.2 (Simplifier.eval_of_test accepted))
    have signedOne := Predicates.everywhere_ofList (Expr.durable_zeroSigned negative) one
    exact (holds.union signedOne assumed).remap
      (Predicates.everywhere_union (Expr.durable_zeroSigned negative) signed signedOne)
      fun i j v => field_made outcome

theorem holds_joined {kind : JoinKind} {on : Expr} {left right : Plan} {lefts rights : List Row}
    (signed : right.predicates.Everywhere (Expr.ZeroSigned negative))
    (condition : on.Everywhere (Expr.ZeroSigned negative))
    (first : ∀ l ∈ lefts, left.predicates.Holds l params) (second : ∀ r ∈ rights, right.predicates.Holds r params)
    (arity : ∀ l ∈ lefts, l.length = left.rowType.arity)
    (joined : Rows.Joined kind on left.rowType.arity right.rowType.arity params lefts rights row) :
    (predicates (.join h kind on left right)).Holds row params := by
  have onLeft {l : Row} (mem : l ∈ lefts) (other : Row) : left.predicates.Holds (l ++ other) params :=
    (first l mem).of_fields fun i v => field_append_left
  have onRight {r : Row} (mem : r ∈ rights) {other : Row} (long : other.length = left.rowType.arity) :
      (right.predicates.remap fun i => some (i + left.rowType.arity)).Holds (other ++ r) params := by
    refine (second r mem).remap signed fun i j v mapped read => ?_
    cases mapped
    exact field_append_right long read
  cases kind with
  | inner =>
    cases joined with
    | pair _ mem mem' passes =>
      have one : ∀ x ∈ [on], x.Everywhere (Expr.ZeroSigned negative) := List.forall_mem_singleton.2 condition
      have durable := Expr.durable_zeroSigned negative
      refine ((onLeft mem _).union (Predicates.everywhere_remap durable (fun _ _ _ => trivial) _ signed)
        (onRight mem' (arity _ mem))).union (Predicates.everywhere_ofList durable one) ?_
      exact Predicates.holds_ofList one (List.forall_mem_singleton.2 (Simplifier.eval_of_test passes))
    | padded pads | orphan pads => cases pads
    | kept one => cases one
  | left =>
    cases joined with
    | pair _ mem | padded _ mem => exact onLeft mem _
    | orphan pads => cases pads
    | kept one => cases one
  | right =>
    rw [predicates]
    cases joined with
    | pair _ mem mem' => exact onRight mem' (arity _ mem)
    | padded pads => cases pads
    | orphan _ mem => exact onRight mem (List.length_replicate)
    | kept one => cases one
  | full => exact nofun
  | semi | anti =>
    rw [predicates]
    cases joined with
    | pair two => cases two
    | padded pads | orphan pads => cases pads
    | kept _ mem => exact first _ mem

/-- What is left of predicates when no field is kept refers to no field. -/
theorem holds_remap_nothing {p : Predicates} (signed : p.Everywhere (Expr.ZeroSigned negative))
    (holds : ∀ e ∈ p.conjuncts, e.refs = [] → e.eval [] params = .ok (.bool true)) :
    (p.remap fun _ => none).Holds row params := by
  refine Predicates.holds_ofList (Predicates.everywhere_filterMap_remap (Expr.durable_zeroSigned negative)
    (fun _ _ _ => trivial) signed) fun e mem => ?_
  obtain ⟨c, inside, bound⟩ := List.mem_filterMap.1 mem
  obtain ⟨closed, rfl⟩ := Expr.eq_of_bindRefs (fun _ _ _ => rfl) bound
  exact Expr.transfers_of_closed closed _ (holds e inside closed)

end Operators

theorem holds_feed {store : Store} {p : Plan}
    (query : ∀ n ∈ p.nodes, n.isQuery = true) (made : ∀ n ∈ p.nodes, n.Constructed)
    (stored : ∀ h table, .scan h table ∈ p.nodes → ∀ row ∈ store.rows table.name, table.rowType.Fits true row)
    (signed : ∀ n ∈ p.nodes, ∀ e ∈ n.condition?, e.Everywhere (Expr.ZeroSigned negative))
    (empty : ∀ n ∈ p.nodes, n.HoldsOnNothing params store) :
    ∀ row ∈ (p.feed asWritten params store).rows, p.predicates.Holds row params := by
  apply p.induction_nodes
  intro n node below row mem
  have arity : ∀ q ∈ n.inputs, ∀ row ∈ (q.feed asWritten params store).rows, row.length = q.rowType.arity := by
    intro q mem
    have inside := mem_nodes_trans (mem_nodes_of_input mem) node
    exact length_feed (forall_nodes_of_node query inside) (forall_nodes_of_node made inside)
      fun h table mem row located => (stored h table (mem_nodes_trans mem inside) row located).length_eq
  have signedBelow : ∀ q ∈ n.inputs, q.predicates.Everywhere (Expr.ZeroSigned negative) :=
    fun q mem => everywhere_predicates (Expr.durable_zeroSigned negative) (fun _ _ _ => trivial)
      (forall_nodes_of_node signed (mem_nodes_trans (mem_nodes_of_input mem) node))
  have built := made n node
  cases n with
  | scan h table =>
    rw [feed, Feed.rows_ofRows] at mem
    rw [predicates, built.scan]
    exact holds_notNull (stored h table node row mem)
  | values => exact List.forall_mem_nil _
  | calculate h program input =>
    obtain ⟨_, same, _⟩ := built.calculate
    obtain ⟨r, inside, out, success, mem⟩ := Feed.mem_rows_expand mem
    obtain ⟨accepted, outcome⟩ := Rows.mem_runRow ((arity input (.head _) r inside).trans same.symm) success mem
    exact holds_made (signedBelow input (.head _)) (signed _ node) (below input (.head _) r inside) accepted outcome
  | aggregate h group calls input =>
    obtain ⟨rows, out, found, success, mem⟩ := mem_feed_aggregate mem
    have each := below input (.head _)
    rw [Feed.rows_of_result found] at each
    rcases Rows.mem_aggregate success mem with ⟨first, rest, key, states, members, keyed, _, rfl⟩ | ⟨rfl, rfl, rfl⟩
    · exact (each first (members first (.head _))).remap (signedBelow input (.head _)) fun i j v => field_key keyed
    · exact holds_remap_nothing (signedBelow input (.head _)) (empty _ node rfl found)
  | join h kind on left right =>
    have second : right ∈ [left, right] := by simp
    exact holds_joined (signedBelow right second) (signed _ node on rfl) (below left (.head _))
      (below right second) (arity left (.head _)) (mem_feed_join mem)
  | setOp h op all first rest =>
    have inner := signedBelow first (.head _)
    have others : ∀ q ∈ rest, q.predicates.Everywhere (Expr.ZeroSigned negative) :=
      fun q mem => signedBelow q (.tail _ mem)
    rcases mem_feedChain mem with here | ⟨rfl, q, inside, found⟩
    · have holds := below first (.head _) row here
      cases op with
      | minus => exact holds
      | union | intersect =>
        rw [predicates]
        exact holds_intersectPredicates inner others (.inl holds)
    · exact holds_intersectPredicates inner others (.inr ⟨q, inside, below q (.tail _ inside) row found⟩)
  | sort h collation offset fetch input =>
    rw [predicates]
    exact below input (.head _) row (mem_feed_sort mem)
  | modify | collect | converter => cases query _ node

end Plan

end FederatedQuery
