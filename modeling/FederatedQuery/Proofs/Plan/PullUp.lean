import FederatedQuery.Proofs.Plan.Predicates

/-!
Pulled-up predicates on the rows that a query emits. They are true at every node exactly when they are
true of the row that an aggregation without group fields makes up over an input without rows.
-/
namespace FederatedQuery

namespace Expr

/-- One conjunct in canonical form, or the literal that no conjunct is. -/
def Settled (e : Expr) : Prop := e.isTrue = true ∨ e.conjuncts = [e] ∧ e.canonical = e

variable {e x : Expr}

theorem conjuncts_of_mem (mem : x ∈ e.conjuncts) : x.conjuncts = [x] := by
  induction e using induction with
  | call op operands ty ih =>
    rw [conjuncts] at mem
    split at mem
    · obtain ⟨e, inside, mem⟩ := mem_conjunctsOf.1 mem
      exact ih e inside mem
    · next single => rw [List.mem_singleton.1 mem, conjuncts, if_neg single]
  | lit =>
    rw [conjuncts] at mem
    split at mem
    · cases mem
    · next other => rw [List.mem_singleton.1 mem, conjuncts, if_neg other]
  | ref | param =>
    cases List.mem_singleton.1 mem
    rfl

variable {op : Op}

theorem conjuncts_comparison (comparison : op.isComparison = true) (es : List Expr) (ty : SqlType) :
    (call op es ty).conjuncts = [call op es ty] := by
  rw [conjuncts, if_neg]
  rintro rfl
  cases comparison

theorem settled_ordered (comparison : op.isComparison = true) {left right : Expr} (ty : SqlType)
    (ordered : (left.isConstant && !right.isConstant) = false) :
    (if left.same right && !left.nullable && !left.isConstant then lit (.bool (op = .eq || op = .le || op = .ge))
      else call op [left, right] ty).Settled := by
  split
  · cases (decide (op = .eq) || decide (op = .le) || decide (op = .ge)) with
    | true => exact .inl rfl
    | false => exact .inr ⟨rfl, rfl⟩
  · next apart =>
    refine .inr ⟨conjuncts_comparison comparison _ ty, ?_⟩
    rw [canonical, simplifyComparison]
    cases op.reversal? <;> simp [ordered, apart]

theorem settled_simplifyComparison (comparison : op.isComparison = true) (es : List Expr) (ty : SqlType) :
    (simplifyComparison op es ty).Settled := by
  unfold simplifyComparison
  split
  · next a b =>
    obtain ⟨reversed, found⟩ := Op.exists_reversal comparison
    simp only [found]
    split
    · next turned =>
      refine settled_ordered (Op.isComparison_of_reversal? found).2 ty ?_
      rw [Bool.and_eq_true, Bool.not_eq_true'] at turned
      rw [turned.2, Bool.false_and]
    · next straight => exact settled_ordered comparison ty (Bool.eq_false_iff.2 straight)
  · next other =>
    refine .inr ⟨conjuncts_comparison comparison es ty, ?_⟩
    rw [canonical, if_pos comparison, simplifyComparison]
    exact other

theorem settled_canonical (mem : x ∈ e.conjuncts) : x.canonical.Settled := by
  have single := conjuncts_of_mem mem
  cases x with
  | call op es ty =>
    rw [canonical]
    split
    · next comparison => exact settled_simplifyComparison comparison es ty
    · next other => exact .inr ⟨single, if_neg other⟩
  | _ => exact .inr ⟨single, rfl⟩

end Expr

namespace Predicates

variable {p q : Predicates} {e x : Expr} {es : List Expr}

theorem settled_foldl_assume (before : ∀ c ∈ p.conjuncts, c.Settled) :
    ∀ c ∈ (es.foldl assume p).conjuncts, c.Settled := by
  intro c mem
  rcases mem_foldl_assume mem with old | ⟨e, _, x, conjunct, rfl⟩
  · exact before c old
  · exact Expr.settled_canonical conjunct

theorem settled_ofList : ∀ c ∈ (ofList es).conjuncts, c.Settled := settled_foldl_assume nofun

theorem mem_insert_of_mem (mem : x ∈ p.conjuncts) : x ∈ (p.insert e).conjuncts := by
  rw [insert]
  split
  · exact mem
  · exact List.mem_append_left _ mem

theorem mem_foldl_insert_of_mem (mem : x ∈ p.conjuncts) : x ∈ (es.foldl insert p).conjuncts := by
  induction es generalizing p with
  | nil => exact mem
  | cons _ _ ih => exact ih (mem_insert_of_mem mem)

theorem mem_foldl_assume_of_mem (mem : x ∈ p.conjuncts) : x ∈ (es.foldl assume p).conjuncts := by
  induction es generalizing p with
  | nil => exact mem
  | cons _ _ ih => exact ih (mem_foldl_insert_of_mem mem)

variable {negative : Bool}

theorem canonical_mem_insert (signed : p.Everywhere (Expr.ZeroSigned negative))
    (here : e.Everywhere (Expr.ZeroSigned negative)) : e.canonical ∈ (p.insert e).conjuncts := by
  rw [insert]
  split
  · next known => exact Expr.mem_of_isIn known ((Expr.durable_zeroSigned negative).canonical here) signed
  · exact List.mem_append_right _ (.head _)

/-- A settled expression is among the conjuncts once it is assumed, unless it is literally true. -/
theorem mem_ofList_of_settled (signed : ∀ e ∈ es, e.Everywhere (Expr.ZeroSigned negative)) (mem : e ∈ es)
    (single : e.conjuncts = [e]) (canonical : e.canonical = e) : e ∈ (ofList es).conjuncts := by
  have durable := Expr.durable_zeroSigned negative
  have step (p : Predicates) (before : p.Everywhere (Expr.ZeroSigned negative)) :
      e ∈ (es.foldl assume p).conjuncts := by
    induction es generalizing p with
    | nil => cases mem
    | cons d rest ih =>
      rw [List.foldl_cons]
      rcases List.mem_cons.1 mem with rfl | later
      · refine mem_foldl_assume_of_mem ?_
        have inserted := canonical_mem_insert before (signed e (.head _))
        rw [canonical] at inserted
        rwa [assume, single]
      · exact ih (fun x inside => signed x (.tail _ inside)) later _
          (everywhere_foldl_assume durable before (List.forall_mem_singleton.2 (signed d (.head _))))
  exact step empty nofun

theorem Holds.eval_of_mem {row : Row} {params : Bindings} (holds : (ofList es).Holds row params)
    (signed : ∀ e ∈ es, e.Everywhere (Expr.ZeroSigned negative)) (mem : e ∈ es) (settled : e.Settled) :
    e.eval row params = .ok (.bool true) := by
  rcases settled with literal | ⟨single, canonical⟩
  · cases e with
    | lit v =>
      cases v with
      | bool =>
        cases literal
        rfl
      | _ => cases literal
    | _ => cases literal
  · exact holds e (mem_ofList_of_settled signed mem single canonical)

end Predicates

namespace Plan

theorem settled_predicates (p : Plan) : ∀ c ∈ p.predicates.conjuncts, c.Settled :=
  forall_predicates (fun _ => Predicates.settled_ofList) (fun _ _ _ => Predicates.settled_ofList)
    (fun _ _ first _ => Predicates.settled_foldl_assume first) fun _ _ _ _ => Predicates.settled_ofList

/-- Where the predicates are true of the row that an aggregation makes up, those of its input that refer to
no field are true. -/
theorem holdsOnNothing_of_holds {negative : Bool} {params : Bindings} {store : Store} (h : Head)
    (calls : List AggCall) {input : Plan}
    (signed : input.predicates.Everywhere (Expr.ZeroSigned negative))
    (holds : ∀ row ∈ (feed asWritten params store (.aggregate h [] calls input)).rows,
      (predicates (.aggregate h [] calls input)).Holds row params) :
    (Plan.aggregate h [] calls input).HoldsOnNothing params store := by
  intro _ empty e mem closed
  have made : (Rows.Group.start calls []).result ∈
      (feed asWritten params store (.aggregate h [] calls input)).rows := by
    rw [feed, empty]
    exact List.mem_singleton_self _
  have here := holds _ made
  refine Expr.transfers_of_closed closed _ (Predicates.Holds.eval_of_mem here (Predicates.everywhere_filterMap_remap
    (Expr.durable_zeroSigned negative) (fun _ _ _ => trivial) signed) ?_ (settled_predicates input e mem))
  exact List.mem_filterMap.2 ⟨e, mem, Expr.bindRefs_of_closed closed⟩

end Plan

namespace Compiler

open Foreign

variable {σ : Type} {c : Compiler σ} {ctx : Context} {p : Plan}

/-- The rows that a reader of a plan gets before the end or a failure. -/
def emitted (c : Compiler σ) (ctx : Context) (p : Plan) (w : World σ) : List Row :=
  match c.compile ctx p with
  | .ok cursor => cursor.emitted cursor.start w
  | .error _ => []

variable {cursor : Cursor (World σ)} {w : World σ}

theorem emitted_eq_feed (query : ∀ n ∈ p.nodes, n.isQuery = true) (compiled : c.compile ctx p = .ok cursor)
    (w : World σ) : c.emitted ctx p w = (p.feed c.program? ctx.params w.store).rows := by
  rw [emitted, compiled]
  exact (delivers_compile query compiled).1.emitted

theorem emitted_of_compile (plain : c.simplify = false) (query : ∀ n ∈ p.nodes, n.isQuery = true)
    (compiled : c.compile ctx p = .ok cursor) (w : World σ) :
    c.emitted ctx p w = (p.feed Plan.asWritten ctx.params w.store).rows := by
  rw [emitted_eq_feed query compiled, program?_of_plain plain]

theorem result_execute (plain : c.simplify = false) (query : ∀ n ∈ p.nodes, n.isQuery = true)
    (compiled : c.compile ctx p = .ok cursor) (w : World σ) :
    (c.execute p ctx w).1 = (p.feed Plan.asWritten ctx.params w.store).result := by
  rw [execute_of_compile query compiled, program?_of_plain plain]

/-- What the predicates of an aggregation say of the row that it makes up. -/
theorem holds_of_emitted {negative : Bool} (plain : c.simplify = false) {h : Head} {calls : List AggCall} {input : Plan}
    (query : ∀ n ∈ (Plan.aggregate h [] calls input).nodes, n.isQuery = true)
    (signed : ∀ n ∈ (Plan.aggregate h [] calls input).nodes, ∀ e ∈ n.condition?,
      e.Everywhere (Expr.ZeroSigned negative)) (holds : ∀ row ∈ c.emitted ctx (.aggregate h [] calls input) w,
      (Plan.predicates (.aggregate h [] calls input)).Holds row ctx.params)
    (convention : h.traits.convention = .pull) (empty : (c.execute input ctx w).1 = .ok []) :
    ∀ e ∈ input.predicates.conjuncts, e.refs = [] → e.eval [] ctx.params = .ok (.bool true) := by
  have below : input ∈ (Plan.aggregate h [] calls input).inputs := List.mem_singleton_self input
  obtain ⟨inner, found⟩ : ∃ inner, c.compile ctx input = .ok inner := by
    rw [execute] at empty
    split at empty
    · cases empty
    · next inner found => exact ⟨inner, found⟩
  obtain ⟨cursor, compiled⟩ : ∃ cursor, c.compile ctx (.aggregate h [] calls input) = .ok cursor := by
    rw [compile, found]
    exact ⟨_, inProcess_eq_ok.2 ⟨convention, rfl⟩⟩
  rw [result_execute plain (Plan.forall_nodes_of_mem query below) found] at empty
  rw [emitted_of_compile plain query compiled] at holds
  have signedBelow := Plan.everywhere_predicates (Expr.durable_zeroSigned negative) (fun _ _ _ => trivial)
    (Plan.forall_nodes_of_mem signed below)
  exact Plan.holdsOnNothing_of_holds h calls signedBelow holds rfl empty

theorem holdsOnNothing_of_compile (plain : c.simplify = false) (query : ∀ n ∈ p.nodes, n.isQuery = true)
    (compiled : c.compile ctx p = .ok cursor)
    (empty : ∀ h calls input, .aggregate h [] calls input ∈ p.nodes → h.traits.convention = .pull →
      (c.execute input ctx w).1 = .ok [] → ∀ e ∈ input.predicates.conjuncts, e.refs = [] →
        e.eval [] ctx.params = .ok (.bool true)) :
    ∀ n ∈ p.nodes, n.HoldsOnNothing ctx.params w.store := by
  intro n mem
  cases n with
  | aggregate h group calls input =>
    rintro rfl rowless
    have below : input ∈ (Plan.aggregate h [] calls input).inputs := List.mem_singleton_self input
    obtain ⟨inner, compiled⟩ := exists_compile_of_node plain query compiled _ mem
    obtain ⟨inner', compiled'⟩ := exists_compile_of_input plain rfl compiled below
    refine empty h calls input mem (inProcess_eq_ok.1 compiled).1 ?_
    rw [result_execute plain (Plan.forall_nodes_of_mem (Plan.forall_nodes_of_node query mem) below) compiled', rowless]
  | _ => trivial

/-- At every node of a query, all predicates are true on every row that is emitted, exactly when this is so
at the aggregations without group fields over inputs without rows: there, each predicate of the input that
refers to no field has to be true of the parameters alone. The literal zeros in the conditions are of one sign. -/
theorem predicates_hold_iff (c : Compiler σ) (plain : c.simplify = false) (ctx : Context) (w : World σ) (p : Plan)
    (query : ∀ n ∈ p.nodes, n.isQuery = true) (made : ∀ n ∈ p.nodes, n.Constructed)
    (stored : ∀ h table, .scan h table ∈ p.nodes → ∀ row ∈ w.store.rows table.name, table.rowType.Fits true row)
    (negative : Bool) (signed : ∀ n ∈ p.nodes, ∀ e ∈ n.condition?, e.Everywhere (Expr.ZeroSigned negative)) :
    (∀ n ∈ p.nodes, ∀ row ∈ c.emitted ctx n w, ∀ e ∈ n.predicates.conjuncts,
      e.eval row ctx.params = .ok (.bool true)) ↔
    ∀ h calls input, .aggregate h [] calls input ∈ p.nodes → h.traits.convention = .pull →
      (c.execute input ctx w).1 = .ok [] → ∀ e ∈ input.predicates.conjuncts, e.refs = [] →
      e.eval [] ctx.params = .ok (.bool true) := by
  constructor
  · intro holds h calls input mem
    exact holds_of_emitted plain (Plan.forall_nodes_of_node query mem) (Plan.forall_nodes_of_node signed mem)
      (holds _ mem)
  · intro empty n mem row found
    have queryHere := Plan.forall_nodes_of_node query mem
    cases compiled : c.compile ctx n with
    | error e =>
      rw [emitted, compiled] at found
      cases found
    | ok cursor =>
      rw [emitted_of_compile plain queryHere compiled] at found
      refine Plan.holds_feed queryHere (Plan.forall_nodes_of_node made mem)
        (fun h table inside => stored h table (Plan.mem_nodes_trans inside mem))
        (Plan.forall_nodes_of_node signed mem) ?_ row found
      exact holdsOnNothing_of_compile plain queryHere compiled
        fun h calls input inside => empty h calls input (Plan.mem_nodes_trans inside mem)

/-- A count of the rows that pass a filter on a parameter: when the parameter is false no row passes, and
the pulled-up parameter is not true of the count. -/
theorem predicates_hold_iff_parameter :
    let rowType : RowType := ⟨[⟨"x", .integer, false⟩]⟩
    let pulled (t : RowType) : Head := ⟨t, { Traits.logical with convention := .pull }⟩
    let program : Program := ⟨rowType, [.ref 0 .integer false], some (.param 0 .boolean), rowType⟩
    let input := Plan.calculate (pulled rowType) program (.values (pulled rowType) [[.int 1]])
    let p := Plan.aggregate (pulled ⟨[⟨"n", .bigInt, false⟩]⟩) [] [⟨.count, [], false, "n"⟩] input
    let c : Compiler Unit := { Compiler.ofOptions .default with simplify := false }
    let ctx (b : Bool) : Context := ⟨fun _ => some (.bool b), none⟩
    let holds (b : Bool) := ∀ n ∈ p.nodes, ∀ row ∈ c.emitted (ctx b) n ⟨[], [], 0, ()⟩,
      ∀ e ∈ n.predicates.conjuncts, e.eval row (ctx b).params = .ok (.bool true)
    holds true ∧ ¬holds false := by
  intro rowType pulled program input p c ctx holds
  have nodes : p.nodes = [p, input, .values (pulled rowType) [[.int 1]]] := rfl
  have query : ∀ n ∈ p.nodes, n.isQuery = true := by
    rw [nodes]
    decide
  have made : ∀ n ∈ p.nodes, n.Constructed := by
    rw [nodes]
    simp only [List.forall_mem_cons]
    exact ⟨⟨_, rfl, rfl⟩, ⟨_, rfl, rfl⟩, ⟨_, rfl, rfl⟩, fun _ mem => absurd mem List.not_mem_nil⟩
  have iff (b : Bool) := predicates_hold_iff c rfl (ctx b) ⟨[], [], 0, ()⟩ p query made
    (by simp [nodes, p, input]) false (by simp [nodes, p, input, Plan.condition?, program, Expr.ZeroSigned])
  have below : ∀ n ∈ input.nodes, n.isQuery = true :=
    Plan.forall_nodes_of_mem query (List.mem_singleton_self input)
  have passed (b : Bool) : (c.execute input (ctx b) ⟨[], [], 0, ()⟩).1 = .ok (if b then [[.int 1]] else []) := by
    rw [result_execute rfl below rfl]
    cases b <;> rfl
  constructor
  · refine (iff true).2 fun h calls other mem _ empty => ?_
    have same : Plan.aggregate h [] calls other = p := by simpa [nodes, input] using mem
    obtain ⟨-, -, -, rfl⟩ := Plan.aggregate.inj same
    cases (passed true).symm.trans empty
  · intro all
    have wrong := (iff false).1 all _ _ input (by rw [nodes]; exact List.mem_cons_self) rfl (passed false)
      (.param 0 .boolean) (List.mem_singleton_self _) rfl
    cases wrong

end Compiler

end FederatedQuery
