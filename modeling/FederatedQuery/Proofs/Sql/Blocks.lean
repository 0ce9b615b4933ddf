import FederatedQuery.Proofs.Sql.Terms
import FederatedQuery.Sql.Compose
import Mathlib.Data.List.Nodup

/-!
Blocks under construction stand for rows. A clause that is added to a block makes of these rows what the
operator behind the clause makes of them, and a block that becomes a source keeps them.
-/
namespace FederatedQuery.Sql

section Passing

variable {α β : Type} {f : α → Except Error Bool} {g : β → Except Error Bool} {ys kept : List β}

theorem passing_forall₂ {R : α → β → Prop} {xs : List α} (each : List.Forall₂ R xs ys)
    (agrees : ∀ x y b, R x y → g y = .ok b → f x = .ok b) (success : passing g ys = .ok kept) :
    ∃ kept', passing f xs = .ok kept' ∧ List.Forall₂ R kept' kept := by
  induction each generalizing kept with
  | nil =>
    cases success
    exact ⟨[], rfl, .nil⟩
  | @cons x y xs ys here _ ih =>
    obtain ⟨passes, tested, success⟩ := bind_eq_ok.1 success
    obtain ⟨later, found, success⟩ := bind_eq_ok.1 success
    cases success
    obtain ⟨kept', found', related⟩ := ih found
    rw [passing, agrees x y passes here tested, found']
    cases passes with
    | true => exact ⟨x :: kept', rfl, .cons here related⟩
    | false => exact ⟨kept', rfl, related⟩

theorem passing_of_agrees {f g : β → Except Error Bool} (agrees : ∀ y ∈ ys, ∀ b, g y = .ok b → f y = .ok b)
    (success : passing g ys = .ok kept) : passing f ys = .ok kept ∧ ∀ y ∈ kept, y ∈ ys := by
  have self : List.Forall₂ (fun x y => x = y ∧ y ∈ ys) ys ys := List.forall₂_same.2 fun y mem => ⟨rfl, mem⟩
  obtain ⟨kept', found, related⟩ := passing_forall₂ (f := f) self (fun x y b same => same.1 ▸ agrees y same.2 b) success
  have same : kept' = kept := by
    rw [← List.forall₂_eq_eq_eq]
    exact related.imp fun _ _ => And.left
  subst same
  exact ⟨found, fun y mem => (List.forall₂_same.1 related y mem).2⟩

theorem mem_of_passing {y : β} (success : passing g ys = .ok kept) (mem : y ∈ kept) : y ∈ ys :=
  (passing_of_agrees (fun _ _ _ => id) success).2 y mem

theorem passing_const {b : Bool} (each : ∀ y ∈ ys, g y = .ok b) : passing g ys = .ok (if b then ys else []) := by
  induction ys with
  | nil => cases b <;> rfl
  | cons y ys ih =>
    rw [passing, each y (.head _), ih fun y mem => each y (.tail _ mem)]
    cases b <;> rfl

end Passing

namespace Scope

variable {scope : Scope} {i j : Nat} {column : String × String}

theorem names_map (label : String) (columns : List String) : Scope.names (columns.map (label, ·)) = columns := by
  rw [Scope.names, List.map_map]
  exact List.map_id _

theorem position?_of_getElem? (distinct : scope.names.Nodup) (located : scope[i]? = some column) :
    scope.position? none column.2 = some i := by
  have named : isNamed none column.2 = fun c => c.2 == column.2 := by
    funext c
    simp [isNamed, Bool.beq_eq_decide_eq]
  have once : scope.countP (isNamed none column.2) = 1 := by
    rw [named]
    have counted := List.count_eq_one_of_mem distinct (List.mem_map_of_mem (List.mem_of_getElem? located))
    rwa [List.count, names, List.countP_map] at counted
  rw [position?, if_pos once, List.findIdx?_eq_some_iff_getElem]
  obtain ⟨inside, rfl⟩ := List.getElem?_eq_some_iff.1 located
  refine ⟨inside, by simp [isNamed], fun k before => ?_⟩
  have apart := List.pairwise_iff_getElem.1 distinct k i (by simpa [names] using before.trans inside)
    (by simpa [names] using inside) before
  simpa [isNamed, names] using apart

end Scope

/-- The fields have these values on a reading. -/
def Answers (params : Bindings) (fields : List Term) (r : Reading) (row : Row) : Prop :=
  List.Forall₂ (fun t v => t.eval r params = .ok v) fields row

section Columns

variable {params : Bindings} {scope : Scope} {row : Row} {r : Reading} {fields : List Term} {i : Nat}

theorem Answers.unique {row' : Row} (first : Answers params fields r row) (second : Answers params fields r row') :
    row = row' := by
  rw [← List.forall₂_eq_eq_eq]
  exact forall₂_through first second fun _ _ v w one other => Except.ok.inj (one.symm.trans other)

theorem mapM_of_answers (answers : Answers params fields r row) : fields.mapM (Term.eval r params) = .ok row :=
  mapM_eq_ok.2 answers

theorem getElem?_plainColumns {t : Term} (located : (plainColumns scope.names)[i]? = some t) :
    ∃ column, scope[i]? = some column ∧ t = .column none column.2 := by
  rw [plainColumns, Scope.names, List.getElem?_map, List.getElem?_map, Option.map_eq_some_iff] at located
  obtain ⟨name, found, rfl⟩ := located
  obtain ⟨column, there, rfl⟩ := Option.map_eq_some_iff.1 found
  exact ⟨column, there, rfl⟩

theorem eval_column {column : String × String} (distinct : scope.names.Nodup) (located : scope[i]? = some column) :
    (Term.column none column.2).eval (.ofRow scope row) params = Expr.field row i := by
  simp only [Term.eval, Reading.ofRow, Scope.position?_of_getElem? distinct located]

theorem answers_plainColumns (distinct : scope.names.Nodup) (full : row.length = scope.length) :
    Answers params (plainColumns scope.names) (.ofRow scope row) row := by
  have long : (plainColumns scope.names).length = row.length := by simp [plainColumns, Scope.names, full]
  refine List.forall₂_iff_get.2 ⟨long, fun i first second => ?_⟩
  obtain ⟨column, located, same⟩ := getElem?_plainColumns (List.getElem?_eq_getElem first)
  rw [List.get_eq_getElem, same, eval_column distinct located, Expr.field_eq_ok, List.getElem?_eq_getElem second]
  rfl

end Columns

namespace Block

def toSelect (b : Block) (projection : List (Term × Option String)) : Select :=
  ⟨projection, some b.source, b.filter, b.groupBy, b.having, b.orderBy, b.offset, b.fetch⟩

/-- The rows or groups that the conditions of a block leave. It is about groups where it has keys. -/
def readings (scope : Scope) (params : Bindings) (rows : List Row) (b : Block) : Except Error (List Reading) :=
  (b.toSelect []).readings (fun s => !s.groupBy.isEmpty) scope params rows

/-- A block stands for rows: its fields have their values on what its conditions leave of its source. The
clauses that it does not use are empty, and until it groups or projects its fields are the columns. -/
structure Denotes (db : Database) (params : Bindings) (scope : Scope) (base : List Row) (b : Block)
    (rows : List Row) : Prop where
  source : b.source.meaningBy Select.isGrouped db params = .ok (scope, base)
  distinct : scope.names.Nodup
  full : ∀ row ∈ base, row.length = scope.length
  unlimited : b.orderBy = [] ∧ b.offset = none ∧ b.fetch = none
  unfiltered : .filter ∉ b.clauses → b.filter = none
  unconditional : .having ∉ b.clauses → b.having = none
  ungrouped : .groupBy ∉ b.clauses → b.groupBy = [] ∧ b.having = none ∧ ∀ t ∈ b.fields, t.containsAggregate = false
  groups : .groupBy ∈ b.clauses → b.groupBy ≠ []
  plain : .groupBy ∉ b.clauses → .projection ∉ b.clauses → b.fields = plainColumns scope.names
  named : b.names.length = b.fields.length
  answers : ∃ found, b.readings scope params base = .ok found ∧ List.Forall₂ (Answers params b.fields) found rows

variable {db : Database} {params : Bindings} {scope : Scope} {base rows : List Row} {b : Block}

theorem Denotes.length_eq (denotes : b.Denotes db params scope base rows) :
    ∀ row ∈ rows, row.length = b.names.length := by
  intro row mem
  obtain ⟨found, _, answers⟩ := denotes.answers
  obtain ⟨r, _, here⟩ := exists_of_forall₂_right answers mem
  exact (List.Forall₂.length_eq here).symm.trans denotes.named.symm

theorem denotes_ofSource {source : Source} (qualifiers : List String) {names : List String}
    (meaning : source.meaningBy Select.isGrouped db params = .ok (scope, base)) (distinct : scope.names.Nodup)
    (full : ∀ row ∈ base, row.length = scope.length) (named : names.length = scope.length) :
    (ofSource source qualifiers (plainColumns scope.names) names).Denotes db params scope base base where
  source := meaning
  distinct := distinct
  full := full
  unlimited := ⟨rfl, rfl, rfl⟩
  unfiltered _ := rfl
  unconditional _ := rfl
  ungrouped _ := ⟨rfl, rfl, by simp [ofSource, plainColumns, Term.containsAggregate]⟩
  groups grouped := absurd grouped (by simp [ofSource])
  plain _ _ := rfl
  named := by simp [ofSource, plainColumns, Scope.names, named]
  answers := by
    refine ⟨base.map (.ofRow scope), rfl, ?_⟩
    rw [List.forall₂_map_left_iff, List.forall₂_same]
    exact fun row mem => answers_plainColumns distinct (full row mem)

section Query

variable {fields : List Term} {names : List String} {projection : List (Term × Option String)}

theorem map_fst_selected (named : names.length = fields.length) :
    (List.zipWith selected fields names).map Prod.fst = fields := by
  rw [← List.map_uncurry_zip_eq_zipWith, List.map_map]
  exact List.map_fst_zip named.ge

theorem columnName_selected (t : Term) (name : String) : Select.columnName (selected t name) = name := by
  unfold Select.columnName selected
  split
  · next same => rw [same]; rfl
  · rfl

theorem map_columnName_selected (named : names.length = fields.length) :
    (List.zipWith selected fields names).map Select.columnName = names := by
  have same : Select.columnName ∘ Function.uncurry selected = Prod.snd := funext fun _ => columnName_selected _ _
  rw [← List.map_uncurry_zip_eq_zipWith, List.map_map, same]
  exact List.map_snd_zip named.le

theorem selected_ne_nil (named : names.length = fields.length) (columns : names ≠ []) :
    List.zipWith selected fields names ≠ [] := by
  intro empty
  rw [← map_columnName_selected named, empty] at columns
  exact columns rfl

theorem readings_plain (unused : b.groupBy = []) (unconditional : b.having = none) {kept : List Row}
    (passed : satisfying (fun t row => t.test (.ofRow scope row) params) b.filter base = .ok kept) :
    b.readings scope params base = .ok (kept.map (.ofRow scope)) := by
  simp only [readings, Select.readings, Select.units, toSelect, passed, ok_bind, unused, unconditional]
  rfl

theorem names_of_selectsAll {columns : List String} (long : names.length = (plainColumns columns).length)
    (same : ((plainColumns columns).zip names).all (fun (field, name) => field.columnName? = some name) = true) :
    columns = names := by
  induction columns generalizing names with
  | nil => exact (List.eq_nil_of_length_eq_zero long).symm
  | cons _ _ ih =>
    cases names with
    | nil => cases long
    | cons =>
      rw [plainColumns, List.map_cons, List.zip_cons_cons, List.all_cons, Bool.and_eq_true, decide_eq_true_eq] at same
      rw [Option.some.inj same.1, ih (Nat.succ.inj long) same.2]

variable (denotes : b.Denotes db params scope base rows)

include denotes

theorem Denotes.isGrouped (among : ∀ item ∈ projection, item.1 ∈ b.fields) :
    (b.toSelect projection).isGrouped = !b.groupBy.isEmpty := by
  by_cases grouped : Clause.groupBy ∈ b.clauses
  · have keyed := denotes.groups grouped
    cases same : b.groupBy with
    | nil => exact absurd same keyed
    | cons => simp [toSelect, Select.isGrouped, same]
  · obtain ⟨unkeyed, unconditional, scalar⟩ := denotes.ungrouped grouped
    have no : projection.any (fun item => item.1.containsAggregate) = false := by
      rw [List.any_eq_false]
      exact fun item mem => Bool.eq_false_iff.1 (scalar _ (among item mem))
    simpa [toSelect, Select.isGrouped, unkeyed, unconditional] using no

theorem Denotes.readings_toSelect (among : ∀ item ∈ projection, item.1 ∈ b.fields) :
    (b.toSelect projection).readings Select.isGrouped scope params base = b.readings scope params base := by
  simp only [readings, Select.readings, Select.units, denotes.isGrouped among]
  rfl

theorem Denotes.meaning_toSelect {found : List Reading} {out : List Row}
    (among : ∀ item ∈ projection, item.1 ∈ b.fields) (readings : b.readings scope params base = .ok found)
    (each : List.Forall₂ (fun r row => (b.toSelect projection).row params r = .ok row) found out) :
    (Query.select (b.toSelect projection)).meaning db params =
      .ok ⟨(b.toSelect projection).columns scope, out⟩ := by
  have unlimited := denotes.unlimited
  rw [Query.meaning, Query.meaningBy, toSelect, Select.meaningBy, sourceMeaningBy, denotes.source]
  change (b.toSelect projection).relation Select.isGrouped scope params base = _
  rw [Select.relation, if_neg, denotes.readings_toSelect among, readings, ok_bind, mapM_eq_ok.2 each]
  · rfl
  · simp [toSelect, unlimited]

/-- Until a block groups or projects, it stands for the rows of its source that pass. -/
theorem Denotes.passed (ungrouped : .groupBy ∉ b.clauses) (unprojected : .projection ∉ b.clauses) :
    satisfying (fun t row => t.test (.ofRow scope row) params) b.filter base = .ok rows ∧
      ∀ row ∈ rows, row.length = scope.length := by
  obtain ⟨unused, unconditional, _⟩ := denotes.ungrouped ungrouped
  obtain ⟨found, readings, answers⟩ := denotes.answers
  obtain ⟨kept, passed, _⟩ := bind_eq_ok.1 readings
  change satisfying _ b.filter base = _ at passed
  rw [readings_plain unused unconditional passed, Except.ok.injEq] at readings
  subst readings
  have full : ∀ row ∈ kept, row.length = scope.length := by
    intro row mem
    refine denotes.full row ?_
    cases filter : b.filter with
    | none =>
      rw [filter] at passed
      cases passed
      exact mem
    | some =>
      rw [filter] at passed
      exact mem_of_passing passed mem
  have same : kept = rows := by
    rw [denotes.plain ungrouped unprojected, List.forall₂_map_left_iff] at answers
    rw [← List.forall₂_eq_eq_eq]
    obtain ⟨long, each⟩ := List.forall₂_iff_zip.1 answers
    refine List.forall₂_iff_zip.2 ⟨long, fun {row out} mem => ?_⟩
    exact (answers_plainColumns denotes.distinct (full row (List.of_mem_zip mem).1)).unique (each mem)
  subst same
  exact ⟨passed, full⟩

/-- The query of a block gives the rows that the block stands for, under its names. -/
theorem Denotes.meaning (columns : b.names ≠ []) : b.toQuery.meaning db params = .ok ⟨b.names, rows⟩ := by
  have named := denotes.named
  obtain ⟨found, readings, answers⟩ := denotes.answers
  unfold toQuery
  split
  · next all =>
    rw [selectsAll, Bool.and_eq_true, Bool.and_eq_true, decide_eq_true_eq, decide_eq_true_eq] at all
    obtain ⟨⟨unprojected, ungrouped⟩, same⟩ := all
    obtain ⟨unused, unconditional, _⟩ := denotes.ungrouped ungrouped
    obtain ⟨passed, _⟩ := denotes.passed ungrouped unprojected
    have whole : List.Forall₂ (fun r row => (b.toSelect []).row params r = .ok row) (rows.map (.ofRow scope)) rows := by
      rw [List.forall₂_map_left_iff, List.forall₂_same]
      exact fun _ _ => rfl
    refine (denotes.meaning_toSelect (List.forall_mem_nil _)
      (readings_plain unused unconditional passed) whole).trans ?_
    rw [denotes.plain ungrouped unprojected] at same named
    rw [← names_of_selectsAll named same]
    rfl
  · have projection := selected_ne_nil named columns
    have terms := map_fst_selected named
    have each : List.Forall₂ (fun r row =>
        (b.toSelect (List.zipWith selected b.fields b.names)).row params r = .ok row) found rows := by
      refine answers.imp fun r row here => ?_
      rw [Answers, ← terms, List.forall₂_map_left_iff] at here
      rw [Select.row, toSelect, if_neg (by simpa using projection)]
      exact mapM_eq_ok.2 here
    refine (denotes.meaning_toSelect (fun item mem => terms ▸ List.mem_map_of_mem mem) readings each).trans ?_
    rw [Select.columns, toSelect, if_neg (by simpa using projection), map_columnName_selected named]

end Query

section Clauses

variable {c : Clause} {used : Clause} {kept : List Row} {t : Term} {test : Row → Except Error Bool}
  {names : List String}

theorem not_mem_of_reaches (free : b.reaches c = false) (later : c.position ≤ used.position) : used ∉ b.clauses :=
  fun mem => List.any_eq_false.1 free used mem (decide_eq_true later)

theorem not_mem_of_endsBy (ends : b.endsBy c = true) (later : c.position < used.position) : used ∉ b.clauses := by
  intro mem
  have before := of_decide_eq_true (List.all_eq_true.1 ends used mem)
  omega

variable (denotes : b.Denotes db params scope base rows)

include denotes

theorem Denotes.derived (columns : b.names ≠ []) (distinct : b.names.Nodup) (next : Nat) :
    ((Fragment.block b).derived next).Denotes db params (b.names.map (derivedName next, ·)) rows rows := by
  have names := Scope.names_map (derivedName next) b.names
  have meaning : (Source.derived b.toQuery (derivedName next)).meaningBy Select.isGrouped db params =
      .ok (b.names.map (derivedName next, ·), rows) := by
    rw [Source.meaningBy, ← Query.meaning, denotes.meaning columns]
    rfl
  have denotes' : (ofSource (.derived b.toQuery (derivedName next)) [derivedName next]
      (plainColumns (Scope.names (b.names.map (derivedName next, ·)))) b.names).Denotes db params
      (b.names.map (derivedName next, ·)) rows rows :=
    denotes_ofSource _ meaning (names.symm ▸ distinct) (by simpa using denotes.length_eq) (by simp)
  rwa [names] at denotes'

/-- A block can be made ready for a clause without a change to its rows. -/
theorem Denotes.readyFor (columns : b.names ≠ []) (distinct : b.names.Nodup) (later : 0 < c.position) (next : Nat) :
    (∃ scope' base', ((Fragment.block b).readyFor c next).1.Denotes db params scope' base' rows) ∧
      ((Fragment.block b).readyFor c next).1.reaches c = false := by
  rw [Fragment.readyFor]
  split
  · refine ⟨⟨_, _, denotes.derived columns distinct next⟩, ?_⟩
    have source : Clause.source.position = 0 := rfl
    simp only [Fragment.derived, ofSource, reaches, List.any_cons, List.any_nil, Bool.or_false, source,
      decide_eq_false_iff_not]
    omega
  · next free => exact ⟨⟨scope, base, denotes⟩, Bool.eq_false_iff.2 free⟩

theorem Denotes.filtered (free : b.reaches .filter = false)
    (agrees : ∀ r row v, Answers params b.fields r row → test row = .ok v → t.test r params = .ok v)
    (passed : passing test rows = .ok kept) :
    { b with filter := some t, clauses := .filter :: b.clauses }.Denotes db params scope base kept := by
  have ungrouped : Clause.groupBy ∉ b.clauses := not_mem_of_reaches free (by decide)
  have unprojected : Clause.projection ∉ b.clauses := not_mem_of_reaches free (by decide)
  have unfiltered : Clause.filter ∉ b.clauses := not_mem_of_reaches free (by decide)
  obtain ⟨unused, unconditional, scalar⟩ := denotes.ungrouped ungrouped
  have columns := denotes.plain ungrouped unprojected
  obtain ⟨all, full⟩ := denotes.passed ungrouped unprojected
  rw [denotes.unfiltered unfiltered] at all
  obtain rfl : base = rows := Except.ok.inj all
  have passed' : passing (fun row => t.test (.ofRow scope row) params) base = .ok kept := by
    refine (passing_of_agrees (fun row mem v tested => ?_) passed).1
    exact agrees _ row v (columns ▸ answers_plainColumns denotes.distinct (full row mem)) tested
  have left : { b with filter := some t, clauses := .filter :: b.clauses }.readings scope params base =
      .ok (kept.map (.ofRow scope)) :=
    readings_plain (b := { b with filter := some t, clauses := .filter :: b.clauses }) unused unconditional passed'
  exact { denotes with
    unfiltered := fun absent => absurd (.head _) absent
    unconditional := fun _ => unconditional
    ungrouped := fun _ => ⟨unused, unconditional, scalar⟩
    groups := fun mem => absurd ((List.mem_cons.1 mem).resolve_left (by decide)) ungrouped
    plain := fun _ _ => columns
    answers := by
      refine ⟨_, left, ?_⟩
      rw [List.forall₂_map_left_iff, List.forall₂_same]
      exact fun row mem => columns ▸ answers_plainColumns denotes.distinct (full row (mem_of_passing passed' mem)) }

theorem Denotes.restricted (grouped : .groupBy ∈ b.clauses) (ends : b.endsBy .groupBy = true)
    (agrees : ∀ r row v, Answers params b.fields r row → test row = .ok v → t.test r params = .ok v)
    (passed : passing test rows = .ok kept) :
    { b with having := some t, clauses := .having :: b.clauses }.Denotes db params scope base kept := by
  have unconditional := denotes.unconditional (not_mem_of_endsBy ends (by decide))
  obtain ⟨found, readings, answers⟩ := denotes.answers
  obtain ⟨found', passed', answers'⟩ := passing_forall₂ answers (fun r row v => agrees r row v) passed
  have left : { b with having := some t, clauses := .having :: b.clauses }.readings scope params base = .ok found' := by
    rw [Block.readings, Select.readings, toSelect, unconditional] at readings
    obtain ⟨rows', filtered, readings⟩ := bind_eq_ok.1 readings
    obtain ⟨all, units, readings⟩ := bind_eq_ok.1 readings
    obtain rfl : all = found := Except.ok.inj readings
    exact bind_eq_ok.2 ⟨rows', filtered, bind_eq_ok.2 ⟨all, units, passed'⟩⟩
  exact { denotes with
    unfiltered := fun absent => denotes.unfiltered fun mem => absent (.tail _ mem)
    unconditional := fun absent => absurd (.head _) absent
    ungrouped := fun absent => absurd (.tail _ grouped) absent
    groups := fun _ => denotes.groups grouped
    plain := fun absent => absurd (.tail _ grouped) absent
    answers := ⟨found', left, answers'⟩ }

theorem Denotes.projected {fields : List Term} {made : List Row} (named : names.length = fields.length)
    (scalar : (∀ t ∈ b.fields, t.containsAggregate = false) → ∀ t ∈ fields, t.containsAggregate = false)
    {R : Row → Row → Prop} (each : List.Forall₂ R rows made)
    (agrees : ∀ r row out, Answers params b.fields r row → R row out → Answers params fields r out) :
    { b with fields, names, clauses := .projection :: b.clauses }.Denotes db params scope base made := by
  obtain ⟨found, readings, answers⟩ := denotes.answers
  have without {c : Clause} (absent : c ∉ Clause.projection :: b.clauses) : c ∉ b.clauses :=
    fun mem => absent (.tail _ mem)
  exact { denotes with
    unfiltered := fun absent => denotes.unfiltered (without absent)
    unconditional := fun absent => denotes.unconditional (without absent)
    ungrouped := fun absent =>
      have ⟨unused, unconditional, before⟩ := denotes.ungrouped (without absent)
      ⟨unused, unconditional, scalar before⟩
    groups := fun mem => denotes.groups ((List.mem_cons.1 mem).resolve_left (by decide))
    plain := fun _ absent => absurd (.head _) absent
    named := named
    answers := ⟨found, readings, forall₂_trans answers each fun r row out => agrees r row out⟩ }

theorem Denotes.renamed (named : names.length = b.names.length) : { b with names }.Denotes db params scope base rows :=
  { denotes with named := named.trans denotes.named }

end Clauses

end Block

end FederatedQuery.Sql
