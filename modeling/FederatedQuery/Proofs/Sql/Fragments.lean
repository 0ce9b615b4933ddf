import FederatedQuery.Proofs.Sql.Grouping

/-!
One operator over a fragment. Conditions, projections and groupings of a block give the rows that the
operators have in process, and only a literal can keep them from being written.
-/
namespace FederatedQuery.Sql

variable {d : Dialect} {db : Database} {params : Bindings} {scope : Scope} {base rows kept out : List Row} {b : Block}
  {f : Fragment} {next after : Nat} {names : List String} {program : Program}

theorem names_readyFor (c : Clause) : ((Fragment.block b).readyFor c next).1.names = b.names := by
  rw [Fragment.readyFor]
  split <;> rfl

/-- What a program without an unwind makes of rows: the projections of those that it accepts. -/
theorem passing_accepts {made : List (List Row)} (whole : program.unwindPosition = none)
    (arity : ∀ row ∈ rows, row.length = program.input.arity)
    (each : List.Forall₂ (fun row m => Rows.runRow program params row = .ok m) rows made) :
    ∃ kept, passing (fun row => program.accepts row params) rows = .ok kept ∧
      List.Forall₂ (fun row out => program.projectRow row params = .ok out) kept made.flatten := by
  induction each with
  | nil => exact ⟨[], rfl, .nil⟩
  | @cons row m rows made here _ ih =>
    obtain ⟨kept, passed, projected⟩ := ih fun row mem => arity row (.tail _ mem)
    rcases (Rows.runRow_eq_ok (arity row (.head _))).1 here with ⟨refused, rfl⟩ | ⟨accepted, r, evaluated, spread⟩
    · refine ⟨kept, ?_, projected⟩
      rw [passing, refused, passed]
      rfl
    · rw [whole] at spread
      cases spread
      refine ⟨row :: kept, ?_, .cons evaluated projected⟩
      rw [passing, accepted, passed]
      rfl

theorem test_of_agrees {row : Row} {r : Reading} {e : Expr} {t : Term} {v : Bool} (agrees : Agrees row params r e t)
    (tested : e.test row params = .ok v) : t.test r params = .ok v := by
  obtain ⟨w, value, tested⟩ := bind_eq_ok.1 tested
  rw [Term.test, agrees w value]
  exact tested

/-- With keys, an aggregate groups its input whatever the dialect. -/
theorem aggregateFragment_of_keys {inner : Option Nat} {group : List Nat} {calls : List AggCall}
    (keys : group ≠ []) :
    aggregateFragment d inner group calls names f next = groupFragment group calls names f next := by
  have never (count : Nat) (b : Block) : nests d count group calls b = false := by
    simp [nests, keys]
  unfold aggregateFragment
  split
  · rw [never, if_neg Bool.false_ne_true]
  · rfl

section Reading

variable (denotes : b.Denotes db params scope base rows) (columns : b.names ≠ []) (distinct : b.names.Nodup)

include denotes columns distinct

theorem denotes_conditionFragment {grouped : Bool} {condition : Expr} (groups : grouped = true → .groupBy ∈ b.clauses)
    (standard : condition.Everywhere Expr.Standard)
    (success : conditionFragment d grouped condition (.block b) next = .ok (f, after))
    (passed : passing (fun row => condition.test row params) rows = .ok kept) :
    ∃ b' scope' base', f = .block b' ∧ b'.Denotes db params scope' base' kept ∧ b'.names = b.names := by
  have calls := standard.mono fun _ => Expr.Standard.standardCall
  have agrees {fields : List Term} {t : Term} (translated : scalarTerm d fields condition = .ok t) (r : Reading)
      (row : Row) (v : Bool) (reads : Answers params fields r row) (tested : condition.test row params = .ok v) :
      t.test r params = .ok v :=
    test_of_agrees (agrees_scalarTerm reads calls translated) tested
  simp only [conditionFragment] at success
  split at success
  · next having =>
    rw [Bool.and_eq_true] at having
    obtain ⟨t, translated, success⟩ := bind_eq_ok.1 success
    cases success
    exact ⟨_, scope, base, rfl, denotes.restricted (groups having.1) having.2 (agrees translated) passed, rfl⟩
  · obtain ⟨t, translated, success⟩ := bind_eq_ok.1 success
    cases success
    obtain ⟨⟨scope', base', ready⟩, free⟩ := denotes.readyFor columns distinct (c := .filter) (by decide) next
    exact ⟨_, scope', base', rfl, ready.filtered free (agrees translated) passed, names_readyFor .filter⟩

theorem denotes_projectFragment {projects : List Expr} (standard : ∀ e ∈ projects, e.Everywhere Expr.Standard)
    (named : names.length = projects.length)
    (success : projectFragment d projects names (.block b) next = .ok (f, after))
    (each : List.Forall₂ (fun row out => Expr.evalAll row params projects = .ok out) rows out) :
    ∃ b' scope' base', f = .block b' ∧ b'.Denotes db params scope' base' out ∧ b'.names = names := by
  obtain ⟨fields, translated, success⟩ := bind_eq_ok.1 success
  cases success
  have terms := scalarTerms_eq_ok.1 translated
  have calls (e : Expr) (mem : e ∈ projects) := (standard e mem).mono fun _ => Expr.Standard.standardCall
  obtain ⟨⟨scope', base', ready⟩, _⟩ := denotes.readyFor columns distinct (c := .projection) (by decide) next
  refine ⟨_, scope', base', rfl, ready.projected (named.trans terms.length_eq) (fun scalar t mem => ?_) each
    (fun r row out reads evaluated => ?_), rfl⟩
  · obtain ⟨e, inside, here⟩ := exists_of_forall₂_right terms mem
    exact containsAggregate_scalarTerm scalar (calls e inside) here
  · refine forall₂_through terms (Expr.evalAll_eq_ok.1 evaluated) fun e mem t v here value => ?_
    exact agrees_scalarTerm reads (calls e mem) here v value

theorem denotes_columns (arity : b.names.length = program.input.arity)
    (named : names.length = program.projects.length) (standard : ∀ e ∈ program.projects, e.Everywhere Expr.Standard)
    (success : (if program.isIdentity then pure ((Fragment.block b).renamed names, next)
      else projectFragment d program.projects names (.block b) next) = .ok (f, after))
    (each : List.Forall₂ (fun row out => program.projectRow row params = .ok out) rows out) :
    ∃ b' scope' base', f = .block b' ∧ b'.Denotes db params scope' base' out ∧ b'.names = names := by
  split at success
  · next identity =>
    cases success
    rw [Program.isIdentity, Bool.and_eq_true, decide_eq_true_eq] at identity
    have unchanged : rows = out := by
      have self : List.Forall₂ (· = ·) rows rows := List.forall₂_refl rows
      rw [← List.forall₂_eq_eq_eq]
      refine forall₂_through self each ?_
      rintro row mem _ made rfl evaluated
      have long := denotes.length_eq row mem
      rw [Program.projectRow, Rows.evalAll_refs identity.2 (by omega)] at evaluated
      exact Except.ok.inj evaluated
    exact ⟨_, scope, base, rfl, unchanged ▸ denotes.renamed (by omega), rfl⟩
  · exact denotes_projectFragment denotes columns distinct standard named success each

theorem denotes_programFragment {grouped : Bool} {made : List (List Row)}
    (groups : grouped = true → .groupBy ∈ b.clauses) (arity : b.names.length = program.input.arity)
    (named : names.length = program.projects.length) (whole : program.unwindPosition = none)
    (standard : ∀ e ∈ program.projects ++ program.condition.toList, e.Everywhere Expr.Standard)
    (success : programFragment d grouped program names (.block b) next = .ok (f, after))
    (each : List.Forall₂ (fun row m => Rows.runRow program params row = .ok m) rows made) :
    ∃ b' scope' base', f = .block b' ∧ b'.Denotes db params scope' base' made.flatten ∧ b'.names = names := by
  obtain ⟨projects, conditions⟩ := List.forall_mem_append.1 standard
  obtain ⟨kept, passed, projected⟩ :=
    passing_accepts whole (fun row mem => (denotes.length_eq row mem).trans arity) each
  rw [programFragment, whole] at success
  cases condition : program.condition with
  | none =>
    simp only [condition] at success
    have all : kept = rows :=
      Except.ok.inj (passed.symm.trans (passing_const (b := true) fun row _ => by rw [Program.accepts, condition]))
    exact denotes_columns denotes columns distinct arity named projects success (all ▸ projected)
  | some c =>
    simp only [condition] at success
    simp only [Program.accepts, condition] at passed
    obtain ⟨⟨f', middle⟩, conditioned, success⟩ := bind_eq_ok.1 success
    obtain ⟨b', scope', base', rfl, denotes', same⟩ :=
      denotes_conditionFragment denotes columns distinct groups (conditions c (by simp [condition])) conditioned passed
    rw [← same] at columns distinct arity
    exact denotes_columns denotes' columns distinct arity named projects success projected

theorem denotes_aggregateFragment {inner : Option Nat} {group : List Nat} {calls : List AggCall}
    (keys : group ≠ []) (named : names.length = group.length + calls.length)
    (success : aggregateFragment d inner group calls names (.block b) next = .ok (f, after))
    (made : Rows.aggregate group calls rows = .ok out) :
    ∃ b' scope' base', f = .block b' ∧ b'.Denotes db params scope' base' out ∧ b'.names = names ∧
      .groupBy ∈ b'.clauses := by
  rw [aggregateFragment_of_keys keys] at success
  obtain ⟨keyTerms, keyed, success⟩ := bind_eq_ok.1 success
  obtain ⟨results, called, success⟩ := bind_eq_ok.1 success
  cases success
  obtain ⟨⟨scope', base', ready⟩, free⟩ := denotes.readyFor columns distinct (c := .groupBy) (by decide) next
  exact ⟨_, scope', base', rfl, ready.grouped free keyed called keys named made, rfl, .head _⟩

end Reading

section Writing

variable {count : Nat} {fields : List Term}

/-- A block has a number of fields and as many names. -/
def Block.Wide (b : Block) (count : Nat) : Prop := b.fields.length = count ∧ b.names.length = count

theorem Block.Wide.readyFor (wide : b.Wide count) (c : Clause) (next : Nat) :
    ((Fragment.block b).readyFor c next).1.Wide count := by
  rw [Fragment.readyFor]
  split
  · exact ⟨(List.length_map _).trans wide.2, wide.2⟩
  · exact wide

theorem exists_fieldTerms {indexes : List Nat} (inside : ∀ i ∈ indexes, i < fields.length) :
    ∃ ts, indexes.mapM (fieldTerm fields) = .ok ts := by
  have each : ∀ i ∈ indexes, ∃ t, fieldTerm fields i = .ok t := by
    intro i mem
    refine ⟨fields.get ⟨i, inside i mem⟩, ?_⟩
    rw [fieldTerm, List.getElem?_eq_getElem (inside i mem)]
    rfl
  obtain ⟨ts, found⟩ := exists_forall₂ each
  exact ⟨ts, mapM_eq_ok.2 found⟩

theorem exists_aggregateTerm {call : AggCall} (inside : ∀ i ∈ call.args, i < fields.length) :
    ∃ t, aggregateTerm fields call = .ok t := by
  unfold aggregateTerm
  split
  · exact ⟨_, rfl⟩
  · obtain ⟨ts, found⟩ := exists_fieldTerms inside
    rw [found]
    exact ⟨_, rfl⟩

/-- What is asked of an expression so that it can be written over some fields. -/
structure Writable (d : Dialect) (count : Nat) (e : Expr) : Prop where
  refs : ∀ i ∈ e.refs, i < count
  standard : e.Everywhere Expr.Standard
  spelled : e.Everywhere (Expr.Spelled d)

theorem Writable.exists_term {e : Expr} (writable : Writable d fields.length e) : ∃ t, scalarTerm d fields e = .ok t :=
  exists_scalarTerm writable.refs (writable.standard.mono fun _ => Expr.Standard.standardCall) writable.spelled

theorem exists_conditionFragment {condition : Expr} (wide : b.Wide count) (grouped : Bool)
    (writable : Writable d count condition) (next : Nat) : ∃ b' after,
      conditionFragment d grouped condition (.block b) next = .ok (.block b', after) ∧ b'.Wide count := by
  simp only [conditionFragment]
  split
  · obtain ⟨t, translated⟩ := Writable.exists_term (wide.1.symm ▸ writable)
    rw [translated]
    exact ⟨_, _, rfl, wide⟩
  · have ready := wide.readyFor .filter next
    obtain ⟨t, translated⟩ := Writable.exists_term (ready.1.symm ▸ writable)
    rw [translated]
    exact ⟨_, _, rfl, ready⟩

theorem exists_projectFragment {projects : List Expr} (wide : b.Wide count)
    (writable : ∀ e ∈ projects, Writable d count e) (named : names.length = projects.length) (next : Nat) :
    ∃ b' after, projectFragment d projects names (.block b) next = .ok (.block b', after) ∧
      b'.Wide projects.length := by
  have ready := wide.readyFor .projection next
  obtain ⟨ts, each⟩ := exists_forall₂ fun e mem => Writable.exists_term (ready.1.symm ▸ writable e mem)
  exact ⟨_, _, bind_eq_ok.2 ⟨ts, scalarTerms_eq_ok.2 each, rfl⟩, each.length_eq.symm, named⟩

theorem exists_columns {program : Program} (wide : b.Wide program.input.arity)
    (writable : ∀ e ∈ program.projects, Writable d program.input.arity e)
    (named : names.length = program.projects.length) (next : Nat) : ∃ b' after,
      (if program.isIdentity then pure ((Fragment.block b).renamed names, next)
        else projectFragment d program.projects names (.block b) next) = Except.ok (.block b', after) ∧
      b'.Wide program.projects.length := by
  split
  · next identity =>
    rw [Program.isIdentity, Bool.and_eq_true, decide_eq_true_eq] at identity
    exact ⟨_, _, rfl, wide.1.trans identity.1.symm, named⟩
  · exact exists_projectFragment wide writable named next

theorem exists_programFragment {program : Program} (wide : b.Wide program.input.arity) (grouped : Bool)
    (whole : program.unwindPosition = none)
    (writable : ∀ e ∈ program.projects ++ program.condition.toList, Writable d program.input.arity e)
    (named : names.length = program.projects.length) (next : Nat) : ∃ b' after,
      programFragment d grouped program names (.block b) next = .ok (.block b', after) ∧
      b'.Wide program.projects.length := by
  obtain ⟨projects, conditions⟩ := List.forall_mem_append.1 writable
  rw [programFragment, whole]
  cases condition : program.condition with
  | none => exact exists_columns wide projects named next
  | some c =>
    obtain ⟨b', middle, conditioned, wide'⟩ :=
      exists_conditionFragment wide grouped (conditions c (by simp [condition])) next
    simp only [conditioned, ok_bind]
    exact exists_columns wide' projects named middle

theorem exists_aggregateFragment {group : List Nat} {calls : List AggCall} (wide : b.Wide count) (inner : Option Nat)
    (keys : group ≠ []) (inside : ∀ i ∈ group, i < count) (arguments : ∀ call ∈ calls, ∀ i ∈ call.args, i < count)
    (named : names.length = group.length + calls.length) (next : Nat) : ∃ b' after,
      aggregateFragment d inner group calls names (.block b) next = .ok (.block b', after) ∧ b'.Wide names.length := by
  have ready := wide.readyFor .groupBy next
  obtain ⟨keyTerms, keyed⟩ := exists_fieldTerms (ready.1.symm ▸ inside)
  obtain ⟨results, called⟩ := exists_forall₂ fun call mem => exists_aggregateTerm (ready.1.symm ▸ arguments call mem)
  rw [aggregateFragment_of_keys keys, groupFragment]
  simp only [keyed, mapM_eq_ok.2 called, ok_bind]
  refine ⟨_, _, rfl, ?_, rfl⟩
  rw [List.length_append, ← (mapM_eq_ok.1 keyed).length_eq, ← called.length_eq, named]

end Writing

end FederatedQuery.Sql
