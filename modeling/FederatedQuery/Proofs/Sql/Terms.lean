import FederatedQuery.Proofs.Expr.Evaluation
import FederatedQuery.Proofs.Sql.Meaning
import FederatedQuery.Sql.Scalar

/-!
Expressions as terms. A term has the value of the expression that it is made of, wherever the terms of the
fields have the values of the fields.
-/
namespace FederatedQuery

/-- The operators that every dialect writes in the standard way, with the number of operands that they take. -/
def Op.isStandard (op : Op) (operands : Nat) : Bool :=
  match op with
  | .eq | .ne | .lt | .le | .gt | .ge | .plus | .minus | .times => operands = 2
  | .not | .isNull | .isNotNull | .isTrue | .isFalse => operands = 1
  | .and | .or | .case | .coalesce => true
  | _ => false

/-- A reference, a parameter, a literal other than a truth value, or a call of a standard operator. -/
def Expr.Standard : Expr → Prop
  | .lit (.bool _) => False
  | .call op operands _ => op.isStandard operands.length = true
  | _ => True

/-- A reference, a parameter, any literal, or a call of a standard operator. -/
def Expr.StandardCall : Expr → Prop
  | .call op operands _ => op.isStandard operands.length = true
  | _ => True

theorem Expr.Standard.standardCall {e : Expr} (standard : e.Standard) : e.StandardCall := by
  cases e with
  | call => exact standard
  | _ => trivial

/-- A literal that a dialect can write. -/
def Expr.Spelled (d : Dialect) : Expr → Prop
  | .lit (.float x) => x.isFinite = true
  | .lit (.array _) => d.arrays = true
  | _ => True

namespace Sql

/-- The symbol between two operands. -/
def symbolBetween? : Op → Option String
  | .eq => some "="
  | .ne => some "<>"
  | .lt => some "<"
  | .le => some "<="
  | .gt => some ">"
  | .ge => some ">="
  | .plus => some "+"
  | .minus => some "-"
  | .times => some "*"
  | _ => none

def symbolBehind? : Op → Option String
  | .isNull => some "IS NULL"
  | .isNotNull => some "IS NOT NULL"
  | .isTrue => some "IS TRUE"
  | .isFalse => some "IS FALSE"
  | _ => none

def connectiveSymbol (stop : Bool) : String := if stop then "OR" else "AND"

/-- What a call of a standard operator is written as. -/
inductive Written (d : Dialect) : Op → List Term → Term → Prop
  | between {op : Op} {symbol : String} (found : symbolBetween? op = some symbol) (left right : Term) :
      Written d op [left, right] (.binary symbol left right)
  | negated (t : Term) : Written d .not [t] (.unary "NOT" t)
  | behind {op : Op} {symbol : String} (found : symbolBehind? op = some symbol) (t : Term) :
      Written d op [t] (.suffixed t symbol)
  | nothing {stop : Bool} {t : Term} (literal : literalTerm d (.bool !stop) = .ok t) :
      Written d (Expr.connective stop) [] t
  | chained (stop : Bool) (first : Term) (rest : List Term) :
      Written d (Expr.connective stop) (first :: rest) (rest.foldl (.binary (connectiveSymbol stop)) first)
  | choice (ts : List Term) : Written d .case ts (.case (caseTerm ts).1 (caseTerm ts).2)
  | alternative (ts : List Term) : Written d .coalesce ts (.function "COALESCE" false ts)

theorem exists_written (d : Dialect) {op : Op} {ts : List Term} (ty : SqlType)
    (standard : op.isStandard ts.length = true) : ∃ t, callTerm d op ts ty = .ok t ∧ Written d op ts t := by
  have pair (two : ts.length = 2) : ∃ a b, ts = [a, b] := List.length_eq_two.1 two
  have single (one : ts.length = 1) : ∃ a, ts = [a] := List.length_eq_one_iff.1 one
  cases op with
  | eq | ne | lt | le | gt | ge | plus | minus | times =>
    obtain ⟨a, b, rfl⟩ := pair (of_decide_eq_true standard)
    exact ⟨_, rfl, .between rfl a b⟩
  | not =>
    obtain ⟨a, rfl⟩ := single (of_decide_eq_true standard)
    exact ⟨_, rfl, .negated a⟩
  | isNull | isNotNull | isTrue | isFalse =>
    obtain ⟨a, rfl⟩ := single (of_decide_eq_true standard)
    exact ⟨_, rfl, .behind rfl a⟩
  | and =>
    cases ts with
    | nil => exact ⟨_, rfl, @Written.nothing d false _ rfl⟩
    | cons first rest => exact ⟨_, rfl, .chained false first rest⟩
  | or =>
    cases ts with
    | nil => exact ⟨_, rfl, @Written.nothing d true _ rfl⟩
    | cons first rest => exact ⟨_, rfl, .chained true first rest⟩
  | case => exact ⟨_, rfl, .choice ts⟩
  | coalesce => exact ⟨_, rfl, .alternative ts⟩
  | _ => cases standard

section Evaluation

variable {d : Dialect} {row : Row} {params : Bindings} {r : Reading} {op : Op} {symbol : String} {es : List Expr}
  {ts : List Term} {t : Term} {u : Truth}

/-- A term has the value of an expression on a row. -/
def Agrees (row : Row) (params : Bindings) (r : Reading) (e : Expr) (t : Term) : Prop :=
  ∀ v, e.eval row params = .ok v → t.eval r params = .ok v

theorem applyValues_between (found : symbolBetween? op = some symbol) (a b : Value) (ty : SqlType) :
    op.applyValues [a, b] .any = op.applyValues [a, b] ty := by
  cases op <;> cases found <;> rfl

theorem applyValues_behind (found : symbolBehind? op = some symbol) (a : Value) (ty : SqlType) :
    op.applyValues [a] .any = op.applyValues [a] ty := by
  cases op <;> cases found <;> rfl

theorem applyBinary_of_symbolBetween (found : symbolBetween? op = some symbol) (left right : Except Error Value) :
    applyBinary symbol left right = strictly op left right := by
  cases op <;> cases found <;> rfl

theorem suffixOp?_of_symbolBehind (found : symbolBehind? op = some symbol) : suffixOp? symbol = some op := by
  cases op <;> cases found <;> rfl

/-- Two operands under a connective: the second is tested unless the first stops. -/
theorem applyBinary_connective (stop : Bool) {left right : Except Error Value} {t : Truth}
    (first : left = .ok t.toValue) (second : t ≠ some stop → ∃ v, right = .ok v ∧ v.truth = .ok u) :
    applyBinary (connectiveSymbol stop) left right =
      .ok (if t = some stop then t else Truth.join stop t u).toValue := by
  by_cases stops : t = some stop
  · subst stops
    cases stop <;> cases first <;> rfl
  · obtain ⟨v, rfl, known⟩ := second stops
    subst first
    cases stop with
    | false =>
      change conjoined (.ok t.toValue) (.ok v) = _
      simp only [conjoined, ok_bind, Truth.truth_toValue, known]
      rcases t with _ | _ | _
      · rcases u with _ | _ | _ <;> rfl
      · exact absurd rfl stops
      · rcases u with _ | _ | _ <;> rfl
    | true =>
      change disjoined (.ok t.toValue) (.ok v) = _
      simp only [disjoined, ok_bind, Truth.truth_toValue, known]
      rcases t with _ | _ | _
      · rcases u with _ | _ | _ <;> rfl
      · rcases u with _ | _ | _ <;> rfl
      · exact absurd rfl stops

/-- The operands so far and those that follow, from left to right, come to what testing them in order does. -/
theorem eval_foldl (stop : Bool) (each : List.Forall₂ (Agrees row params r) es ts) {front : Term} {t : Truth}
    (before : front.eval r params = .ok t.toValue) (after : t ≠ some stop → Expr.evalUntil row params stop es = .ok u) :
    (ts.foldl (.binary (connectiveSymbol stop)) front).eval r params =
      .ok (if t = some stop then t else Truth.join stop t u).toValue := by
  induction each generalizing front t u with
  | nil =>
    rw [List.foldl_nil, before]
    split
    · rfl
    · next goes =>
      cases after goes
      rw [Truth.join_pass goes]
  | @cons e x es ts agrees _ ih =>
    rw [List.foldl_cons]
    by_cases stops : t = some stop
    · have next : (Term.binary (connectiveSymbol stop) front x).eval r params = .ok t.toValue := by
        rw [Term.eval, applyBinary_connective (u := u) stop before (fun goes => absurd stops goes), if_pos stops]
      rw [ih next fun goes => absurd stops goes]
    · have known := after stops
      rw [Expr.evalUntil_cons] at known
      obtain ⟨w, here, known⟩ := bind_eq_ok.1 known
      obtain ⟨v, value, truth⟩ := bind_eq_ok.1 here
      have next : (Term.binary (connectiveSymbol stop) front x).eval r params = .ok (Truth.join stop t w).toValue := by
        rw [Term.eval, applyBinary_connective stop before (fun _ => ⟨v, agrees v value, truth⟩), if_neg stops]
      rw [if_neg stops]
      by_cases last : w = some stop
      · rw [if_pos last] at known
        cases known
        rw [ih (u := u) next fun goes => absurd (Truth.join_eq_stop.2 last) goes, if_pos (Truth.join_eq_stop.2 last)]
      · rw [if_neg last] at known
        obtain ⟨rest, later, rfl⟩ := map_eq_ok.1 known
        rw [ih next fun _ => later, if_neg (mt Truth.join_eq_stop.1 last), Truth.join_assoc rest last]

variable {v : Value}

theorem evalBranches_caseTerm (each : List.Forall₂ (Agrees row params r) es ts)
    (outcome : Expr.evalCase row params es = .ok v) :
    Term.evalBranches r params (Term.evalDefault r params (caseTerm ts).2) (caseTerm ts).1 = .ok v := by
  induction ts using caseTerm.induct generalizing es with
  | case1 =>
    cases each
    exact outcome
  | case2 =>
    obtain ⟨e, _, only, last, rfl⟩ := List.forall₂_cons_right_iff.1 each
    cases last
    exact only v outcome
  | case3 condition result rest _ _ _ ih =>
    obtain ⟨e, _, first, later, rfl⟩ := List.forall₂_cons_right_iff.1 each
    obtain ⟨e', es, second, others, rfl⟩ := List.forall₂_cons_right_iff.1 later
    obtain ⟨w, value, outcome⟩ := bind_eq_ok.1 outcome
    obtain ⟨t, truth, outcome⟩ := bind_eq_ok.1 outcome
    rw [caseTerm, Term.evalBranches, first w value, ok_bind, truth]
    rcases t with _ | _ | _
    · exact ih others outcome
    · exact ih others outcome
    · exact second v outcome

theorem evalFirst_of_evalCoalesce (each : List.Forall₂ (Agrees row params r) es ts)
    (outcome : Expr.evalCoalesce row params es = .ok v) : Term.evalFirst r params ts = .ok v := by
  induction each with
  | nil => exact outcome
  | cons first _ ih =>
    obtain ⟨w, value, outcome⟩ := bind_eq_ok.1 outcome
    rw [Term.evalFirst, first w value, ok_bind]
    split at outcome
    · next null => rw [if_pos null, ih outcome]
    · next present => rwa [if_neg present]

theorem exists_values {ty : SqlType} (eager : op.isEager = true) (each : List.Forall₂ (Agrees row params r) es ts)
    (outcome : (Expr.call op es ty).eval row params = .ok v) :
    ∃ args, List.Forall₂ (fun t v => t.eval r params = .ok v) ts args ∧ op.applyValues args ty = .ok v := by
  rw [Expr.eval_eager eager] at outcome
  obtain ⟨args, all, applied⟩ := bind_eq_ok.1 outcome
  exact ⟨args, forall₂_through each (Expr.evalAll_eq_ok.1 all) fun _ _ _ v agrees value => agrees v value, applied⟩

theorem isEager_of_symbolBetween (found : symbolBetween? op = some symbol) : op.isEager = true := by
  cases op <;> first | rfl | cases found

theorem isEager_of_symbolBehind (found : symbolBehind? op = some symbol) : op.isEager = true := by
  cases op <;> first | rfl | cases found

theorem eval_literalTerm (success : literalTerm d v = .ok t) : t.eval r params = .ok v := by
  cases v with
  | bool b =>
    rw [literalTerm] at success
    split at success
    · cases success
      rfl
    · cases success
      cases b <;> rfl
  | float | array =>
    rw [literalTerm] at success
    split at success <;> cases success
    rfl
  | _ =>
    cases success
    rfl

theorem agrees_written (ty : SqlType) (written : Written d op ts t) (each : List.Forall₂ (Agrees row params r) es ts) :
    Agrees row params r (.call op es ty) t := by
  intro v outcome
  cases written with
  | between found left right =>
    obtain ⟨_, _ | ⟨first, _ | ⟨second, _ | _⟩⟩, applied⟩ := exists_values (isEager_of_symbolBetween found) each outcome
    rw [Term.eval, applyBinary_of_symbolBetween found, first, second]
    exact (applyValues_between found _ _ ty).trans applied
  | negated =>
    obtain ⟨_, _ | ⟨value, _ | _⟩, applied⟩ := exists_values rfl each outcome
    rw [Term.eval, value]
    exact applied
  | behind found t =>
    obtain ⟨_, _ | ⟨value, _ | _⟩, applied⟩ := exists_values (isEager_of_symbolBehind found) each outcome
    rw [Term.eval, suffixOp?_of_symbolBehind found, value]
    exact (applyValues_behind found _ ty).trans applied
  | @nothing stop t literal =>
    rw [Expr.eval_connective, List.forall₂_nil_right_iff.1 each] at outcome
    cases outcome
    exact eval_literalTerm literal
  | chained stop first rest =>
    rw [Expr.eval_connective, map_eq_ok] at outcome
    obtain ⟨t, known, rfl⟩ := outcome
    obtain ⟨e, es, agrees, others, rfl⟩ := List.forall₂_cons_right_iff.1 each
    rw [Expr.evalUntil_cons] at known
    obtain ⟨u, here, known⟩ := bind_eq_ok.1 known
    obtain ⟨w, value, truth⟩ := bind_eq_ok.1 here
    have front : first.eval r params = .ok u.toValue := by rw [agrees w value, Value.toValue_of_truth truth]
    by_cases stops : u = some stop
    · rw [if_pos stops] at known
      cases known
      rw [eval_foldl (u := t) stop others front fun goes => absurd stops goes, if_pos stops]
    · rw [if_neg stops] at known
      obtain ⟨w, later, rfl⟩ := map_eq_ok.1 known
      rw [eval_foldl stop others front fun _ => later, if_neg stops]
  | choice => exact evalBranches_caseTerm each outcome
  | alternative =>
    rw [Expr.eval] at outcome
    exact evalFirst_of_evalCoalesce each outcome

end Evaluation

section Translation

variable {d : Dialect} {fields : List Term} {e : Expr} {t : Term} {es : List Expr} {params : Bindings} {r : Reading}
  {row : Row}

theorem scalarTerms_eq_mapM (es : List Expr) : scalarTerms d fields es = es.mapM (scalarTerm d fields) := by
  induction es with
  | nil => rfl
  | cons _ _ ih => rw [scalarTerms, List.mapM_cons, ih]

theorem scalarTerms_eq_ok {ts : List Term} :
    scalarTerms d fields es = .ok ts ↔ List.Forall₂ (fun e t => scalarTerm d fields e = .ok t) es ts := by
  rw [scalarTerms_eq_mapM, mapM_eq_ok]

theorem written_of_scalarTerm {op : Op} {ty : SqlType}
    (standard : op.isStandard es.length = true) (success : scalarTerm d fields (.call op es ty) = .ok t) :
    ∃ ts, List.Forall₂ (fun e t => scalarTerm d fields e = .ok t) es ts ∧ Written d op ts t := by
  obtain ⟨ts, operands, success⟩ := bind_eq_ok.1 success
  have each := scalarTerms_eq_ok.1 operands
  obtain ⟨t', called, written⟩ := exists_written d ty (each.length_eq ▸ standard)
  cases called.symm.trans success
  exact ⟨ts, each, written⟩

/-- A term has the value of its expression where the terms of the fields that are referred to have those of the
fields. -/
theorem agrees_of_refs (reads : ∀ i ∈ e.refs, ∀ t v, fields[i]? = some t → row[i]? = some v → t.eval r params = .ok v)
    (standard : e.Everywhere Expr.StandardCall) (success : scalarTerm d fields e = .ok t) :
    Agrees row params r e t := by
  induction e using Expr.induction generalizing t with
  | ref index ty nullable =>
    intro v value
    rw [scalarTerm, fieldTerm] at success
    rw [Expr.eval, Expr.field_eq_ok] at value
    split at success
    · next located =>
      cases success
      exact reads index (.head _) t v located value
    · cases success
  | lit =>
    intro w value
    cases value
    exact eval_literalTerm success
  | param =>
    cases success
    exact fun v value => value
  | call op es ty ih =>
    obtain ⟨ts, each, written⟩ := written_of_scalarTerm standard.here success
    refine agrees_written ty written ?_
    obtain ⟨long, each⟩ := List.forall₂_iff_zip.1 each
    refine List.forall₂_iff_zip.2 ⟨long, fun mem => ?_⟩
    have inside := (List.of_mem_zip mem).1
    exact ih _ inside (fun i ref => reads i (Expr.mem_refsOf.2 ⟨_, inside, ref⟩)) (standard.operands _ inside)
      (each mem)

theorem agrees_scalarTerm (reads : List.Forall₂ (fun t v => t.eval r params = .ok v) fields row)
    (standard : e.Everywhere Expr.StandardCall) (success : scalarTerm d fields e = .ok t) :
    Agrees row params r e t := by
  refine agrees_of_refs (fun _ _ _ _ located value => ?_) standard success
  have there := forall₂_getElem? reads located value
  exact there

theorem exists_literalTerm {v : Value} (spelled : (Expr.lit v).Spelled d) : ∃ t, literalTerm d v = .ok t := by
  cases v with
  | float | array => exact ⟨_, if_pos spelled⟩
  | _ => exact ⟨_, rfl⟩

/-- Only a literal can fail to be translated. -/
theorem exists_scalarTerm (inside : ∀ i ∈ e.refs, i < fields.length) (standard : e.Everywhere Expr.StandardCall)
    (spelled : e.Everywhere (Expr.Spelled d)) : ∃ t, scalarTerm d fields e = .ok t := by
  induction e using Expr.induction with
  | ref index ty nullable =>
    have bound := inside index (.head _)
    refine ⟨fields.get ⟨index, bound⟩, ?_⟩
    rw [scalarTerm, fieldTerm, List.getElem?_eq_getElem bound]
    rfl
  | lit => exact exists_literalTerm (Expr.everywhere_lit.1 spelled)
  | param => exact ⟨_, rfl⟩
  | call op es ty ih =>
    obtain ⟨ts, each⟩ : ∃ ts, List.Forall₂ (fun e t => scalarTerm d fields e = .ok t) es ts :=
      exists_forall₂ fun e mem => ih e mem (fun i ref => inside i (Expr.mem_refsOf.2 ⟨e, mem, ref⟩))
        (standard.operands e mem) (spelled.operands e mem)
    have count : op.isStandard ts.length = true := each.length_eq ▸ (standard.here : op.isStandard es.length = true)
    obtain ⟨t, called, _⟩ := exists_written d ty count
    exact ⟨t, by rw [scalarTerm, scalarTerms_eq_ok.2 each, ok_bind, called]⟩

section Aggregates

theorem anyAggregate_eq (ts : List Term) : Term.anyAggregate ts = ts.any Term.containsAggregate := by
  induction ts with
  | nil => rfl
  | cons _ _ ih => rw [Term.anyAggregate, List.any_cons, ih]

theorem containsAggregate_foldl (symbol : String) (front : Term) (ts : List Term) :
    (ts.foldl (.binary symbol) front).containsAggregate = (front :: ts).any Term.containsAggregate := by
  induction ts generalizing front with
  | nil => rw [List.foldl_nil, List.any_cons, List.any_nil, Bool.or_false]
  | cons _ _ ih => rw [List.foldl_cons, ih, List.any_cons, Term.containsAggregate, Bool.or_assoc]; rfl

theorem containsAggregate_caseTerm (ts : List Term) :
    (Term.branchesAggregate (caseTerm ts).1 || Term.optionAggregate (caseTerm ts).2) =
      ts.any Term.containsAggregate := by
  induction ts using caseTerm.induct with
  | case1 => rfl
  | case2 => rw [List.any_cons, List.any_nil, Bool.or_false]; rfl
  | case3 condition result rest _ _ _ ih =>
    rw [caseTerm, Term.branchesAggregate, List.any_cons, List.any_cons, ← ih, Bool.or_assoc, Bool.or_assoc]

theorem containsAggregate_literalTerm {v : Value} (success : literalTerm d v = .ok t) :
    t.containsAggregate = false := by
  cases v with
  | bool | float | array =>
    rw [literalTerm] at success
    split at success <;> cases success <;> rfl
  | _ =>
    cases success
    rfl

variable {ts : List Term} {aggregates : Bool}

theorem containsAggregate_written {op : Op} (written : Written d op ts t) :
    t.containsAggregate = ts.any Term.containsAggregate := by
  cases written with
  | between | negated | behind => simp [Term.containsAggregate]
  | nothing literal => exact containsAggregate_literalTerm literal
  | chained stop first rest => exact containsAggregate_foldl _ first rest
  | choice ts => exact containsAggregate_caseTerm ts
  | alternative => rw [Term.containsAggregate, anyAggregate_eq]; rfl

theorem any_containsAggregate {es : List Expr}
    (each : List.Forall₂ (fun e t => t.containsAggregate = (aggregates && !e.refs.isEmpty)) es ts) :
    ts.any Term.containsAggregate = (aggregates && !(Expr.refsOf es).isEmpty) := by
  induction each with
  | nil => exact (Bool.and_false aggregates).symm
  | @cons e t es ts here _ ih =>
    have split : (e.refs ++ Expr.refsOf es).isEmpty = (e.refs.isEmpty && (Expr.refsOf es).isEmpty) := by
      cases e.refs <;> rfl
    rw [List.any_cons, here, ih, Expr.refsOf, split, Bool.not_and, Bool.and_or_distrib_left]

/-- Translating brings in no aggregate: those of a term come from the fields that its expression refers to. -/
theorem containsAggregate_scalarTerm (uniform : ∀ t ∈ fields, t.containsAggregate = aggregates)
    (standard : e.Everywhere Expr.StandardCall) (success : scalarTerm d fields e = .ok t) :
    t.containsAggregate = (aggregates && !e.refs.isEmpty) := by
  induction e using Expr.induction generalizing t with
  | ref =>
    rw [scalarTerm, fieldTerm] at success
    split at success
    · next located =>
      cases success
      rw [uniform t (List.mem_of_getElem? located)]
      exact (Bool.and_true aggregates).symm
    · cases success
  | lit =>
    rw [containsAggregate_literalTerm success]
    exact (Bool.and_false aggregates).symm
  | param =>
    cases success
    exact (Bool.and_false aggregates).symm
  | call op es ty ih =>
    obtain ⟨ts, each, written⟩ := written_of_scalarTerm standard.here success
    rw [containsAggregate_written written]
    obtain ⟨long, each⟩ := List.forall₂_iff_zip.1 each
    refine any_containsAggregate (List.forall₂_iff_zip.2 ⟨long, fun mem => ?_⟩)
    have inside := (List.of_mem_zip mem).1
    exact ih _ inside (standard.operands _ inside) (each mem)

end Aggregates

end Translation

end Sql

end FederatedQuery
