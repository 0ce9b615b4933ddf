import FederatedQuery.Pipeline.Expr
import FederatedQuery.Proofs.Simplify.Predicates

/-!
Filters with parameters. A filter that compares fields with parameters is written before the values are known, and the
values take the places of the markers later. The filter with the values in place from the start is the same one, unless
a value is null: a comparison with a null literal has no short form, and a marker always has it.
-/
namespace FederatedQuery

namespace Expr

mutual

/-- The expression with the values of bound parameters in their places. -/
def fixParams (params : Bindings) : Expr → Expr
  | param index ty => (params index).elim (param index ty) lit
  | call op operands ty => call op (fixParamsAll params operands) ty
  | e => e

def fixParamsAll (params : Bindings) : List Expr → List Expr
  | [] => []
  | e :: rest => e.fixParams params :: fixParamsAll params rest

end

theorem fixParamsAll_eq_map (params : Bindings) (es : List Expr) :
    fixParamsAll params es = es.map (fixParams params) := by
  induction es with
  | nil => rfl
  | cons _ _ ih => rw [fixParamsAll, ih, List.map_cons]

theorem conjunctsOf_eq_flatMap (es : List Expr) : conjunctsOf es = es.flatMap conjuncts := by
  induction es with
  | nil => rfl
  | cons _ _ ih => rw [conjunctsOf, ih, List.flatMap_cons]

end Expr

namespace Pipeline

open Document

variable {names : List String} {params : Bindings} {condition e other : Expr} {op : Op} {field parameter : Nat}
  {v : Value} {d d' : Document} {name : String} {ty : SqlType} {c : Constant}

/-- A comparison of a field with something else, and the operator as seen from the field. -/
inductive FieldTest (other : Expr) (field : Nat) : Expr → Op → Prop
  | fieldFirst {op : Op} {fieldType ty : SqlType} {nullable : Bool} (compares : op.isComparison = true) :
      FieldTest other field (.call op [.ref field fieldType nullable, other] ty) op
  | fieldLast {op : Op} {fieldType ty : SqlType} {nullable : Bool} (compares : op.isComparison = true) :
      FieldTest other field (.call op [other, .ref field fieldType nullable] ty) (op.reversal?.getD op)

theorem FieldTest.conjuncts (test : FieldTest other field e op) : e.conjuncts = [e] := by
  cases test with
  | fieldFirst compares | fieldLast compares =>
    rw [Expr.conjuncts, if_neg]
    rintro rfl
    cases compares

theorem FieldTest.params_eq (test : FieldTest (.param parameter ty) field e op) : e.params = [parameter] := by
  cases test <;> rfl

theorem FieldTest.fixParams (test : FieldTest (.param parameter ty) field e op) (value : params parameter = some v) :
    FieldTest (.lit v) field (e.fixParams params) op := by
  have fixed : (Expr.param parameter ty).fixParams params = .lit v := by
    rw [Expr.fixParams, value]
    rfl
  cases test with
  | fieldFirst compares =>
    rw [Expr.fixParams, Expr.fixParamsAll, Expr.fixParamsAll, fixed]
    exact .fieldFirst compares
  | fieldLast compares =>
    rw [Expr.fixParams, Expr.fixParamsAll, fixed]
    exact .fieldLast compares

theorem conjunctDocument_of_seen {left right : Expr} {seen : Op} (compares : op.isComparison = true)
    (comparison : fieldComparison? (.call op [left, right] ty) = some (seen, field, c)) (written : c.document = .ok d)
    (named : names[field]? = some name) :
    conjunctDocument names (.call op [left, right] ty) = .ok (.single name (testDocument seen d)) := by
  have found : fieldName names field = .ok name := by rw [fieldName, named]
  cases op with
  | eq | ne | lt | le | gt | ge =>
    unfold conjunctDocument
    dsimp only
    rw [comparison]
    dsimp only
    rw [written, found]
    rfl
  | _ => cases compares

theorem FieldTest.document (test : FieldTest other field e op) (constant : constant? other = some c)
    (present : c.isNull = false) (written : c.document = .ok d) (named : names[field]? = some name) :
    conjunctDocument names e = .ok (.single name (testDocument op d)) := by
  have comparable : comparable? other = some c := by
    rw [comparable?, constant, Option.filter, present]
    rfl
  cases test with
  | fieldFirst compares =>
    refine conjunctDocument_of_seen compares ?_ written named
    rw [fieldComparison?, if_pos compares, comparable]
    rfl
  | fieldLast compares =>
    refine conjunctDocument_of_seen compares ?_ written named
    cases other with
    | lit | param =>
      unfold fieldComparison?
      dsimp only
      rw [if_pos compares, comparable]
      rfl
    | _ => cases constant

theorem FieldTest.document_null (test : FieldTest (.lit .null) field e op) :
    conjunctDocument names e = .ok (.single "$expr" .null) := by
  cases test with
  | @fieldFirst op _ _ _ compares | @fieldLast op _ _ _ compares =>
    cases op with
    | eq | ne | lt | le | gt | ge => rfl
    | _ => cases compares

/-- A comparison of a field with a parameter that is bound to a value which documents can hold. -/
inductive ParameterTest (names : List String) (params : Bindings) (e : Expr) : Prop
  | intro {op : Op} {field parameter : Nat} {ty : SqlType} {v : Value} {d : Document}
      (test : FieldTest (.param parameter ty) field e op) (there : field < names.length)
      (index : parameter < UInt64.size) (value : params parameter = some v) (encodes : Document.ofValue v = .ok d)

theorem ParameterTest.conjuncts_eq (test : ParameterTest names params e) : e.conjuncts = [e] := by
  obtain ⟨test, -, -, -, -⟩ := test
  exact test.conjuncts

/-- A conjunction, of any depth, of comparisons of fields with parameters. -/
inductive ParameterTests (names : List String) (params : Bindings) : Expr → Prop
  | one {e : Expr} (test : ParameterTest names params e) : ParameterTests names params e
  | all {operands : List Expr} {ty : SqlType} (each : ∀ e ∈ operands, ParameterTests names params e) :
      ParameterTests names params (.call .and operands ty)

theorem markerIndex?_marker (small : parameter < UInt64.size) : markerIndex? (marker parameter) = some parameter := by
  have range : (0 : Int) ≤ parameter ∧ (parameter : Int) < UInt64.size := by omega
  rw [marker, single, markerIndex?, if_pos rfl, nat64?, if_pos range, Int.toNat_natCast]

theorem bind_marker (small : parameter < UInt64.size) (value : params parameter = some v) :
    (marker parameter).bind params = Document.ofValue v := by
  have index : markerIndex? (.object [("$dynamic", .int parameter)]) = some parameter := markerIndex?_marker small
  rw [marker, single, Document.bind, index]
  dsimp only
  rw [boundDocument, value]

theorem bind_single {key : String} (plain : d.nat64? = none) (bound : d.bind params = .ok d') :
    (single key d).bind params = .ok (single key d') := by
  have unmarked : markerIndex? (.object [(key, d)]) = none := by
    rw [markerIndex?, plain, ite_self]
  rw [single, Document.bind, unmarked]
  rw [bindEntries, bound]
  rfl

theorem bindAll_eq_mapM (items : List Document) : bindAll params items = items.mapM (Document.bind params) := by
  induction items with
  | nil => rfl
  | cons _ _ ih => rw [bindAll, ih, List.mapM_cons]

theorem bind_testDocument (op : Op) (bound : d.bind params = .ok d') (plain : d.nat64? = none) :
    (testDocument op d).bind params = .ok (testDocument op d') := by
  cases op with
  | ne =>
    refine bind_single rfl ?_
    rw [Document.bind, bindAll_eq_mapM, List.mapM_cons, bound]
    rfl
  | _ => exact bind_single plain bound

theorem nat64?_testDocument (op : Op) (d : Document) : (testDocument op d).nat64? = none := by
  cases op <;> rfl

/-- A clause after its parameter is bound, and the clause with the value in place from the start. -/
theorem ParameterTest.clauses (test : ParameterTest names params e) : ∃ clause bound direct,
    conjunctDocument names e = .ok clause ∧ clause.bind params = .ok bound ∧
      conjunctDocument names (e.fixParams params) = .ok direct ∧
      (bound = direct ↔ ∀ i ∈ e.params, params i ≠ some .null) := by
  obtain @⟨op, field, parameter, ty, v, d, test, there, index, value, encodes⟩ := test
  have named : names[field]? = some (names.get ⟨field, there⟩) := List.getElem?_eq_getElem there
  have prepared := test.document (c := .param parameter) rfl rfl rfl named
  have bound : (single (names.get ⟨field, there⟩) (testDocument op (marker parameter))).bind params =
      .ok (single (names.get ⟨field, there⟩) (testDocument op d)) :=
    bind_single (nat64?_testDocument op _) (bind_testDocument op ((bind_marker index value).trans encodes) rfl)
  have fixed := test.fixParams value
  by_cases null : v = .null
  · subst null
    refine ⟨_, _, _, prepared, bound, fixed.document_null, fun same => ?_, fun never => ?_⟩
    · cases encodes
      have test : testDocument op .null = .null := (Prod.mk.inj (List.cons.inj (Document.object.inj same)).1).2
      cases op <;> cases test
    · exact absurd value (never parameter (test.params_eq ▸ List.mem_singleton_self _))
  · have present : (Constant.value v).isNull = false := by
      cases v with
      | null => exact absurd rfl null
      | _ => rfl
    refine ⟨_, _, _, prepared, bound, fixed.document (c := .value v) rfl present encodes named, ?_⟩
    refine iff_of_true rfl fun i mem => ?_
    rw [test.params_eq, List.mem_singleton] at mem
    rw [mem, value]
    exact fun same => null (Option.some.inj same)

theorem exists_clauses {es : List Expr} (each : ∀ e ∈ es, ParameterTest names params e) : ∃ clauses bounds directs,
    es.mapM (conjunctDocument names) = .ok clauses ∧ bindAll params clauses = .ok bounds ∧
      (es.map (Expr.fixParams params)).mapM (conjunctDocument names) = .ok directs ∧
      bounds.length = directs.length ∧
      (bounds = directs ↔ ∀ e ∈ es, ∀ i ∈ e.params, params i ≠ some .null) := by
  induction es with
  | nil => exact ⟨[], [], [], rfl, rfl, rfl, rfl, by simp⟩
  | cons _ _ ih =>
    rw [List.forall_mem_cons] at each
    obtain ⟨clause, bound, direct, written, binds, fixed, same⟩ := each.1.clauses
    obtain ⟨clauses, bounds, directs, written', binds', fixed', lengths, same'⟩ := ih each.2
    refine ⟨clause :: clauses, bound :: bounds, direct :: directs, ?_, ?_, ?_, congrArg (· + 1) lengths, ?_⟩
    · rw [List.mapM_cons, written, written']
      rfl
    · rw [bindAll, binds, binds']
      rfl
    · rw [List.map_cons, List.mapM_cons, fixed, fixed']
      rfl
    · rw [List.cons.injEq, same, same', List.forall_mem_cons]

def joined : List Document → Document
  | [clause] => clause
  | clauses => applied "$and" clauses

theorem filterDocument_eq_ok {clauses : List Document}
    (written : condition.conjuncts.mapM (conjunctDocument names) = .ok clauses) :
    filterDocument names condition = .ok (joined clauses) := by
  rw [filterDocument, written]
  rcases clauses with _ | ⟨_, _ | ⟨_, _⟩⟩ <;> rfl

theorem bind_joined {clauses bounds : List Document} (binds : bindAll params clauses = .ok bounds) :
    (joined clauses).bind params = .ok (joined bounds) := by
  have list : (Document.array clauses).bind params = .ok (.array bounds) := by
    rw [Document.bind, binds]
    rfl
  have related := mapM_eq_ok.1 (bindAll_eq_mapM clauses ▸ binds)
  rcases related with _ | ⟨first, _ | ⟨_, _⟩⟩
  · exact bind_single rfl list
  · exact first
  · exact bind_single rfl list

theorem joined_inj {left right : List Document} (lengths : left.length = right.length) :
    joined left = joined right ↔ left = right := by
  rcases left with _ | ⟨_, _ | ⟨_, _⟩⟩ <;> rcases right with _ | ⟨_, _ | ⟨_, _⟩⟩ <;>
    simp [joined, applied, single] at lengths ⊢

theorem ParameterTests.conjuncts (tests : ParameterTests names params condition) :
    ∀ e ∈ condition.conjuncts, ParameterTest names params e := by
  induction tests with
  | one test =>
    rw [test.conjuncts_eq]
    exact List.forall_mem_singleton.2 test
  | all each ih =>
    intro e mem
    obtain ⟨operand, inside, mem⟩ := Expr.mem_conjunctsOf.1 mem
    exact ih operand inside e mem

theorem ParameterTests.conjuncts_fixParams (tests : ParameterTests names params condition) :
    (condition.fixParams params).conjuncts = condition.conjuncts.map (Expr.fixParams params) := by
  induction tests with
  | one test =>
    obtain ⟨test, -, -, value, -⟩ := test
    rw [test.conjuncts, (test.fixParams value).conjuncts, List.map_singleton]
  | @all operands ty each ih =>
    rw [Expr.fixParams, Expr.conjuncts, if_pos rfl, Expr.conjuncts, if_pos rfl, Expr.fixParamsAll_eq_map,
      Expr.conjunctsOf_eq_flatMap, Expr.conjunctsOf_eq_flatMap, List.flatMap_map, List.map_flatMap]
    exact List.flatMap_congr ih

theorem ParameterTests.mem_params (tests : ParameterTests names params condition) {i : Nat} :
    i ∈ condition.params ↔ ∃ e ∈ condition.conjuncts, i ∈ e.params := by
  induction tests with
  | one test => simp [test.conjuncts_eq]
  | @all operands ty each ih =>
    rw [Expr.params, Expr.mem_paramsOf]
    constructor
    · rintro ⟨operand, inside, mem⟩
      obtain ⟨e, conjunct, mem⟩ := (ih operand inside).1 mem
      exact ⟨e, Expr.mem_conjunctsOf.2 ⟨operand, inside, conjunct⟩, mem⟩
    · rintro ⟨e, conjunct, mem⟩
      obtain ⟨operand, inside, conjunct⟩ := Expr.mem_conjunctsOf.1 conjunct
      exact ⟨operand, inside, (ih operand inside).2 ⟨e, conjunct, mem⟩⟩

/-- A filter of comparisons of fields with parameters is written, its parameters are bound, and the filter with the
values in place from the start is written too. The last two are the same exactly when none of the values is null. -/
theorem bind_filterDocument_iff (tests : ParameterTests names params condition) : ∃ template bound direct,
    filterDocument names condition = .ok template ∧ template.bind params = .ok bound ∧
      filterDocument names (condition.fixParams params) = .ok direct ∧
      (bound = direct ↔ ∀ i ∈ condition.params, params i ≠ some .null) := by
  obtain ⟨clauses, bounds, directs, written, binds, fixed, lengths, same⟩ := exists_clauses tests.conjuncts
  rw [← tests.conjuncts_fixParams] at fixed
  refine ⟨_, _, _, filterDocument_eq_ok written, bind_joined binds, filterDocument_eq_ok fixed, ?_⟩
  rw [joined_inj lengths, same]
  constructor
  · intro never i mem
    obtain ⟨e, conjunct, mem⟩ := tests.mem_params.1 mem
    exact never e conjunct i mem
  · intro never e conjunct i mem
    exact never i (tests.mem_params.2 ⟨e, conjunct, mem⟩)

/-- A test of a field with a parameter on the right, and of one with a parameter on the left. -/
def search : Expr :=
  .call .and [.call .lt [.ref 0 .integer false, .param 0 .integer] .boolean,
    .call .and [.call .eq [.param 1 (.varchar none), .ref 1 (.varchar none) true] .boolean] .boolean] .boolean

theorem bind_filterDocument_iff_search :
    let names := ["id", "name"]
    let params (v : Value) : Bindings := fun i => if i = 0 then some (.int 5) else some v
    (∃ template bound direct, filterDocument names search = .ok template ∧
      template.bind (params (.string "x")) = .ok bound ∧
      filterDocument names (search.fixParams (params (.string "x"))) = .ok direct ∧ bound = direct) ∧
    (∃ template bound direct, filterDocument names search = .ok template ∧ template.bind (params .null) = .ok bound ∧
      filterDocument names (search.fixParams (params .null)) = .ok direct ∧ bound ≠ direct) := by
  intro names params
  have tests {v : Value} {d : Document} (encodes : Document.ofValue v = .ok d) :
      ParameterTests names (params v) search := by
    have first : ParameterTests names (params v) (.call .lt [.ref 0 .integer false, .param 0 .integer] .boolean) :=
      .one (.intro (.fieldFirst rfl) (by decide) (by decide) rfl rfl)
    have second : ParameterTests names (params v)
        (.call .eq [.param 1 (.varchar none), .ref 1 (.varchar none) true] .boolean) :=
      .one (.intro (.fieldLast rfl) (by decide) (by decide) rfl encodes)
    exact .all (List.forall_mem_cons.2 ⟨first, List.forall_mem_singleton.2
      (.all (List.forall_mem_singleton.2 second))⟩)
  obtain ⟨t, b, d, written, binds, fixed, same⟩ := bind_filterDocument_iff (tests (v := .string "x") rfl)
  obtain ⟨t', b', d', written', binds', fixed', same'⟩ := bind_filterDocument_iff (tests (v := .null) rfl)
  refine ⟨⟨t, b, d, written, binds, fixed, same.2 ?_⟩, t', b', d', written', binds', fixed', fun equal => ?_⟩
  · intro i mem null
    simp [params] at null
    split at null <;> cases null
  · exact same'.1 equal 1 (by decide) rfl

end Pipeline

end FederatedQuery
