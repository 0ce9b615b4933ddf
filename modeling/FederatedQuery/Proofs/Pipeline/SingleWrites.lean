import FederatedQuery.Pipeline.Prepared
import FederatedQuery.Plan.Build
import FederatedQuery.Proofs.Pipeline.Binding

/-!
Writes to one document. A condition that compares every field of the primary key with a constant for equality is true on
one row at most of those that a table can hold together, whatever else it asks for and whatever its parameters are.
-/
namespace FederatedQuery

namespace Expr

variable {row : Row} {params : Bindings}

/-- Whether a condition is true on a row. -/
def isTrueOn (condition : Expr) (params : Bindings) (row : Row) : Bool :=
  match condition.eval row params with
  | .ok (.bool b) => b
  | _ => false

theorem eval_of_isTrueOn {condition : Expr} (holds : condition.isTrueOn params row = true) :
    condition.eval row params = .ok (.bool true) := by
  unfold isTrueOn at holds
  split at holds
  · next value => rw [value, holds]
  · cases holds

theorem exists_of_eval_eq {a b : Expr} {ty : SqlType}
    (holds : (call .eq [a, b] ty).eval row params = .ok (.bool true)) :
    ∃ x y, a.eval row params = .ok x ∧ b.eval row params = .ok y ∧ x.compare y = .eq := by
  obtain ⟨x, y, o, left, right, order, truth⟩ := (eval_pair rfl).1 holds
  refine ⟨x, y, left, right, ?_⟩
  cases o with
  | none => cases truth
  | some o =>
    rw [(Value.of_sqlCompare order).2]
    cases o with
    | eq => rfl
    | _ => cases truth

end Expr

/-- The values of a row in the fields of the primary key. -/
def Table.keyOf (table : Table) (row : Row) : List (Option Value) := table.primaryKey.map fun field => row[field]?

namespace Pipeline

variable {e other condition : Expr} {op : Op} {field : Nat} {c : Constant} {params : Bindings} {table : Table}
  {input : Plan}

theorem constant?_of_comparable? (found : comparable? other = some c) : constant? other = some c :=
  (Option.filter_eq_some_iff.1 found).1

theorem fieldComparison?_eq_some : fieldComparison? e = some (op, field, c) ↔
    ∃ other, FieldTest other field e op ∧ comparable? other = some c := by
  constructor
  · intro found
    unfold fieldComparison? at found
    split at found
    · split at found
      · next compares =>
        split at found
        · obtain ⟨_, comparable, same⟩ := Option.map_eq_some_iff.1 found
          cases same
          exact ⟨_, .fieldFirst compares, comparable⟩
        · obtain ⟨_, comparable, same⟩ := Option.map_eq_some_iff.1 found
          cases same
          exact ⟨_, .fieldLast compares, comparable⟩
        · cases found
      · cases found
    · cases found
  · rintro ⟨other, test, comparable⟩
    have constant := constant?_of_comparable? comparable
    cases test with
    | fieldFirst compares =>
      rw [fieldComparison?, if_pos compares, comparable]
      rfl
    | fieldLast compares =>
      cases other with
      | lit | param =>
        unfold fieldComparison?
        dsimp only
        rw [if_pos compares, comparable]
        rfl
      | _ => cases constant

/-- A comparison of a field with a constant for equality. -/
def Fixes (e : Expr) (field : Nat) : Prop := ∃ other c, FieldTest other field e .eq ∧ comparable? other = some c

theorem fixedField?_eq_some : fixedField? e = some field ↔ Fixes e field := by
  unfold fixedField?
  constructor
  · intro found
    split at found
    · next seen =>
      cases found
      obtain ⟨other, test, comparable⟩ := fieldComparison?_eq_some.1 seen
      exact ⟨other, _, test, comparable⟩
    · cases found
  · rintro ⟨other, c, test, comparable⟩
    rw [fieldComparison?_eq_some.2 ⟨other, test, comparable⟩]

/-- A condition that fixes every field of a primary key. -/
structure FixesKey (table : Table) (condition : Expr) : Prop where
  declared : table.primaryKey ≠ []
  fixed : ∀ field ∈ table.primaryKey, ∃ e ∈ condition.conjuncts, Fixes e field

theorem fixesKey_iff : fixesKey table (some condition) = true ↔ FixesKey table condition := by
  simp only [fixesKey, Bool.and_eq_true, Bool.not_eq_true', List.isEmpty_eq_false_iff, List.all_eq_true,
    decide_eq_true_eq, List.mem_filterMap, fixedField?_eq_some]
  exact ⟨fun both => ⟨both.1, both.2⟩, fun fixes => ⟨fixes.declared, fixes.fixed⟩⟩

theorem Fixes.cases (fixes : Fixes e field) : ∃ other fieldType nullable ty, other.isConstant = true ∧
    (e = .call .eq [.ref field fieldType nullable, other] ty ∨
      e = .call .eq [other, .ref field fieldType nullable] ty) := by
  obtain ⟨other, c, test, comparable⟩ := fixes
  have constant : other.isConstant = true := by
    have known := constant?_of_comparable? comparable
    cases other with
    | lit | param => rfl
    | _ => cases known
  generalize seen : Op.eq = op at test
  cases test with
  | fieldFirst => exact ⟨other, _, _, _, constant, .inl rfl⟩
  | @fieldLast op _ _ _ compares =>
    have same : op = .eq := by
      cases op with
      | eq => rfl
      | _ => cases seen
    subst same
    exact ⟨other, _, _, _, constant, .inr rfl⟩

theorem eval_of_isConstant (constant : other.isConstant = true) (row row' : Row) :
    other.eval row params = other.eval row' params := by
  cases other with
  | lit | param => rfl
  | _ => cases constant

theorem Fixes.exists_constant (fixes : Fixes e field) (free : e.Everywhere Expr.FloatFree)
    (bound : ∀ i v, params i = some v → v.floats = []) : ∃ value : Except Error Value,
      ∀ row : Row, (∀ v ∈ row, v.floats = []) → e.eval row params = .ok (.bool true) →
        ∃ v, row[field]? = some v ∧ value = .ok v := by
  obtain ⟨other, fieldType, nullable, ty, constant, shape⟩ := fixes.cases
  refine ⟨other.eval [] params, fun row fields holds => ?_⟩
  have operands : ∃ x y, (Expr.ref field fieldType nullable).eval row params = .ok x ∧
      other.eval row params = .ok y ∧ x.compare y = .eq := by
    rcases shape with rfl | rfl
    · exact Expr.exists_of_eval_eq holds
    · obtain ⟨y, x, first, second, equal⟩ := Expr.exists_of_eval_eq holds
      refine ⟨x, y, second, first, ?_⟩
      rw [← Value.compare_swap, equal]
      rfl
  obtain ⟨x, y, read, given, equal⟩ := operands
  have floats : y.floats = [] := by
    refine Expr.eval_floats ?_ fields bound given
    rcases shape with rfl | rfl
    · exact free.operands _ (by simp)
    · exact free.operands _ (by simp)
  have located : row[field]? = some x := Expr.field_eq_ok.1 read
  have same : x = y := Value.eq_of_compare equal (fields x (List.mem_of_getElem? located)) floats
  exact ⟨x, located, (eval_of_isConstant constant [] row).trans (same ▸ given)⟩

theorem FixesKey.keyOf_eq (fixes : FixesKey table condition) (free : condition.Everywhere Expr.FloatFree)
    (bound : ∀ i v, params i = some v → v.floats = []) {a b : Row} (left : ∀ v ∈ a, v.floats = [])
    (right : ∀ v ∈ b, v.floats = []) (first : condition.isTrueOn params a = true)
    (second : condition.isTrueOn params b = true) : table.keyOf a = table.keyOf b := by
  apply List.map_congr_left
  intro field mem
  obtain ⟨e, conjunct, fixed⟩ := fixes.fixed field mem
  obtain ⟨value, known⟩ := fixed.exists_constant (Expr.everywhere_conjuncts free e conjunct) bound
  obtain ⟨v, read, same⟩ := known a left (Expr.eval_conjuncts (Expr.eval_of_isTrueOn first) e conjunct)
  obtain ⟨w, read', same'⟩ := known b right (Expr.eval_conjuncts (Expr.eval_of_isTrueOn second) e conjunct)
  rw [read, read', Except.ok.inj (same.symm.trans same')]

/-- A condition that is true on one row at most of rows with different keys, where no floats are about. -/
def MatchesOnce (table : Table) (condition : Expr) : Prop :=
  condition.Everywhere Expr.FloatFree → ∀ params : Bindings, (∀ i v, params i = some v → v.floats = []) →
    ∀ rows : List Row, (∀ row ∈ rows, ∀ v ∈ row, v.floats = []) →
      rows.Pairwise (fun a b => table.keyOf a ≠ table.keyOf b) → (rows.filter (condition.isTrueOn params)).length ≤ 1

theorem FixesKey.matchesOnce (fixes : FixesKey table condition) : MatchesOnce table condition := by
  intro free params bound rows fields distinct
  have apart := distinct.sublist (List.filter_sublist (p := condition.isTrueOn params))
  have each : ∀ row ∈ rows.filter (condition.isTrueOn params),
      (∀ v ∈ row, v.floats = []) ∧ condition.isTrueOn params row = true := by
    intro row mem
    obtain ⟨inside, holds⟩ := List.mem_filter.1 mem
    exact ⟨fields row inside, holds⟩
  rcases found : rows.filter (condition.isTrueOn params) with _ | ⟨a, _ | ⟨b, rest⟩⟩
  · exact Nat.zero_le 1
  · exact Nat.le_refl 1
  · rw [found] at apart each
    obtain ⟨left, first⟩ := each a (.head _)
    obtain ⟨right, second⟩ := each b (List.mem_cons_of_mem a (.head _))
    have different := (List.pairwise_cons.1 apart).1 b (.head _)
    exact absurd (fixes.keyOf_eq free bound left right first second) different

/-- Whether a write is made to one document at most. -/
def Write.isSingle : Write → Bool
  | insert .. => false
  | update _ _ _ one | delete _ _ one => one

/-- A plan that selects the documents of a table by a condition. -/
inductive SelectsBy (table : Table) : Plan → Expr → Prop
  | intro {h : Head} {program : Program} {inner : Plan} {condition : Expr} (identity : program.isIdentity = true)
      (reads : readsTable table inner = true) (asked : program.condition = some condition) :
      SelectsBy table (.calculate h program inner) condition

theorem targetCondition_eq_some {statement : String} :
    targetCondition statement table input = .ok (some condition) ↔ SelectsBy table input condition := by
  constructor
  · intro found
    unfold targetCondition at found
    split at found
    · split at found
      · next direct =>
        obtain ⟨identity, reads⟩ := Bool.and_eq_true_iff.1 direct
        exact .intro identity reads (Except.ok.inj found)
      · cases found
    · split at found
      · cases found
      · cases found
  · rintro ⟨identity, reads, asked⟩
    rw [targetCondition, if_pos (Bool.and_eq_true_iff.2 ⟨identity, reads⟩), asked]

theorem fixesKey_target {statement : String} {asked : Option Expr}
    (target : targetCondition statement table input = .ok asked) : fixesKey table asked = true ↔
      ∃ condition, SelectsBy table input condition ∧ FixesKey table condition := by
  constructor
  · intro fixes
    cases asked with
    | none => cases fixes
    | some condition => exact ⟨condition, targetCondition_eq_some.1 target, fixesKey_iff.1 fixes⟩
  · rintro ⟨condition, selects, fixes⟩
    have same := target.symm.trans (targetCondition_eq_some.2 selects)
    rw [Except.ok.inj same]
    exact fixesKey_iff.2 fixes

theorem isSingle_writeOf {op : ModifyOp} {write : Write} (made : writeOf table op input = .ok write) :
    write.isSingle = true ↔
      op ≠ .insert ∧ ∃ condition, SelectsBy table input condition ∧ FixesKey table condition := by
  cases op with
  | insert =>
    obtain ⟨documents, -, rfl⟩ := map_eq_ok.1 made
    exact ⟨nofun, fun both => absurd rfl both.1⟩
  | update =>
    obtain ⟨asked, target, made⟩ := bind_eq_ok.1 made
    obtain ⟨change, -, made⟩ := bind_eq_ok.1 made
    obtain ⟨filter, -, rfl⟩ := map_eq_ok.1 made
    exact (fixesKey_target target).trans (and_iff_right nofun).symm
  | delete =>
    obtain ⟨asked, target, made⟩ := bind_eq_ok.1 made
    obtain ⟨filter, -, rfl⟩ := map_eq_ok.1 made
    exact (fixesKey_target target).trans (and_iff_right nofun).symm

/-- A write is made to one document at most just when its condition fixes the primary key, and then the condition is
true on one row at most. -/
theorem isSingle_emitWrite {h : Head} {op : ModifyOp} {input : Plan} {q : PreparedWrite}
    (made : emitWrite (.modify h table op input) = .ok q) :
    (q.write.isSingle = true ↔
      op ≠ .insert ∧ ∃ condition, SelectsBy table input condition ∧ FixesKey table condition) ∧
    (q.write.isSingle = true → ∃ condition, SelectsBy table input condition ∧ MatchesOnce table condition) := by
  obtain ⟨-, -, made⟩ := bind_eq_ok.1 made
  obtain ⟨write, written, rfl⟩ := map_eq_ok.1 made
  have single := isSingle_writeOf written
  refine ⟨single, fun one => ?_⟩
  obtain ⟨-, condition, selects, fixes⟩ := single.1 one
  exact ⟨condition, selects, fixes.matchesOnce⟩

/-- Seats of halls, which the hall and the number tell apart. -/
def seats : Table :=
  { Table.named "seats" ⟨[⟨"hall", .varchar none, false⟩, ⟨"number", .integer, false⟩, ⟨"price", .integer, true⟩]⟩ with
    convention := .document, primaryKey := [0, 1] }

/-- A price below a bound, in a hall and with a number, whichever side the field is on. -/
def seatCondition : Expr :=
  .call .and [.call .and [.call .eq [.param 0 (.varchar none), .ref 0 (.varchar none) false] .boolean,
      .call .lt [.ref 2 .integer true, .lit (.int 90)] .boolean] .boolean,
    .call .eq [.ref 1 .integer false, .lit (.int 7)] .boolean] .boolean

/-- An update of a seat is made to one document at most, and concerns one of three seats. -/
theorem isSingle_emitWrite_seats :
    let h : Head := ⟨⟨[⟨"count", .bigInt, false⟩]⟩, { Traits.logical with convention := .document }⟩
    let program : Program := { Program.identity seats.rowType with condition := some seatCondition }
    let input : Plan := .calculate (Plan.logicalHead seats.rowType) program (.ofTable seats)
    let params : Bindings := fun i => if i = 0 then some (.string "A") else none
    let rows : List Row :=
      [[.string "A", .int 6, .int 50], [.string "A", .int 7, .int 40], [.string "B", .int 7, .int 60]]
    (∃ q, emitWrite (.modify h seats (.update [2] [.lit (.int 0)]) input) = .ok q ∧ q.write.isSingle = true ∧
      MatchesOnce seats seatCondition) ∧
    rows.map (seatCondition.isTrueOn params) = [false, true, false] := by
  intro h program input params rows
  constructor
  · have made : ∃ q, emitWrite (.modify h seats (.update [2] [.lit (.int 0)]) input) = .ok q ∧
        q.write.isSingle = true := ⟨_, rfl, rfl⟩
    obtain ⟨q, made, single⟩ := made
    obtain ⟨condition, selects, once⟩ := (isSingle_emitWrite made).2 single
    change SelectsBy seats (.calculate _ program _) condition at selects
    cases selects with
    | intro _ _ asked => exact ⟨q, made, single, Option.some.inj asked ▸ once⟩
  · decide

end Pipeline

end FederatedQuery
