import FederatedQuery.Proofs.Sql.Steps
import FederatedQuery.Sql.Presets

/-!
The order that a statement asks for. Its items are compared one after the other, nulls being where an item asks for
them or else where the dialect has them by default, and anywhere if that is not known. Where every key of a sort says
where its nulls go, this is the order of the rows in process.
-/
namespace FederatedQuery.Sql

/-- What terms come to on one row. Literals, tests for null, cases and queries of one literal have their standard
values; all other terms have any. -/
structure Valuation where
  value : Term → Value
  literal (v : Value) : value (.literal v) = v
  isNull (t : Term) : value (.suffixed t "IS NULL") = .bool (value t).isNull
  chosen (condition result otherwise : Term) (holds : value condition = .bool true) :
    value (.case [(condition, result)] (some otherwise)) = value result
  passed (condition result otherwise : Term) (fails : value condition = .bool false) :
    value (.case [(condition, result)] (some otherwise)) = value otherwise
  constant (v : Value) : value (.subquery (.select { Select.empty with projection := [(.literal v, none)] })) = v

abbrev OrderItem := Term × Bool × Option Bool

namespace OrderItem

/-- Whether an item has its nulls first, if that is known. -/
def nullsFirst? (d : Dialect) (item : OrderItem) : Option Bool := item.2.2 <|> d.nullCollation.nullsFirst? item.2.1

/-- The outcomes that comparing two values under an item can have. -/
def Compares (d : Dialect) (item : OrderItem) (x y : Value) (o : Ordering) : Prop :=
  match x.isNull, y.isNull with
  | true, true => o = .eq
  | true, false => ∀ first ∈ item.nullsFirst? d, o = if first then .lt else .gt
  | false, true => ∀ first ∈ item.nullsFirst? d, o = if first then .gt else .lt
  | false, false => o = if item.2.1 then (x.compare y).swap else x.compare y

end OrderItem

/-- The outcomes that comparing two rows by the items of an order can have. -/
def Orders (d : Dialect) (left right : Valuation) : List OrderItem → Ordering → Prop
  | [], o => o = .eq
  | item :: rest, o => ∃ here later, item.Compares d (left.value item.1) (right.value item.1) here ∧
      Orders d left right rest later ∧ o = here.then later

section Orders

variable {d : Dialect} {left right : Valuation} {t : Term} {fields : List Term} {key : SortKey} {o : Ordering}
  {item : OrderItem} {x y : Value}

theorem orders_singleton : Orders d left right [item] o ↔
    item.Compares d (left.value item.1) (right.value item.1) o := by
  simp [Orders]

theorem orders_append {first second : List OrderItem} : Orders d left right (first ++ second) o ↔
    ∃ here later, Orders d left right first here ∧ Orders d left right second later ∧ o = here.then later := by
  induction first generalizing o with
  | nil => simp [Orders]
  | cons item first ih =>
    simp only [List.cons_append, Orders, ih]
    constructor
    · rintro ⟨here, _, compares, ⟨middle, later, first, second, rfl⟩, rfl⟩
      exact ⟨_, later, ⟨here, middle, compares, first, rfl⟩, second, (Ordering.then_assoc ..).symm⟩
    · rintro ⟨_, later, ⟨here, middle, compares, first, rfl⟩, second, rfl⟩
      exact ⟨here, _, compares, ⟨middle, later, first, second, rfl⟩, Ordering.then_assoc ..⟩

theorem exists_compares (d : Dialect) (item : OrderItem) (x y : Value) : ∃ o, item.Compares d x y o := by
  unfold OrderItem.Compares
  cases x.isNull <;> cases y.isNull <;> cases item.nullsFirst? d <;> simp

/-- An item whose nulls are where a key wants them compares as the key does. -/
theorem compares_iff (placed : item.nullsFirst? d = some key.nullsFirst) (directed : item.2.1 = key.isDescending) :
    item.Compares d x y o ↔ o = Rows.compareByKey key x y := by
  unfold OrderItem.Compares Rows.compareByKey
  rw [placed, directed]
  cases x.isNull <;> cases y.isNull <;> simp

/-- Where a key says where its nulls go, they are there by default, or asked for, or sorted by a key in front. -/
theorem nullsRendering_cases (d : Dialect) (explicit : key.nulls ≠ .unspecified) :
    d.nullsRendering key.nulls key.isDescending = .native ∧
        d.nullCollation.nullsFirst? key.isDescending = some key.nullsFirst ∨
      d.nullsRendering key.nulls key.isDescending = .clause key.nullsFirst ∨
      d.nullsRendering key.nulls key.isDescending = .emulated key.nullsFirst := by
  unfold Dialect.nullsRendering SortKey.nullsFirst
  cases nulls : key.nulls with
  | unspecified => exact absurd nulls explicit
  | first | last =>
    dsimp only
    split
    · next known => exact .inl ⟨rfl, known⟩
    · split
      · exact .inr (.inl rfl)
      · exact .inr (.inr rfl)

/-- The key in front that tells nulls from other values. -/
def nullTest (d : Dialect) (t : Term) : Term :=
  if d.booleanLiterals then .suffixed t "IS NULL"
  else .case [(.suffixed t "IS NULL", .literal (.int 1))] (some (.literal (.int 0)))

theorem value_nullTest (d : Dialect) (v : Valuation) (t : Term) : v.value (nullTest d t) =
    if d.booleanLiterals then .bool (v.value t).isNull else .int (if (v.value t).isNull then 1 else 0) := by
  unfold nullTest
  split
  · exact v.isNull t
  · cases null : (v.value t).isNull with
    | true => rw [v.chosen _ _ _ (by rw [v.isNull, null]), v.literal, if_pos rfl]
    | false => rw [v.passed _ _ _ (by rw [v.isNull, null]), v.literal, if_neg Bool.false_ne_true]

/-- The key in front tells a null from another value as a key with its nulls in that place does. -/
theorem compares_nullTest : OrderItem.Compares d (nullTest d t, key.nullsFirst, none)
      (left.value (nullTest d t)) (right.value (nullTest d t)) o ↔
    o = if (left.value t).isNull = (right.value t).isNull then .eq
      else Rows.compareByKey key (left.value t) (right.value t) := by
  unfold Rows.compareByKey
  rw [value_nullTest, value_nullTest]
  cases d.booleanLiterals <;> cases (left.value t).isNull <;> cases (right.value t).isNull <;>
    cases key.nullsFirst <;> rfl

theorem compares_of_isNull_eq (same : x.isNull = y.isNull) (directed : item.2.1 = key.isDescending) :
    item.Compares d x y o ↔ o = Rows.compareByKey key x y := by
  unfold OrderItem.Compares Rows.compareByKey
  rw [directed, same]
  cases y.isNull <;> rfl

theorem compareByKey_ne_eq (apart : x.isNull ≠ y.isNull) : Rows.compareByKey key x y ≠ .eq := by
  unfold Rows.compareByKey
  cases left : x.isNull <;> cases right : y.isNull <;> cases key.nullsFirst <;> simp_all

/-- With the key in front, it does not matter where the nulls of the item behind it are. -/
theorem orders_nullTest :
    Orders d left right [(nullTest d t, key.nullsFirst, none), (t, key.isDescending, none)] o ↔
      o = Rows.compareByKey key (left.value t) (right.value t) := by
  rw [Orders]
  simp only [compares_nullTest, orders_singleton]
  by_cases same : (left.value t).isNull = (right.value t).isNull
  · have behind (later : Ordering) :
        OrderItem.Compares d (t, key.isDescending, none) (left.value t) (right.value t) later ↔
          later = Rows.compareByKey key (left.value t) (right.value t) := compares_of_isNull_eq same rfl
    simp [if_pos same, behind]
  · have apart : Rows.compareByKey key (left.value t) (right.value t) ≠ .eq := compareByKey_ne_eq same
    have settled (later : Ordering) : (Rows.compareByKey key (left.value t) (right.value t)).then later =
        Rows.compareByKey key (left.value t) (right.value t) := by
      cases found : Rows.compareByKey key (left.value t) (right.value t) with
      | eq => exact absurd found apart
      | lt | gt => rfl
    obtain ⟨any, compares⟩ := exists_compares d (t, key.isDescending, none) (left.value t) (right.value t)
    simp only [if_neg same]
    constructor
    · rintro ⟨_, later, rfl, _, rfl⟩
      exact settled later
    · rintro rfl
      exact ⟨_, any, rfl, compares, (settled any).symm⟩

theorem fieldTerm_eq_ok {i : Nat} : fieldTerm fields i = .ok t ↔ fields[i]? = some t := by
  unfold fieldTerm
  cases fields[i]? <;> simp

theorem orders_orderTerms {items : List OrderItem} (explicit : key.nulls ≠ .unspecified)
    (written : orderTerms d fields key = .ok items) : ∃ t, fields[key.field]? = some t ∧ ∀ left right o,
      Orders d left right items o ↔ o = Rows.compareByKey key (left.value t) (right.value t) := by
  obtain ⟨t, found, written⟩ := bind_eq_ok.1 written
  cases written
  refine ⟨t, fieldTerm_eq_ok.1 found, fun left right o => ?_⟩
  rcases nullsRendering_cases d explicit with ⟨native, known⟩ | clause | emulated
  · rw [native, orders_singleton]
    exact compares_iff known rfl
  · rw [clause, orders_singleton]
    exact compares_iff rfl rfl
  · rw [emulated]
    exact orders_nullTest

theorem orders_flatten {collation : Collation} {keys : List (List OrderItem)}
    (explicit : ∀ key ∈ collation, key.nulls ≠ .unspecified)
    (written : collation.mapM (orderTerms d fields) = .ok keys) :
    Orders d left right keys.flatten o ↔
      o = Rows.compareBy collation (fields.map left.value) (fields.map right.value) := by
  rw [mapM_eq_ok] at written
  induction written generalizing o with
  | nil => rfl
  | @cons key items collation keys here rest ih =>
    rw [List.forall_mem_cons] at explicit
    obtain ⟨t, located, ordered⟩ := orders_orderTerms explicit.1 here
    rw [List.flatten_cons, orders_append]
    simp only [ordered, ih explicit.2, Rows.compareBy, List.getElem?_map, located, Option.map_some]
    simp only [exists_and_left, exists_eq_left]

theorem exists_orderTerms : (∃ items, orderTerms d fields key = .ok items) ↔ key.field < fields.length := by
  constructor
  · rintro ⟨items, written⟩
    obtain ⟨t, found, _⟩ := bind_eq_ok.1 written
    exact (List.getElem?_eq_some_iff.1 (fieldTerm_eq_ok.1 found)).1
  · intro inside
    exact ⟨_, bind_eq_ok.2 ⟨_, fieldTerm_eq_ok.2 (List.getElem?_eq_getElem inside), rfl⟩⟩

theorem orders_anyOrder : Orders d left right [anyOrder] o ↔ o = .eq := by
  rw [orders_singleton, anyOrder, left.constant, right.constant]
  rfl

end Orders

/-- A sort writes its order where there is a field for each of its keys; and if every key says where its nulls go,
the items of that order put any two rows in the order that they have in process. -/
theorem orders_sortFragment (d : Dialect) (collation : Collation)
    (explicit : ∀ key ∈ collation, key.nulls ≠ .unspecified) (offset fetch : Option Nat) (f : Fragment) (next : Nat) :
    ((∃ made, sortFragment d collation offset fetch f next = .ok made) ↔
        ∀ key ∈ collation, key.field < (f.readyFor (sortClause collation) next).1.fields.length) ∧
      ∀ made after, sortFragment d collation offset fetch f next = .ok (made, after) → ∃ b, made = .block b ∧
        ∀ left right o, Orders d left right b.orderBy o ↔
          o = Rows.compareBy collation (b.fields.map left.value) (b.fields.map right.value) := by
  constructor
  · simp only [← exists_orderTerms (d := d)]
    constructor
    · rintro ⟨made, written⟩ key mem
      obtain ⟨keys, found, _⟩ := bind_eq_ok.1 written
      obtain ⟨items, _, here⟩ := exists_of_forall₂_right (mapM_eq_ok.1 found).flip mem
      exact ⟨items, here⟩
    · intro each
      obtain ⟨keys, found⟩ := exists_forall₂ each
      exact ⟨_, bind_eq_ok.2 ⟨keys, mapM_eq_ok.2 found, rfl⟩⟩
  · intro made after written
    obtain ⟨b, keys, _, found, orderBy, clauses, rfl, _, rfl⟩ := sortFragment_cases written
    refine ⟨_, rfl, fun left right o => ?_⟩
    dsimp only
    rw [sortOrder]
    split
    · next unkeyed =>
      simp only [Bool.and_eq_true, List.isEmpty_iff] at unkeyed
      obtain ⟨⟨rfl, _⟩, _⟩ := unkeyed
      obtain rfl : collation = [] := List.forall₂_nil_right_iff.1 (mapM_eq_ok.1 found)
      exact orders_anyOrder
    · exact orders_flatten explicit found

/-- Terms over columns. What has no standard value is null. -/
def columnValue (column : String → Value) : Term → Value
  | .column _ name => column name
  | .literal v => v
  | .suffixed t symbol => if symbol = "IS NULL" then .bool (columnValue column t).isNull else .null
  | .case [(condition, result)] (some otherwise) => match columnValue column condition with
    | .bool true => columnValue column result
    | _ => columnValue column otherwise
  | .subquery (.select s) => match s.projection with
    | [(.literal v, none)] => v
    | _ => .null
  | _ => .null

def Valuation.ofColumns (column : String → Value) : Valuation where
  value := columnValue column
  literal v := by rw [columnValue]
  isNull t := by rw [columnValue, if_pos rfl]
  chosen condition result otherwise holds := by rw [columnValue, holds]
  passed condition result otherwise fails := by rw [columnValue, fails]
  constant v := by rw [columnValue]

/-- Two keys over a table, in a dialect that neither says where it has its nulls nor can be asked for a place, nor
has truth values. The rows have a null under the first key, and the second tells them apart. -/
theorem orders_sortFragment_emulated :
    let d : Dialect := { Dialect.ansi with nullCollation := .unknown, nullsClause := false, booleanLiterals := false }
    let collation : Collation := [⟨0, .ascending, .first⟩, ⟨1, .descending, .last⟩]
    let x := Term.column none "x"
    let y := Term.column none "y"
    let orderBy : List OrderItem := [(nullTest d x, true, none), (x, false, none), (nullTest d y, false, none),
      (y, true, none)]
    let b := scanned (Table.named "t" ⟨[⟨"x", .integer, true⟩, ⟨"y", .integer, true⟩]⟩)
    let left := Valuation.ofColumns fun name => if name = "x" then .null else .int 5
    let right := Valuation.ofColumns fun _ => .null
    (∀ key ∈ collation, key.nulls ≠ .unspecified) ∧
      sortFragment d collation none (some 3) (.block b) 0 =
        .ok (.block { b with orderBy, fetch := some 3, clauses := [.orderBy, .fetch, .source] }, 0) ∧
      ∀ o, Orders d left right orderBy o ↔ o = .lt := by
  intro d collation x y orderBy b left right
  have explicit : ∀ key ∈ collation, key.nulls ≠ .unspecified := by decide
  have written : sortFragment d collation none (some 3) (.block b) 0 =
      .ok (.block { b with orderBy, fetch := some 3, clauses := [.orderBy, .fetch, .source] }, 0) := rfl
  obtain ⟨_, same, ordered⟩ := (orders_sortFragment d collation explicit none (some 3) (.block b) 0).2 _ _ written
  cases same
  have first : left.value x = .null ∧ left.value y = .int 5 := by
    simp [left, x, y, Valuation.ofColumns, columnValue]
  have second : right.value x = .null ∧ right.value y = .null := by
    simp [right, x, y, Valuation.ofColumns, columnValue]
  refine ⟨explicit, written, fun o => (ordered left right o).trans (Eq.congr_right ?_)⟩
  have fields : b.fields = [x, y] := rfl
  rw [fields]
  simp only [List.map_cons, List.map_nil, first, second]
  rfl

end FederatedQuery.Sql
