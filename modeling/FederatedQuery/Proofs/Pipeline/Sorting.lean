import FederatedQuery.Proofs.Pipeline.Grouping
import FederatedQuery.Proofs.Pipeline.SortKeys

/-!
The order that a pipeline sorts by. A store computes the flags of a document, compares documents by the entries of the
sort and takes the flags away again. This is the order of the rows in process exactly where no key is overwritten.
-/
namespace FederatedQuery.Pipeline

open Collation

section Stores

/-- A document as a store sorts it: the values of its fields, where one that is not there counts as null. -/
abbrev Record := String → Value

def recordOf (names : List String) (row : Row) : Record := fun name => ((names.zip row).lookup name).getD .null

/-- The value of an operand, which is null or the field that a path names. -/
def operand? (r : Record) : Document → Option Value
  | .null => some .null
  | .string text => match text.toList with
    | '$' :: name => some (r (String.ofList name))
    | _ => none
  | _ => none

/-- Whether one operand is at most the other. -/
def compared? (r : Record) : Document → Option Value
  | .object [(operator, .array [left, right])] =>
    if operator = "$lte" then do
      let x ← operand? r left
      let y ← operand? r right
      return .bool (storeCompare x y != .gt)
    else none
  | _ => none

/-- A document with more fields, each computed from those it had. -/
def withFields? (fields : Entries) (r : Record) : Option Record := do
  let values ← fields.mapM fun field => (compared? r field.2).map fun v => (field.1, v)
  return fun name => (values.lookup name).getD (r name)

/-- Whether an entry of a sort asks for the descending order. -/
def descending? : Document → Option Bool
  | .int i => if i = 1 then some false else if i = -1 then some true else none
  | _ => none

/-- The order of documents by the entries of a sort, one after the other. -/
def compareBySort? (keys : Entries) (a b : Record) : Option Ordering := do
  let directions ← keys.mapM fun entry => (descending? entry.2).map fun descending => (entry.1, descending)
  return decideBy (fun entry => directed entry.2 (storeCompare (a entry.1) (b entry.1))) directions

/-- The order that stages bring documents into, where these compute fields, sort by them and cut the result. -/
def compareThrough? : List Stage → Record → Record → Option Ordering
  | [], _, _ => some .eq
  | .addFields fields :: rest, a, b => do
    let a ← withFields? fields a
    let b ← withFields? fields b
    compareThrough? rest a b
  | .sort keys :: _, a, b => compareBySort? keys a b
  | .skip _ :: rest, a, b | .limit _ :: rest, a, b => compareThrough? rest a b
  | _, _, _ => none

theorem descending?_directionDocument (descending : Bool) :
    descending? (directionDocument descending) = some descending := by
  cases descending <;> rfl

/-- The test for null that a flag is computed by. -/
def nullTest (name : String) : Document := applied "$lte" [path name, .null]

theorem compared?_nullTest (r : Record) (name : String) :
    compared? r (nullTest name) = some (.bool (r name).isNull) := by
  have text : ("$" ++ name).toList = '$' :: name.toList := String.toList_append
  have operand : operand? r (path name) = some (r name) := by
    rw [path, operand?, text]
    exact congrArg (fun name => some (r name)) (String.ofList_toList)
  change (do
    let x ← operand? r (path name)
    let y ← operand? r .null
    return Value.bool (storeCompare x y != .gt) : Option Value) = _
  rw [operand]
  cases r name <;> rfl

theorem nullFlag_injective : Function.Injective nullFlag := by
  intro left right same
  have lists := congrArg String.toList same
  rw [nullFlag, nullFlag, String.toList_append, String.toList_append] at lists
  exact String.toList_inj.1 (List.append_cancel_left lists)

/-- The direction that entries are left with under a name. -/
def directionOf (keys : Entries) (name : String) : Bool := ((keys.get? name).bind descending?).getD false

theorem compareBySort?_ofPairs {pairs : List (String × Document)} (a b : Record)
    (directions : ∀ pair ∈ pairs, ∃ descending, pair.2 = directionDocument descending) :
    compareBySort? (Entries.ofPairs pairs) a b = some (decideBy
      (fun name => directed (directionOf (Entries.ofPairs pairs) name) (storeCompare (a name) (b name)))
      (Entries.keys pairs)) := by
  have each : ∀ entry ∈ Entries.ofPairs pairs, ((descending? entry.2).map fun descending => (entry.1, descending)) =
      some (entry.1, directionOf (Entries.ofPairs pairs) entry.1) := by
    intro entry mem
    obtain ⟨descending, same⟩ := directions entry (Entries.mem_of_mem_ofPairs mem)
    have found := Entries.get?_of_mem (Entries.nodup_keys_ofPairs pairs) mem
    rw [directionOf, found, same, Option.bind_some, descending?_directionDocument]
    rfl
  rw [compareBySort?, mapM_eq_some_map each, ← decideBy_keys_ofPairs, Entries.keys, decideBy_map]
  exact congrArg some (decideBy_map ..)

end Stores

section Sorting

variable {names : List String} {c : Collation} {field other : Nat}

/-- The entries of a sort as its keys ask for them, one after the other. -/
def sortPairs (names : List String) (c : Collation) : List (String × Document) :=
  c.flatMap fun key => sortKeyEntries key (nameAt names key.field)

theorem keys_sortPairs (names : List String) (c : Collation) : Entries.keys (sortPairs names c) =
    c.flatMap fun key => Entries.keys (sortKeyEntries key (nameAt names key.field)) := List.map_flatMap

theorem exists_direction {pair : String × Document} (mem : pair ∈ sortPairs names c) :
    ∃ descending, pair.2 = directionDocument descending := by
  obtain ⟨key, _, inside⟩ := List.mem_flatMap.1 mem
  unfold sortKeyEntries at inside
  refine ⟨key.isDescending, ?_⟩
  cases flagged : needsNullFlag key <;> simp [flagged] at inside <;> rcases inside with rfl | rfl <;> rfl

theorem directionOf_sortPairs {name : String} {sets : SortKey → Bool} (each : ∀ key ∈ c,
      ((sortKeyEntries key (nameAt names key.field)).filter fun pair => pair.1 = name) =
        if sets key then [(name, directionDocument key.isDescending)] else []) :
    directionOf (Entries.ofPairs (sortPairs names c)) name = lastDescending (c.filter sets) := by
  have entries : ((sortPairs names c).filter fun pair => pair.1 = name) =
      (c.filter sets).map fun key => (name, directionDocument key.isDescending) := by
    rw [sortPairs, List.filter_flatMap]
    induction c with
    | nil => rfl
    | cons key rest ih =>
      rw [List.forall_mem_cons] at each
      rw [List.flatMap_cons, each.1, ih each.2, List.filter_cons]
      cases sets key <;> rfl
  rw [directionOf, Entries.get?_ofPairs, entries, List.getLast?_map, lastDescending]
  cases (c.filter sets).getLast? with
  | none => rfl
  | some key => exact congrArg (Option.getD · false) (descending?_directionDocument key.isDescending)

/-- A row type whose names tell its fields apart, from one another and from all flags. -/
structure Legible (names : List String) : Prop where
  distinct : names.Nodup
  unflagged : ∀ name ∈ names, ∀ base, name ≠ nullFlag base

theorem nameAt_mem (inside : field < names.length) : nameAt names field ∈ names := by
  rw [nameAt, List.getElem?_eq_getElem inside]
  exact List.getElem_mem inside

namespace Legible

theorem name_inj (legible : Legible names) (left : field < names.length) (right : other < names.length) :
    nameAt names field = nameAt names other ↔ field = other := by
  rw [nameAt, nameAt, List.getElem?_eq_getElem left, List.getElem?_eq_getElem right]
  exact legible.distinct.getElem_inj_iff

theorem directionOf_name (legible : Legible names) (inside : ∀ key ∈ c, key.field < names.length)
    (there : field < names.length) :
    directionOf (Entries.ofPairs (sortPairs names c)) (nameAt names field) = valuesDescending c field := by
  refine directionOf_sortPairs fun key mem => ?_
  have flag (base : String) : nullFlag base ≠ nameAt names field := (legible.unflagged _ (nameAt_mem there) base).symm
  have same := legible.name_inj (inside key mem) there
  by_cases on : key.field = field
  · subst on
    cases flagged : needsNullFlag key <;> simp [sortKeyEntries, flagged, flag]
  · cases flagged : needsNullFlag key <;> simp [sortKeyEntries, flagged, flag, same, on]

theorem directionOf_nullFlag (legible : Legible names) (inside : ∀ key ∈ c, key.field < names.length)
    (there : field < names.length) :
    directionOf (Entries.ofPairs (sortPairs names c)) (nullFlag (nameAt names field)) = nullsDescending c field := by
  rw [nullsDescending, keysOn, List.filter_filter]
  refine directionOf_sortPairs fun key mem => ?_
  have name : nameAt names key.field ≠ nullFlag (nameAt names field) :=
    legible.unflagged _ (nameAt_mem (inside key mem)) _
  have same : nullFlag (nameAt names key.field) = nullFlag (nameAt names field) ↔ key.field = field :=
    nullFlag_injective.eq_iff.trans (legible.name_inj (inside key mem) there)
  by_cases on : key.field = field
  · subst on
    cases flagged : needsNullFlag key <;> simp [sortKeyEntries, flagged, name]
  · cases flagged : needsNullFlag key <;> simp [sortKeyEntries, flagged, name, same, on]

end Legible

theorem lookup_zip {α : Type} {name : String} {row : List α} {index : Nat} (distinct : names.Nodup)
    (found : names[index]? = some name) : (names.zip row).lookup name = row[index]? := by
  induction names generalizing row index with
  | nil => cases found
  | cons first rest ih =>
    rw [List.nodup_cons] at distinct
    cases row with
    | nil => rfl
    | cons =>
      rw [List.zip_cons_cons, List.lookup_cons]
      cases index with
      | zero =>
        cases found
        rw [beq_self_eq_true]
        rfl
      | succ =>
        have away : (name == first) = false :=
          beq_false_of_ne fun same => distinct.1 (same ▸ List.mem_of_getElem? found)
        rw [away]
        exact ih distinct.2 found

theorem recordOf_nameAt (distinct : names.Nodup) (there : field < names.length) (row : Row) :
    recordOf names row (nameAt names field) = row[field]?.getD .null := by
  have found : names[field]? = some (nameAt names field) := by
    rw [nameAt, List.getElem?_eq_getElem there, Option.getD_some]
  rw [recordOf, lookup_zip distinct found]

/-- The flags of a sort as its keys ask for them. -/
def flagPairs (names : List String) (c : Collation) : List (String × Document) :=
  (c.filter needsNullFlag).map fun key => (nullFlag (nameAt names key.field), nullTest (nameAt names key.field))

theorem exists_withFields? (names : List String) (c : Collation) (r : Record) :
    ∃ r', withFields? (Entries.ofPairs (flagPairs names c)) r = some r' ∧
      (∀ key ∈ c, needsNullFlag key = true →
        r' (nullFlag (nameAt names key.field)) = .bool (r (nameAt names key.field)).isNull) ∧
      ∀ name, (∀ base, name ≠ nullFlag base) → r' name = r name := by
  have entry : ∀ e ∈ Entries.ofPairs (flagPairs names c), ∃ name, e = (nullFlag name, nullTest name) := by
    intro e mem
    obtain ⟨key, _, same⟩ := List.mem_map.1 (Entries.mem_of_mem_ofPairs mem)
    exact ⟨_, same.symm⟩
  have each : ∀ e ∈ Entries.ofPairs (flagPairs names c), ((compared? r e.2).map fun v => (e.1, v)) =
      some (e.1, (compared? r e.2).getD .null) := by
    intro e mem
    obtain ⟨name, rfl⟩ := entry e mem
    rw [compared?_nullTest]
    rfl
  refine ⟨_, congrArg (· >>= _) (mapM_eq_some_map each), fun key mem flagged => ?_, fun name plain => ?_⟩
  · have set : nullFlag (nameAt names key.field) ∈ (Entries.ofPairs (flagPairs names c)).keys := by
      rw [Entries.mem_keys_ofPairs, Entries.keys, flagPairs, List.map_map]
      exact List.mem_map_of_mem (List.mem_filter.2 ⟨mem, flagged⟩)
    obtain ⟨e, inside, same⟩ := List.mem_map.1 set
    obtain ⟨name, rfl⟩ := entry e inside
    obtain rfl := nullFlag_injective same
    have found := Entries.get?_of_mem (Entries.nodup_keys_ofPairs _) inside
    rw [Entries.lookup_map fun d => (compared? r d).getD .null, found, Option.map_some, compared?_nullTest]
    rfl
  · have absent : name ∉ (Entries.ofPairs (flagPairs names c)).keys := by
      intro mem
      obtain ⟨e, inside, rfl⟩ := List.mem_map.1 mem
      obtain ⟨base, rfl⟩ := entry e inside
      exact plain base rfl
    rw [Entries.lookup_map fun d => (compared? r d).getD .null, Entries.get?_eq_none absent]
    rfl

theorem sortStages_eq (inside : ∀ key ∈ c, key.field < names.length) (offset fetch : Option Nat) :
    let keys := Entries.ofPairs (sortPairs names c)
    let flags := Entries.ofPairs (flagPairs names c)
    sortStages c offset fetch names = .ok ((if flags.isEmpty then [] else [.addFields flags]) ++
      (if keys.isEmpty then [] else [.sort keys]) ++
      (if flags.isEmpty then [] else [.project (flags.map fun flag => (flag.1, .int 0))]) ++
      (offset.map Stage.skip).toList ++ (fetch.map Stage.limit).toList) := by
  intro keys flags
  have named : c.mapM (fun key => do return (key, ← fieldName names key.field)) =
      (.ok (c.map fun key => (key, nameAt names key.field)) : Except Error _) := by
    refine mapM_eq_map fun key mem => ?_
    rw [fieldName_of_lt (inside key mem)]
    rfl
  refine bind_eq_ok.2 ⟨_, named, ?_⟩
  rw [List.flatMap_map, List.filter_map, List.map_map]
  rfl

theorem mem_keys_sortKeyEntries (key : SortKey) (name : String) : name ∈ Entries.keys (sortKeyEntries key name) := by
  rw [sortKeyEntries, Entries.keys_append]
  exact List.mem_append_right _ (.head _)

theorem flagPairs_of_keys (empty : Entries.ofPairs (sortPairs names c) = []) : flagPairs names c = [] := by
  cases c with
  | nil => rfl
  | cons key rest =>
    have mem : nameAt names key.field ∈ (Entries.ofPairs (sortPairs names (key :: rest))).keys := by
      rw [Entries.mem_keys_ofPairs, sortPairs, List.flatMap_cons, Entries.keys_append]
      exact List.mem_append_left _ (mem_keys_sortKeyEntries key _)
    rw [empty] at mem
    cases mem

/-- The stages of a sort compare documents by the entries of the sort, once the flags are there. -/
theorem exists_sortStages (inside : ∀ key ∈ c, key.field < names.length) (offset fetch : Option Nat) :
    ∃ stages, sortStages c offset fetch names = .ok stages ∧ ∀ a b, compareThrough? stages a b =
      (withFields? (Entries.ofPairs (flagPairs names c)) a).bind fun a =>
        (withFields? (Entries.ofPairs (flagPairs names c)) b).bind fun b =>
          compareBySort? (Entries.ofPairs (sortPairs names c)) a b := by
  refine ⟨_, sortStages_eq inside offset fetch, fun a b => ?_⟩
  cases keys : Entries.ofPairs (sortPairs names c) with
  | nil =>
    rw [flagPairs_of_keys keys]
    cases offset <;> cases fetch <;> rfl
  | cons => cases Entries.ofPairs (flagPairs names c) <;> rfl

theorem Legible.compareThrough?_eq (legible : Legible names) (inside : ∀ key ∈ c, key.field < names.length)
    (offset fetch : Option Nat) : ∃ stages, sortStages c offset fetch names = .ok stages ∧ ∀ a b : Row,
      compareThrough? stages (recordOf names a) (recordOf names b) =
        some (storedOrder c (fun field => a[field]?.getD .null) fun field => b[field]?.getD .null) := by
  obtain ⟨stages, made, compares⟩ := exists_sortStages inside offset fetch
  refine ⟨stages, made, fun a b => ?_⟩
  obtain ⟨r, flagged, nulls, others⟩ := exists_withFields? names c (recordOf names a)
  obtain ⟨r', flagged', nulls', others'⟩ := exists_withFields? names c (recordOf names b)
  rw [compares, flagged, flagged', Option.bind_some, Option.bind_some,
    compareBySort?_ofPairs r r' fun _ => exists_direction, keys_sortPairs, decideBy_flatMap, storedOrder]
  refine congrArg some (decideBy_congr fun key mem => ?_)
  have there := inside key mem
  have plain := legible.unflagged _ (nameAt_mem there)
  rw [compareStored, ← legible.directionOf_name inside there, ← legible.directionOf_nullFlag inside there,
    ← recordOf_nameAt legible.distinct there, ← recordOf_nameAt legible.distinct there, ← others _ plain,
    ← others' _ plain]
  cases flag : needsNullFlag key with
  | true =>
    have null := nulls key mem flag
    have null' := nulls' key mem flag
    rw [← others _ plain] at null
    rw [← others' _ plain] at null'
    simp [sortKeyEntries, flag, Entries.keys, decideBy, null, null']
  | false => simp [sortKeyEntries, flag, Entries.keys, decideBy]

theorem compareBy_eq_localOrder {a b : Row} (left : ∀ key ∈ c, key.field < a.length)
    (right : ∀ key ∈ c, key.field < b.length) : Rows.compareBy c a b =
      localOrder c (fun field => a[field]?.getD .null) fun field => b[field]?.getD .null := by
  induction c with
  | nil => rfl
  | cons _ _ ih =>
    rw [List.forall_mem_cons] at left right
    rw [Rows.compareBy, ih left.2 right.2, List.getElem?_eq_getElem left.1, List.getElem?_eq_getElem right.1,
      localOrder, localOrder, decideBy_cons, List.getElem?_eq_getElem left.1, List.getElem?_eq_getElem right.1]
    rfl

/-- Rows of a width tell as much of two orders by fields within it as all assignments of values to fields. -/
theorem forall_rows_iff {width : Nat} (inside : ∀ key ∈ c, key.field < width) :
    (∀ a b : Row, a.length = width → b.length = width →
      storedOrder c (fun field => a[field]?.getD .null) (fun field => b[field]?.getD .null) =
        localOrder c (fun field => a[field]?.getD .null) fun field => b[field]?.getD .null) ↔
      ∀ x y, storedOrder c x y = localOrder c x y := by
  refine ⟨fun same x y => ?_, fun same a b _ _ => same _ _⟩
  have read (z : Nat → Value) : ∀ key ∈ c, (((List.range width).map z)[key.field]?).getD .null = z key.field := by
    intro key mem
    rw [List.getElem?_map, List.getElem?_range (inside key mem)]
    rfl
  have rows := same ((List.range width).map x) ((List.range width).map y) (by simp) (by simp)
  rw [storedOrder, localOrder, decideBy_congr fun key mem => by rw [read x key mem, read y key mem]] at rows
  rw [storedOrder, rows]
  exact decideBy_congr fun key mem => by rw [read x key mem, read y key mem]

end Sorting

/-- The stages of a sort are written for every collation over a row type. If its names tell fields and flags apart and
every key says where its nulls go, the stages put all rows in the order that they have in process exactly when the
collation is steady, as it is where no field has two keys. -/
theorem orders_sortStages_iff {rowType : RowType} {c : Collation} (legible : Legible rowType.names)
    (inside : ∀ key ∈ c, key.field < rowType.arity) (explicit : ∀ key ∈ c, key.nulls ≠ .unspecified)
    (offset fetch : Option Nat) :
    ∃ stages, sortStages c offset fetch rowType.names = .ok stages ∧
      ((∀ a b : Row, a.length = rowType.arity → b.length = rowType.arity →
          compareThrough? stages (recordOf rowType.names a) (recordOf rowType.names b) =
            some (Rows.compareBy c a b)) ↔ isSteady c = true) ∧
      ((c.map SortKey.field).Nodup → isSteady c = true) := by
  have width : rowType.names.length = rowType.arity := List.length_map _
  obtain ⟨stages, made, compares⟩ := legible.compareThrough?_eq (width ▸ inside) offset fetch
  refine ⟨stages, made, ?_, isSteady_of_nodup⟩
  rw [← storedOrder_eq_iff explicit, ← forall_rows_iff inside]
  refine forall_congr' fun a => forall_congr' fun b => forall_congr' fun left => forall_congr' fun right => ?_
  rw [compares, compareBy_eq_localOrder (left ▸ inside) (right ▸ inside), Option.some_inj]

/-- A key that comes again with its direction changes nothing, also if it has its nulls elsewhere. A key that comes
again with the other direction takes the place of the first. -/
theorem orders_sortStages_iff_repeated :
    let rowType : RowType := ⟨[⟨"a", .integer, true⟩, ⟨"b", .integer, true⟩]⟩
    let again : Collation := [⟨0, .ascending, .last⟩, ⟨1, .descending, .last⟩, ⟨0, .ascending, .first⟩]
    let turned : Collation := [⟨0, .ascending, .first⟩, ⟨0, .descending, .last⟩]
    (∃ stages, sortStages again none (some 3) rowType.names = .ok stages ∧
      ∀ a b : Row, a.length = 2 → b.length = 2 →
        compareThrough? stages (recordOf rowType.names a) (recordOf rowType.names b) =
          some (Rows.compareBy again a b)) ∧
    ∃ stages, sortStages turned none none rowType.names = .ok stages ∧
      ¬∀ a b : Row, a.length = 2 → b.length = 2 →
        compareThrough? stages (recordOf rowType.names a) (recordOf rowType.names b) =
          some (Rows.compareBy turned a b) := by
  intro rowType again turned
  have legible : Legible rowType.names := by
    refine ⟨by decide, fun name mem base same => ?_⟩
    have marked : (nullFlag base).toList.head? = some '_' := by
      rw [nullFlag, String.toList_append]
      rfl
    have plain : ∀ name ∈ rowType.names, name.toList.head? ≠ some '_' := by decide
    exact plain name mem (same ▸ marked)
  obtain ⟨stages, made, agrees, -⟩ := orders_sortStages_iff legible (c := again) (by decide) (by decide) none (some 3)
  obtain ⟨stages', made', differs, -⟩ := orders_sortStages_iff legible (c := turned) (by decide) (by decide) none none
  exact ⟨⟨stages, made, agrees.2 (by decide)⟩, stages', made', fun same => absurd (differs.1 same) (by decide)⟩

end FederatedQuery.Pipeline
