import FederatedQuery.Pipeline.Stage
import FederatedQuery.Proofs.Document.Entries
import FederatedQuery.Rows.Sort
import Mathlib.Data.List.Nodup

/-!
The keys of a sort in a store that sets them by name. A later key on a field takes the place of an earlier one, and so
do the flags that tell nulls from other values; in process the earlier key decides. The two orders are one where the
first key on every field is kept in what its entries are left with.
-/
namespace FederatedQuery

/-- The outcome of tests that are made in turn: the first that does not tie decides. -/
def decideBy {α : Type} (outcome : α → Ordering) (tests : List α) : Ordering :=
  tests.foldr (fun test later => (outcome test).then later) .eq

section DecideBy

variable {α β : Type} {f g : α → Ordering} {xs ys : List α} {x : α}

theorem decideBy_cons : decideBy f (x :: xs) = (f x).then (decideBy f xs) := rfl

theorem decideBy_append : decideBy f (xs ++ ys) = (decideBy f xs).then (decideBy f ys) := by
  induction xs with
  | nil => rfl
  | cons _ _ ih => rw [List.cons_append, decideBy_cons, ih, decideBy_cons, Ordering.then_assoc]

theorem decideBy_flatMap (f : β → Ordering) (parts : α → List β) :
    decideBy f (xs.flatMap parts) = decideBy (fun x => decideBy f (parts x)) xs := by
  induction xs with
  | nil => rfl
  | cons _ _ ih => rw [List.flatMap_cons, decideBy_append, ih, decideBy_cons]

theorem decideBy_map (f : β → Ordering) (g : α → β) : decideBy f (xs.map g) = decideBy (fun x => f (g x)) xs :=
  List.foldr_map ..

theorem decideBy_congr (same : ∀ x ∈ xs, f x = g x) : decideBy f xs = decideBy g xs := by
  induction xs with
  | nil => rfl
  | cons _ _ ih =>
    rw [List.forall_mem_cons] at same
    rw [decideBy_cons, decideBy_cons, same.1, ih same.2]

theorem decideBy_eq_eq : decideBy f xs = .eq ↔ ∀ x ∈ xs, f x = .eq := by
  induction xs with
  | nil => simp [decideBy]
  | cons _ _ ih => rw [decideBy_cons, Ordering.then_eq_eq, ih, List.forall_mem_cons]

theorem then_of_ne_eq {o : Ordering} (decided : o ≠ .eq) (later : Ordering) : o.then later = o := by
  cases o with
  | eq => exact absurd rfl decided
  | lt | gt => rfl

theorem decideBy_of_head? {telling : α → Bool} (first : (xs.filter telling).head? = some x)
    (ties : ∀ y ∈ xs, telling y = false → f y = .eq) (decided : f x ≠ .eq) : decideBy f xs = f x := by
  induction xs with
  | nil => cases first
  | cons y ys ih =>
    rw [List.forall_mem_cons] at ties
    rw [decideBy_cons]
    cases here : telling y with
    | true =>
      rw [List.filter_cons_of_pos here] at first
      cases first
      exact then_of_ne_eq decided _
    | false =>
      rw [List.filter_cons_of_neg (Bool.not_eq_true _ ▸ here)] at first
      rw [ties.1 here, ih first ties.2]
      rfl

/-- A test that is made again tells nothing new. -/
theorem decideBy_keys_ofPairs (f : String → Ordering) (pairs : List (String × Document)) :
    decideBy f (Entries.ofPairs pairs).keys = decideBy f (Entries.keys pairs) := by
  induction pairs using List.reverseRecOn with
  | nil => rfl
  | append_singleton pairs last ih =>
    rw [Entries.ofPairs_concat, Entries.keys_append, decideBy_append, ← ih]
    by_cases present : last.1 ∈ (Entries.ofPairs pairs).keys
    · rw [Entries.keys_put_of_mem present]
      by_cases decided : decideBy f (Entries.ofPairs pairs).keys = .eq
      · rw [decided, decideBy_eq_eq.2]
        · rfl
        · exact List.forall_mem_singleton.2 (decideBy_eq_eq.1 decided _ present)
      · exact (then_of_ne_eq decided _).symm
    · rw [Entries.put_of_not_mem present, Entries.keys_append, decideBy_append]

end DecideBy

namespace Collation

open Pipeline

variable {c : Collation} {field : Nat} {first : SortKey} {key : SortKey}

def keysOn (c : Collation) (field : Nat) : Collation := c.filter fun key => key.field = field

/-- The direction that the last of some keys asks for. -/
def lastDescending (c : Collation) : Bool := (c.getLast?.map SortKey.isDescending).getD false

/-- The direction in which the entry of a field is left. -/
def valuesDescending (c : Collation) (field : Nat) : Bool := lastDescending (keysOn c field)

/-- The direction in which the flag of a field is left. -/
def nullsDescending (c : Collation) (field : Nat) : Bool := lastDescending ((keysOn c field).filter needsNullFlag)

/-- Whether a key is what the entries on its field are left with. -/
def Kept (c : Collation) (key : SortKey) : Prop :=
  valuesDescending c key.field = key.isDescending ∧
    (needsNullFlag key = true → nullsDescending c key.field = key.isDescending)

instance (c : Collation) (key : SortKey) : Decidable (Kept c key) := inferInstanceAs (Decidable (_ ∧ _))

/-- Whether the first key on every field is kept. -/
def isSteady (c : Collation) : Bool := c.all fun key => (keysOn c key.field).head?.all fun first => Kept c first

theorem mem_keysOn : key ∈ keysOn c field ↔ key ∈ c ∧ key.field = field := by
  rw [keysOn, List.mem_filter, decide_eq_true_iff]

theorem keysOn_cons_self (key : SortKey) (rest : Collation) :
    keysOn (key :: rest) key.field = key :: keysOn rest key.field :=
  List.filter_cons_of_pos (p := fun other : SortKey => decide (other.field = key.field)) (decide_eq_true rfl)

theorem keysOn_cons_of_ne (other : key.field ≠ field) (rest : Collation) :
    keysOn (key :: rest) field = keysOn rest field :=
  List.filter_cons_of_neg (by simpa using other)

theorem mem_of_head? (head : (keysOn c field).head? = some first) : first ∈ c ∧ first.field = field :=
  mem_keysOn.1 (List.mem_of_head? head)

theorem isSteady_iff : isSteady c = true ↔ ∀ field, ∀ first ∈ (keysOn c field).head?, Kept c first := by
  rw [isSteady, List.all_eq_true]
  constructor
  · intro steady field first head
    obtain ⟨mem, rfl⟩ := mem_of_head? head
    have kept := steady first mem
    rw [Option.mem_def.1 head] at kept
    exact of_decide_eq_true kept
  · intro kept key mem
    cases head : (keysOn c key.field).head? with
    | none => rfl
    | some first => exact decide_eq_true (kept _ first head)

theorem isSteady_of_nodup (distinct : (c.map SortKey.field).Nodup) : isSteady c = true := by
  rw [isSteady_iff]
  intro field first head
  obtain ⟨mem, rfl⟩ := mem_of_head? head
  have alone : keysOn c first.field = [first] := by
    have single : (c.map SortKey.field).count first.field = 1 :=
      List.count_eq_one_of_mem distinct (List.mem_map_of_mem mem)
    have length : (keysOn c first.field).length = 1 := by
      rw [keysOn, ← List.countP_eq_length_filter, ← single, List.count, List.countP_map]
      rfl
    obtain ⟨key, same⟩ := List.length_eq_one_iff.1 length
    rw [same] at head ⊢
    exact congrArg ([·]) (Option.some.inj head)
  refine ⟨?_, fun flagged => ?_⟩
  · rw [valuesDescending, alone]
    rfl
  · rw [nullsDescending, alone, List.filter_cons_of_pos flagged]
    rfl

end Collation

namespace Pipeline

open Collation

/-- The order of values in a store: null comes first, false before true, and the rest as in process. -/
def storeCompare : Value → Value → Ordering
  | .null, .null => .eq
  | .null, _ => .lt
  | _, .null => .gt
  | .bool false, .bool true => .lt
  | .bool true, .bool false => .gt
  | .bool _, .bool _ => .eq
  | x, y => x.compare y

theorem storeCompare_eq_compare (x y : Value) : storeCompare x y = x.compare y := by
  cases x with
  | bool a => cases y with
    | bool b => cases a <;> cases b <;> rfl
    | _ => rfl
  | _ => cases y <;> rfl

/-- What an entry of a sort makes of the order of values. -/
def directed (descending : Bool) (o : Ordering) : Ordering := if descending then o.swap else o

variable {o : Ordering}

theorem directed_inj {left right : Bool} (decided : o ≠ .eq)
    (same : directed left o = directed right o) : left = right := by
  cases left <;> cases right <;> cases o <;> simp_all [directed]

theorem directed_eq_eq {descending : Bool} : directed descending o = .eq ↔ o = .eq := by
  cases descending <;> cases o <;> simp [directed]

section Keys

variable {c : Collation} {x y : Value} {key : SortKey} {other : SortKey}

/-- How a store compares two values by the entries that a key is left with: by the flags, if the key has one, and then
by the values. -/
def compareStored (c : Collation) (key : SortKey) (x y : Value) : Ordering :=
  (if needsNullFlag key then
    directed (nullsDescending c key.field) (storeCompare (.bool x.isNull) (.bool y.isNull)) else .eq).then
      (directed (valuesDescending c key.field) (storeCompare x y))

theorem compare_of_isNull (null : x.isNull = true) (present : y.isNull = false) :
    x.compare y = .lt ∧ y.compare x = .gt := by
  cases x with
  | null => cases y <;> first | exact ⟨rfl, rfl⟩ | cases present
  | _ => cases null

theorem eq_null_of_isNull (null : x.isNull = true) : x = .null := by
  cases x <;> first | rfl | cases null

theorem isNull_eq_of_compareByKey (tie : Rows.compareByKey key x y = .eq) : x.isNull = y.isNull := by
  unfold Rows.compareByKey at tie
  cases left : x.isNull <;> cases right : y.isNull <;> rw [right] at tie <;>
    cases first : key.nullsFirst <;> simp_all

theorem storeCompare_of_compareByKey (tie : Rows.compareByKey key x y = .eq) : storeCompare x y = .eq := by
  have same := isNull_eq_of_compareByKey tie
  rw [storeCompare_eq_compare]
  unfold Rows.compareByKey at tie
  cases null : x.isNull with
  | true =>
    have null' : y.isNull = true := same ▸ null
    rw [eq_null_of_isNull null, eq_null_of_isNull null']
    rfl
  | false =>
    rw [← same, null] at tie
    exact directed_eq_eq.1 tie

theorem nullsFirst_eq (explicit : key.nulls ≠ .unspecified) :
    key.nullsFirst = (needsNullFlag key == key.isDescending) := by
  unfold needsNullFlag SortKey.nullsFirst
  cases nulls : key.nulls <;> cases key.isDescending <;> simp_all

theorem compareStored_of_kept (explicit : key.nulls ≠ .unspecified) (kept : Kept c key) (x y : Value) :
    compareStored c key x y = Rows.compareByKey key x y := by
  unfold compareStored Rows.compareByKey
  rw [storeCompare_eq_compare x y, kept.1, nullsFirst_eq explicit]
  cases left : x.isNull with
  | true => cases right : y.isNull with
    | true =>
      rw [eq_null_of_isNull left, eq_null_of_isNull right]
      cases needsNullFlag key <;> cases nullsDescending c key.field <;> cases key.isDescending <;> rfl
    | false =>
      rw [(compare_of_isNull left right).1]
      cases flagged : needsNullFlag key with
      | true =>
        rw [kept.2 flagged]
        cases key.isDescending <;> rfl
      | false => cases key.isDescending <;> rfl
  | false => cases right : y.isNull with
    | true =>
      rw [(compare_of_isNull right left).2]
      cases flagged : needsNullFlag key with
      | true =>
        rw [kept.2 flagged]
        cases key.isDescending <;> rfl
      | false => cases key.isDescending <;> rfl
    | false =>
      cases needsNullFlag key <;> cases nullsDescending c key.field <;> cases key.isDescending <;>
        simp [directed, storeCompare]

theorem compareByKey_of_tie (tie : Rows.compareByKey key x y = .eq) : Rows.compareByKey other x y = .eq := by
  have same := isNull_eq_of_compareByKey tie
  have equal := storeCompare_of_compareByKey tie
  rw [storeCompare_eq_compare] at equal
  unfold Rows.compareByKey
  rw [same, equal]
  cases y.isNull <;> cases other.isDescending <;> rfl

theorem compareStored_of_tie (tie : Rows.compareByKey key x y = .eq) : compareStored c other x y = .eq := by
  unfold compareStored
  rw [isNull_eq_of_compareByKey tie, storeCompare_of_compareByKey tie]
  cases needsNullFlag other <;> cases nullsDescending c other.field <;> cases valuesDescending c other.field <;>
    cases y.isNull <;> rfl

end Keys

section Collations

variable {c rest : Collation} {x y : Nat → Value} {field : Nat} {first : SortKey} {v w : Value}

/-- How a store compares two rows by the entries that a collation is left with. -/
def storedOrder (c : Collation) (x y : Nat → Value) : Ordering :=
  decideBy (fun key => compareStored c key (x key.field) (y key.field)) c

def localOrder (c : Collation) (x y : Nat → Value) : Ordering :=
  decideBy (fun key => Rows.compareByKey key (x key.field) (y key.field)) c

/-- The induction is on the keys that are left. Where a key on a field was before, the values of the field tie. -/
theorem decideBy_compareStored {tied : List Nat} (explicit : ∀ key ∈ rest, key.nulls ≠ .unspecified)
    (ties : ∀ field ∈ tied, ∃ key, Rows.compareByKey key (x field) (y field) = .eq)
    (kept : ∀ field, field ∉ tied → ∀ first ∈ (keysOn rest field).head?, Kept c first) :
    decideBy (fun key => compareStored c key (x key.field) (y key.field)) rest = localOrder rest x y := by
  induction rest generalizing tied with
  | nil => rfl
  | cons key rest ih =>
    rw [List.forall_mem_cons] at explicit
    rw [localOrder, decideBy_cons, decideBy_cons, ← localOrder]
    by_cases before : key.field ∈ tied
    · obtain ⟨earlier, tie⟩ := ties key.field before
      rw [compareStored_of_tie tie, compareByKey_of_tie tie, ih explicit.2 ties]
      intro field free first head
      have other : key.field ≠ field := fun same => free (same ▸ before)
      rw [← keysOn_cons_of_ne other] at head
      exact kept field free first head
    · have here : (keysOn (key :: rest) key.field).head? = some key := by rw [keysOn_cons_self, List.head?_cons]
      rw [compareStored_of_kept explicit.1 (kept key.field before key here)]
      by_cases tie : Rows.compareByKey key (x key.field) (y key.field) = .eq
      · have more : ∀ field ∈ key.field :: tied, ∃ key, Rows.compareByKey key (x field) (y field) = .eq :=
          List.forall_mem_cons.2 ⟨⟨key, tie⟩, ties⟩
        rw [ih explicit.2 more]
        intro field free first head
        rw [List.mem_cons, not_or] at free
        rw [← keysOn_cons_of_ne (Ne.symm free.1)] at head
        exact kept field free.2 first head
      · rw [then_of_ne_eq tie, then_of_ne_eq tie]

/-- A row with one value that is not null. -/
def alone (field : Nat) (v : Value) (index : Nat) : Value := if index = field then v else .null

/-- Rows with values in one field only are compared by the first key on the field, where nulls tie. -/
theorem decideBy_alone (head : (keysOn c field).head? = some first)
    (compare : SortKey → Value → Value → Ordering) (ties : ∀ key, compare key .null .null = .eq)
    (decided : compare first v w ≠ .eq) :
    decideBy (fun key => compare key (alone field v key.field) (alone field w key.field)) c = compare first v w := by
  have here : compare first (alone field v first.field) (alone field w first.field) = compare first v w := by
    rw [(mem_of_head? head).2, alone, alone, if_pos rfl, if_pos rfl]
  refine (decideBy_of_head? head (fun key _ other => ?_) (here ▸ decided)).trans here
  rw [alone, alone, if_neg (of_decide_eq_false other), if_neg (of_decide_eq_false other), ties]

/-- Where the two orders are one, the first key on a field has the direction that it is left with. -/
theorem direction_eq (head : (keysOn c field).head? = some first)
    (same : ∀ x y, storedOrder c x y = localOrder c x y) {o : Ordering} (decided : o ≠ .eq)
    {left right : Bool} (stored : compareStored c first v w = directed left o)
    (placed : Rows.compareByKey first v w = directed right o) : left = right := by
  apply directed_inj decided
  have ties (key : SortKey) : compareStored c key .null .null = .eq :=
    compareStored_of_tie (show Rows.compareByKey key _ _ = _ from rfl)
  rw [← stored, ← placed, ← decideBy_alone head (compareStored c) ties (stored ▸ mt directed_eq_eq.1 decided),
    ← decideBy_alone head Rows.compareByKey (fun _ => rfl) (placed ▸ mt directed_eq_eq.1 decided)]
  exact same _ _

/-- The entries that a collation is left with order all rows as the collation does exactly when it is steady. -/
theorem storedOrder_eq_iff (explicit : ∀ key ∈ c, key.nulls ≠ .unspecified) :
    (∀ x y, storedOrder c x y = localOrder c x y) ↔ isSteady c = true := by
  rw [isSteady_iff]
  constructor
  · intro same field first head
    obtain ⟨mem, rfl⟩ := mem_of_head? head
    refine ⟨?_, fun flagged => ?_⟩
    · have stored : compareStored c first (.int 0) (.int 1) = directed (valuesDescending c first.field) .lt := by
        unfold compareStored
        cases needsNullFlag first <;> cases nullsDescending c first.field <;> rfl
      exact direction_eq head same (by decide) stored rfl
    · have stored : compareStored c first .null (.int 0) = directed (nullsDescending c first.field) .gt := by
        unfold compareStored
        rw [flagged]
        cases nullsDescending c first.field <;> rfl
      have placed : Rows.compareByKey first .null (.int 0) = directed first.isDescending .gt := by
        unfold Rows.compareByKey
        rw [nullsFirst_eq (explicit first mem), flagged]
        cases first.isDescending <;> rfl
      exact direction_eq head same (by decide) stored placed
  · intro kept x y
    exact decideBy_compareStored explicit (List.forall_mem_nil _) fun field _ => kept field

end Collations

end Pipeline

end FederatedQuery
