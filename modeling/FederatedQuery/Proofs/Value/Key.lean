import FederatedQuery.Proofs.Value.Total
import FederatedQuery.Value.Key

/-!
Rows that the order holds equal and the words they are made of. An integral float has the words of its integer,
so equal rows have equal words, with one exception: two to the power of sixty-three equals the integers that are
rounded to it and has words of its own.
-/
namespace FederatedQuery

theorem int64?_toInt (i : Int64) : int64? i.toInt = some i := by
  rw [int64?, if_pos ⟨i.minValue_le_toInt, i.toInt_le⟩, Int64.ofInt_toInt]

namespace Double

/-- The least float above all integers. -/
def limit : Double := ofInt (2 ^ 63)

theorem integer?_limit : limit.integer? = none := by decide +kernel

variable {x : Double}

theorem eq_limit (units : x.units = 2 ^ 63 * (oneCount : Int)) : x = limit := by
  have nonzero : x.units ≠ 0 := by
    have one := oneCount_pos
    omega
  exact eq_of_units_eq nonzero (units.trans units_ofInt_limit.symm)

theorem integer?_of_units {i : Int64} (units : x.units = i.toInt * (oneCount : Int)) : x.integer? = some i := by
  have one : (oneCount : Int) ≠ 0 := by exact_mod_cast oneCount_pos.ne'
  rw [integer?, units, Int.mul_emod_left, if_pos rfl, Int.mul_ediv_cancel _ one, int64?_toInt]

theorem eq_of_totalCompare {y : Double} (equal : x.totalCompare y = .eq) : x = y := by
  have keys : x.totalKey = y.totalKey := Int.compare_eq_eq.1 equal
  unfold totalKey at keys
  cases left : x.isNegative <;> cases right : y.isNegative <;>
    simp only [left, right, Bool.false_eq_true, if_true, if_false] at keys
  · exact eq_of_magnitude_eq (left.trans right.symm) (by omega)
  · omega
  · omega
  · exact eq_of_magnitude_eq (left.trans right.symm) (by omega)

end Double

namespace Value

/-- A float has the word of an equal integer unless it is two to the power of sixty-three. -/
theorem doubleWord_eq_iff {i : Int64} {x : Double} (equal : compareIntDouble i x = .eq) :
    doubleWord x = .integer i ↔ x ≠ .limit := by
  unfold doubleWord
  cases found : x.integer? with
  | some j =>
    rw [compareIntDouble, found] at equal
    have same : i = j := Int64.toInt_inj.1 (Int.compare_eq_eq.1 equal)
    refine iff_of_true (congrArg KeyWord.integer same.symm) ?_
    rintro rfl
    rw [Double.integer?_limit] at found
    cases found
  | none =>
    -- A float that is no integer is equal to one only where the integer is rounded.
    refine iff_of_false KeyWord.noConfusion fun apart => apart ?_
    by_contra below
    rw [compareIntDouble_eq fun units => below (Double.eq_limit units)] at equal
    rw [Double.integer?_of_units (Int.compare_eq_eq.1 equal).symm] at found
    cases found

mutual

/-- Whether an integer stands against two to the power of sixty-three somewhere in two values. -/
def meetsLimit : Value → Value → Bool
  | int _, float x | float x, int _ => decide (x = .limit)
  | array as, array bs => itemsMeetLimit as bs
  | _, _ => false

def itemsMeetLimit : List Value → List Value → Bool
  | a :: as, b :: bs => a.meetsLimit b || itemsMeetLimit as bs
  | _, _ => false

end

/-- Equal values have as many words, and the same ones unless they meet the limit. -/
structure SameWords (words words' : List KeyWord) (meets : Bool) : Prop where
  length_eq : words.length = words'.length
  eq_iff : words = words' ↔ meets = false

namespace SameWords

theorem refl (words : List KeyWord) : SameWords words words false := ⟨rfl, iff_of_true rfl rfl⟩

theorem append {first first' rest rest' : List KeyWord} {here later : Bool} (left : SameWords first first' here)
    (right : SameWords rest rest' later) : SameWords (first ++ rest) (first' ++ rest') (here || later) := by
  refine ⟨by rw [List.length_append, List.length_append, left.length_eq, right.length_eq], ?_⟩
  rw [Bool.or_eq_false_iff, ← left.eq_iff, ← right.eq_iff]
  constructor
  · exact fun same => List.append_inj same left.length_eq
  · rintro ⟨rfl, rfl⟩
    rfl

end SameWords

variable {as : List Value} {a b : Value}

theorem sameWords_items (each : ∀ a ∈ as, ∀ b, a.compare b = .eq → SameWords a.keyWords b.keyWords (a.meetsLimit b)) :
    ∀ bs, compareRows as bs = .eq →
      as.length = bs.length ∧ SameWords (itemWords as) (itemWords bs) (itemsMeetLimit as bs) := by
  induction as with
  | nil =>
    intro bs equal
    cases bs with
    | nil => exact ⟨rfl, .refl _⟩
    | cons => cases equal
  | cons _ _ ih =>
    intro bs equal
    cases bs with
    | nil => cases equal
    | cons b bs =>
      rw [compareRows, Ordering.then_eq_eq] at equal
      rw [List.forall_mem_cons] at each
      obtain ⟨long, words⟩ := ih each.2 bs equal.2
      exact ⟨congrArg (· + 1) long, (each.1 b equal.1).append words⟩

theorem rank_eq_of_compare (equal : a.compare b = .eq) : a.rank = b.rank := by
  by_contra apart
  rw [compare_of_rank_ne apart] at equal
  exact apart (Nat.compare_eq_eq.1 equal)

/-- Equal integers and floats: only an integer against the limit has another word. -/
theorem sameWords_numbers (number : a.rank = 2) (equal : a.compare b = .eq) :
    SameWords a.keyWords b.keyWords (a.meetsLimit b) := by
  have number' : b.rank = 2 := (rank_eq_of_compare equal).symm.trans number
  have against {i : Int64} {x : Double} (equal : compareIntDouble i x = .eq) :
      (KeyWord.integer i = doubleWord x ↔ decide (x = .limit) = false) := by
    rw [eq_comm, doubleWord_eq_iff equal, decide_eq_false_iff_not]
  cases a with
  | int =>
    cases b with
    | int =>
      rw [eq_of_compare equal rfl rfl]
      exact .refl _
    | float =>
      refine ⟨rfl, ?_⟩
      simpa [keyWords, meetsLimit] using against equal
    | _ => cases number'
  | float x =>
    cases b with
    | int j =>
      have reversed : compareIntDouble j x = .eq := by
        exact Ordering.swap_eq_eq.1 equal
      refine ⟨rfl, ?_⟩
      simpa [keyWords, meetsLimit, eq_comm] using against reversed
    | float =>
      rw [Double.eq_of_totalCompare equal]
      exact .refl _
    | _ => cases number'
  | _ => cases number

theorem meetsLimit_self (a : Value) (scalar : a.rank ≠ 7) : a.meetsLimit a = false := by
  cases a <;> first | rfl | exact absurd rfl scalar

theorem sameWords_of_compare (a : Value) :
    ∀ b, a.compare b = .eq → SameWords a.keyWords b.keyWords (a.meetsLimit b) := by
  induction a using Value.induction with
  | scalar a scalar =>
    intro b equal
    by_cases number : a.rank = 2
    · exact sameWords_numbers number equal
    · have ranks := rank_eq_of_compare equal
      have floatless (v : Value) (number : v.rank ≠ 2) (scalar : v.rank ≠ 7) : v.floats = [] := by
        cases v <;> first | rfl | exact absurd rfl number | exact absurd rfl scalar
      rw [← eq_of_compare equal (floatless a number scalar) (floatless b (ranks ▸ number) (ranks ▸ scalar)),
        meetsLimit_self a scalar]
      exact .refl _
  | array as ih =>
    intro b equal
    have ranks := rank_eq_of_compare equal
    cases b with
    | array bs =>
      obtain ⟨long, words⟩ := sameWords_items ih bs equal
      rw [keyWords, long]
      exact (SameWords.refl [.rank 7, .size bs.length]).append words
    | _ => cases ranks

theorem compareRows_of_itemWords {rest rest' : List KeyWord}
    (each : ∀ a ∈ as, ∀ {b rest rest'}, a.floats = [] → a.keyWords ++ rest = b.keyWords ++ rest' →
      a.compare b = .eq ∧ rest = rest') (free : itemFloats as = []) :
    ∀ {bs : List Value}, as.length = bs.length → itemWords as ++ rest = itemWords bs ++ rest' →
      compareRows as bs = .eq ∧ rest = rest' := by
  induction as with
  | nil =>
    intro bs long words
    cases bs with
    | nil => exact ⟨rfl, words⟩
    | cons => cases long
  | cons _ _ ih =>
    intro bs long words
    cases bs with
    | nil => cases long
    | cons =>
      rw [List.forall_mem_cons] at each
      obtain ⟨here, later⟩ := List.append_eq_nil_iff.1 free
      rw [itemWords, itemWords, List.append_assoc, List.append_assoc] at words
      obtain ⟨equal, words⟩ := each.1 here words
      obtain ⟨equals, same⟩ := ih each.2 later (Nat.succ.inj long) words
      rw [compareRows, equal, equals]
      exact ⟨rfl, same⟩

/-- The words of a value without floats say where it ends and what it is equal to. -/
theorem compare_of_keyWords (a : Value) : ∀ {b : Value} {rest rest' : List KeyWord}, a.floats = [] →
    a.keyWords ++ rest = b.keyWords ++ rest' → a.compare b = .eq ∧ rest = rest' := by
  induction a using Value.induction with
  | scalar a scalar =>
    intro b rest rest' free words
    cases a with
    | array => exact absurd rfl scalar
    | float => cases free
    | int =>
      cases b with
      | float x =>
        rw [keyWords, keyWords, doubleWord] at words
        cases whole : x.integer? with
        | none => simp [whole] at words
        | some =>
          simp [whole] at words
          exact ⟨by simp [compare, compareIntDouble, whole, words.1], words.2⟩
      | _ => simp_all [keyWords, compare_self]
    | _ => cases b <;> simp_all [keyWords, compare_self]
  | array as ih =>
    intro b rest rest' free words
    cases b with
    | array =>
      simp only [keyWords, List.cons_append, List.cons.injEq, KeyWord.size.injEq, true_and] at words
      exact compareRows_of_itemWords ih free words.1 words.2
    | _ => simp [keyWords] at words

end Value

namespace Row

/-- A row without floats has the key of every row with the same words. -/
theorem sameKey_iff_keyWords {r s : Row} (free : Value.itemFloats r = []) :
    r.sameKey s = true ↔ r.keyWords = s.keyWords := by
  rw [sameKey, Bool.and_eq_true, decide_eq_true_iff]
  refine and_iff_left_of_imp fun words => decide_eq_true ?_
  rw [keyWords, keyWords, List.cons.injEq, KeyWord.size.injEq] at words
  have whole : Value.itemWords r ++ [] = Value.itemWords s ++ [] := congrArg (· ++ []) words.2
  exact (Value.compareRows_of_itemWords (fun a _ => a.compare_of_keyWords) free words.1 whole).1

/-- Equal rows are made of the same words, so that they are one grouping key, exactly when no integer of the one
stands against two to the power of sixty-three in the other. -/
theorem keyWords_eq_iff (r s : Row) (equal : r.equal s = true) :
    r.keyWords = s.keyWords ↔ Value.itemsMeetLimit r s = false := by
  obtain ⟨long, words⟩ := Value.sameWords_items (fun a _ => Value.sameWords_of_compare a) s (of_decide_eq_true equal)
  rw [keyWords, keyWords, long]
  exact ((Value.SameWords.refl [.size s.length]).append words).eq_iff

/-- Integers against integral floats, in an array too, are one key; the greatest integer against two to the power of
sixty-three is not. -/
theorem keyWords_eq_mixed :
    let two := Double.ofInt 2
    let r : Row := [.int 2, .array [.float two, .null], .float (.zero true)]
    let s : Row := [.float two, .array [.int 2, .null], .int 0]
    let top : Row := [.int Int64.maxValue]
    let above : Row := [.float (.ofInt (2 ^ 63))]
    (r.equal s = true ∧ r.keyWords = s.keyWords) ∧ top.equal above = true ∧ top.keyWords ≠ above.keyWords := by
  intro two r s top above
  have same : r.equal s = true := by decide +kernel
  have same' : top.equal above = true := by decide +kernel
  refine ⟨⟨same, (keyWords_eq_iff r s same).2 (by decide +kernel)⟩, same', fun words => ?_⟩
  exact absurd ((keyWords_eq_iff top above same').1 words) (by decide +kernel)

end Row

end FederatedQuery
