import FederatedQuery.Proofs.Double.Order
import FederatedQuery.Proofs.Expr.Evaluation

/-!
The characters that are cut out of a text: those at the positions from the start on and before the end, counted without
bounds. On texts as long as a number of sixty-four bits can say, every step of the computation fits.
-/
namespace FederatedQuery

/-- The characters at the positions that pass a test, in order; the first position is one. -/
def Text.positioned (text : List Char) (test : Int → Prop) [DecidablePred test] : List Char :=
  ((text.zipIdx 1).filter fun x => test x.2).map Prod.fst

theorem Text.positioned_congr {text : List Char} {test test' : Int → Prop} [DecidablePred test] [DecidablePred test']
    (same : ∀ p : Int, 1 ≤ p → p ≤ text.length → (test p ↔ test' p)) :
    positioned text test = positioned text test' := by
  rw [positioned, positioned, List.filter_congr]
  intro x mem
  have within := List.mem_zipIdx mem
  exact decide_eq_decide.2 (same x.2 (by omega) (by omega))

theorem Text.positioned_between (text : List Char) (lo hi : Nat) :
    positioned text (fun p => lo < p ∧ p ≤ hi) = (text.take hi).drop lo := by
  have shifted (k : Nat) : ((text.zipIdx (k + 1)).filter fun x => decide ((lo : Int) < x.2 ∧ (x.2 : Int) ≤ hi)).map
      Prod.fst = (text.take (hi - k)).drop (lo - k) := by
    induction text generalizing k with
    | nil => simp
    | cons c rest ih =>
      rw [List.zipIdx_cons, List.filter_cons]
      by_cases ended : hi ≤ k
      · rw [if_neg (by simp; omega), ih, Nat.sub_eq_zero_of_le ended, Nat.sub_eq_zero_of_le (Nat.le_succ_of_le ended)]
        simp
      · rw [show hi - k = hi - (k + 1) + 1 by omega, List.take_succ_cons]
        by_cases begun : lo ≤ k
        · rw [if_pos (by simp; omega), List.map_cons, ih, Nat.sub_eq_zero_of_le begun, Nat.sub_eq_zero_of_le (by omega)]
          rfl
        · rw [if_neg (by simp; omega), ih, show lo - k = lo - (k + 1) + 1 by omega, List.drop_succ_cons]
  exact shifted 0

theorem toInt_saturatingSum (a b : Int64) :
    (saturatingSum a b).toInt = max (-2 ^ 63) (min (a.toInt + b.toInt) (2 ^ 63 - 1)) := by
  have low : Int64.minValue.toInt = -2 ^ 63 := rfl
  have high : Int64.maxValue.toInt = 2 ^ 63 - 1 := rfl
  rw [saturatingSum, low, high, Int64.toInt_ofInt_of_le] <;> omega

theorem exists_int64 {i : Int} (low : -2 ^ 63 ≤ i) (high : i < 2 ^ 63) : ∃ j, int64? i = some j ∧ j.toInt = i :=
  ⟨.ofInt i, if_pos ⟨low, Int.le_of_lt_add_one high⟩, Int64.toInt_ofInt_of_le low high⟩

theorem toInt_max (a b : Int64) : (max a b).toInt = max a.toInt b.toInt := by
  change (if a ≤ b then b else a).toInt = _
  split <;> simp_all only [Int64.le_iff_toInt_le] <;> omega

theorem toInt_min (a b : Int64) : (min a b).toInt = min a.toInt b.toInt := by
  change (if a ≤ b then a else b).toInt = _
  split <;> simp_all only [Int64.le_iff_toInt_le] <;> omega

namespace Op

variable {text : List Char} {start : Int64} {length : Option Int64}

/-- The end that is kept within sixty-four bits lies behind the text when the real one does. -/
theorem lt_substringEnd_iff (counts : ∀ n ∈ length, 0 ≤ n.toInt) {p : Int} (fits : p < 2 ^ 63 - 1) :
    p < (substringEnd start length).toInt ↔ ∀ n ∈ length, p < start.toInt + n.toInt := by
  cases length with
  | none => exact ⟨nofun, fun _ => fits⟩
  | some n =>
    have least : -2 ^ 63 ≤ start.toInt := start.minValue_le_toInt
    have count := counts n rfl
    simp only [substringEnd, toInt_saturatingSum, Option.mem_def, Option.some.injEq, forall_eq']
    omega

/-- Every step fits, and the places are in the text. -/
theorem substring?_eq_slice (short : (text.length : Int) < 2 ^ 63 - 1) :
    substring? text start length = some ((text.take ((substringEnd start length).toInt - 1).toNat).drop
      ((max start 1).toInt - 1).toNat) := by
  have most : start.toInt ≤ 2 ^ 63 - 1 := start.toInt_le
  have one : (1 : Int64).toInt = 1 := rfl
  have first := toInt_max start 1
  generalize ended : substringEnd start length = stop
  have last : stop.toInt ≤ 2 ^ 63 - 1 := stop.toInt_le
  rw [substring?, ended]
  by_cases empty : stop ≤ max start 1
  · rw [if_pos empty, List.drop_eq_nil_of_le]
    rw [Int64.le_iff_toInt_le] at empty
    rw [List.length_take]
    omega
  · rw [if_neg empty]
    rw [Int64.le_iff_toInt_le] at empty
    obtain ⟨before, fits, same⟩ := exists_int64 (i := (max start 1).toInt - 1) (by omega) (by omega)
    obtain ⟨behind, fits', same'⟩ := exists_int64 (i := stop.toInt - 1) (by omega) (by omega)
    obtain ⟨size, fits'', same''⟩ := exists_int64 (i := text.length) (by omega) (by omega)
    have least := toInt_min behind size
    have place : natural? before = some before.toInt.toNat := if_pos (by omega)
    have place' : natural? (min behind size) = some (min behind size).toInt.toNat := if_pos (by omega)
    simp only [fits, fits', fits'', place, place', Option.bind_eq_bind, Option.bind_some]
    rw [slice?, if_pos (by omega), same]
    by_cases inside : ((max start 1).toInt - 1).toNat ≤ text.length
    · have cut : text.take (max (min behind size).toInt.toNat ((max start 1).toInt - 1).toNat) =
          text.take (stop.toInt - 1).toNat := List.take_eq_take_iff.2 (by omega)
      rw [Nat.min_eq_left inside, cut]
    · rw [List.drop_eq_nil_of_le, List.drop_eq_nil_of_le] <;> rw [List.length_take] <;> omega

theorem substring?_eq {test : Int → Prop} [DecidablePred test] (short : (text.length : Int) < 2 ^ 63 - 1)
    (counts : ∀ n ∈ length, 0 ≤ n.toInt)
    (same : ∀ p, test p ↔ start.toInt ≤ p ∧ ∀ n ∈ length, p < start.toInt + n.toInt) :
    substring? text start length = some (Text.positioned text test) := by
  have one : (1 : Int64).toInt = 1 := rfl
  have first := toInt_max start 1
  rw [substring?_eq_slice short, ← Text.positioned_between]
  refine congrArg some (Text.positioned_congr fun p low high => ?_)
  rw [same, ← lt_substringEnd_iff counts (by omega)]
  omega

end Op

namespace Expr

/-- A substring has the characters of the text at the positions from the start on and, with a length, before the sum of
both, for all numbers of sixty-four bits. No step of the computation fails on a text of less characters than the
greatest number, and a negative length is refused. -/
theorem eval_substring {row : Row} {params : Bindings} {a b : Expr} {s : String} {start : Int64} (ty : SqlType)
    (text : a.eval row params = .ok (.string s)) (first : b.eval row params = .ok (.int start))
    (short : (s.length : Int) < 2 ^ 63 - 1) :
    (call .substring [a, b] ty).eval row params =
      .ok (.string (String.ofList (Text.positioned s.toList fun p => start.toInt ≤ p))) ∧
    ∀ (c : Expr) (n : Int64), c.eval row params = .ok (.int n) → (call .substring [a, b, c] ty).eval row params =
      if n.toInt < 0 then .error (.eval .negativeLength)
      else .ok (.string (String.ofList
        (Text.positioned s.toList fun p => start.toInt ≤ p ∧ p < start.toInt + n.toInt))) := by
  rw [← String.length_toList] at short
  refine ⟨?_, fun c n count => ?_⟩
  · rw [eval_eager rfl, evalAll_eq_ok.2 (.cons text (.cons first .nil))]
    exact congrArg Op.substringResult (Op.substring?_eq short (by simp) fun p => by simp)
  · rw [eval_eager rfl, evalAll_eq_ok.2 (.cons text (.cons first (.cons count .nil)))]
    change (if n.toInt < 0 then _ else Op.substringResult (Op.substring? s.toList start (some n))) = _
    split
    · rfl
    · next whole =>
      exact congrArg Op.substringResult (Op.substring?_eq short (fun m same => by cases same; omega) fun p => by simp)

/-- An end beyond the greatest number, and a negative length. -/
theorem eval_substring_long :
    (call .substring [lit (.string "abc"), lit (.int 2), lit (.int Int64.maxValue)] .any).eval [] (fun _ => none) =
      .ok (.string "bc") ∧
    (call .substring [lit (.string "abc"), lit (.int 2), lit (.int (-1))] .any).eval [] (fun _ => none) =
      .error (.eval .negativeLength) := by
  have exactly {c : Expr} {n : Int64} (count : c.eval [] (fun _ => none) = .ok (.int n)) :=
    (eval_substring (a := lit (.string "abc")) (b := lit (.int 2)) .any rfl rfl (by decide)).2 c n count
  exact ⟨(exactly rfl).trans rfl, (exactly rfl).trans rfl⟩

end Expr

end FederatedQuery
