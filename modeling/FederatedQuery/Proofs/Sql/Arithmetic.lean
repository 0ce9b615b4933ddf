import FederatedQuery.Sql.Text
import Mathlib.Logic.Basic

/-!
Arithmetic without the brackets of a right operand. A sum or product as the right operand of an addition or a
multiplication is continued from the left: `a * (b / c)` becomes `(a * b) / c`. Every shape of operators either keeps
its value on all numbers or loses it on some; it is kept where no product goes on with a division or a remainder.
-/
namespace FederatedQuery.Sql

inductive ArithmeticOp where
  | plus | minus | times | divide | remainder
deriving DecidableEq

namespace ArithmeticOp

def symbol : ArithmeticOp → String
  | plus => "+"
  | minus => "-"
  | times => "*"
  | divide => "/"
  | remainder => "%"

def precedence (op : ArithmeticOp) : Nat := binaryPrecedence op.symbol

/-- Division goes towards zero, and not by zero. -/
def apply : ArithmeticOp → Int → Int → Option Int
  | plus, a, b => some (a + b)
  | minus, a, b => some (a - b)
  | times, a, b => some (a * b)
  | divide, a, b => if b = 0 then none else some (a.tdiv b)
  | remainder, a, b => if b = 0 then none else some (a.tmod b)

/-- The operator computes a natural number from two. -/
def Computes : ArithmeticOp → Nat → Nat → Nat → Prop
  | plus, a, b, c => a + b = c
  | minus, a, b, c => b + c = a
  | times, a, b, c => a * b = c
  | divide, a, b, c => 0 < b ∧ a / b = c
  | remainder, a, b, c => 0 < b ∧ a % b = c

theorem apply_of_computes {op : ArithmeticOp} {a b c : Nat} (computes : op.Computes a b c) :
    op.apply a b = some (c : Int) := by
  cases op with
  | plus => exact congrArg some (by rw [← computes, Int.natCast_add])
  | minus => exact congrArg some (by rw [← computes]; omega)
  | times => exact congrArg some (by rw [← computes, Int.natCast_mul])
  | divide =>
    have nonzero : (b : Int) ≠ 0 := Int.natCast_ne_zero.2 (Nat.pos_iff_ne_zero.1 computes.1)
    rw [apply, if_neg nonzero, ← computes.2, Int.ofNat_tdiv]
  | remainder =>
    have nonzero : (b : Int) ≠ 0 := Int.natCast_ne_zero.2 (Nat.pos_iff_ne_zero.1 computes.1)
    rw [apply, if_neg nonzero, ← computes.2, Int.ofNat_tmod]

end ArithmeticOp

/-- Operators over leaves. -/
inductive Arithmetic (α : Type) where
  | leaf (a : α)
  | node (op : ArithmeticOp) (left right : Arithmetic α)

namespace Arithmetic

variable {α β : Type} {t : Arithmetic α}

def map (f : α → β) : Arithmetic α → Arithmetic β
  | leaf a => leaf (f a)
  | node op left right => node op (left.map f) (right.map f)

/-- The operators without what they apply to. -/
def shape (t : Arithmetic α) : Arithmetic Unit := t.map fun _ => ()

def leaves : Arithmetic α → List α
  | leaf a => [a]
  | node _ left right => left.leaves ++ right.leaves

/-- A leaf binds most tightly. -/
def precedence : Arithmetic α → Nat
  | leaf _ => 9
  | node op _ _ => op.precedence

def value : Arithmetic Int → Option Int
  | leaf i => some i
  | node op left right => do op.apply (← left.value) (← right.value)

/-- An operand in front of a term of the same precedence that has no brackets. -/
def graft (op : ArithmeticOp) (front : Arithmetic α) : Arithmetic α → Arithmetic α
  | leaf a => node op front (leaf a)
  | node op' left right =>
    if op'.precedence = op.precedence then node op' (graft op front left) right
    else node op front (node op' left right)

/-- A term as it reads from left to right when the right operands of additions and multiplications have no brackets. -/
def regrouped : Arithmetic α → Arithmetic α
  | leaf a => leaf a
  | node op left right =>
    if isAssociative op.symbol then graft op left.regrouped right.regrouped
    else node op left.regrouped right.regrouped

/-- Whether a product goes on only with products, from its left end. -/
def isPlainProduct : Arithmetic α → Bool
  | leaf _ => true
  | node .times left _ => left.isPlainProduct
  | node .divide _ _ | node .remainder _ _ => false
  | node .plus _ _ | node .minus _ _ => true

/-- Whether no multiplication has a division or a remainder to go on with. -/
def isSafe : Arithmetic α → Bool
  | leaf _ => true
  | node .times left right => left.isSafe && right.isSafe && right.isPlainProduct
  | node _ left right => left.isSafe && right.isSafe

section Map

variable {f : α → β}

theorem map_map {γ : Type} (g : β → γ) (t : Arithmetic α) : (t.map f).map g = t.map (g ∘ f) := by
  induction t with
  | leaf => rfl
  | node op left right first second => rw [map, map, first, second, map]

theorem leaves_map (t : Arithmetic α) : (t.map f).leaves = t.leaves.map f := by
  induction t with
  | leaf => rfl
  | node op left right first second => rw [map, leaves, first, second, leaves, List.map_append]

theorem map_graft (op : ArithmeticOp) (front t : Arithmetic α) :
    (graft op front t).map f = graft op (front.map f) (t.map f) := by
  induction t with
  | leaf => rfl
  | node op' left right ih _ =>
    rw [map, graft, graft]
    split
    · rw [map, ih]
    · rfl

theorem map_regrouped (t : Arithmetic α) : t.regrouped.map f = (t.map f).regrouped := by
  induction t with
  | leaf => rfl
  | node op left right first second =>
    rw [map, regrouped, regrouped]
    split
    · rw [map_graft, first, second]
    · rw [map, first, second]

theorem isPlainProduct_map (t : Arithmetic α) : (t.map f).isPlainProduct = t.isPlainProduct := by
  induction t with
  | leaf => rfl
  | node op left right ih _ => cases op <;> simp [map, isPlainProduct, ih]

theorem isSafe_map (t : Arithmetic α) : (t.map f).isSafe = t.isSafe := by
  induction t with
  | leaf => rfl
  | node op left right first second => cases op <;> simp [map, isSafe, first, second, isPlainProduct_map]

end Map

section Value

variable {op : ArithmeticOp} {front t left right : Arithmetic Int} {a b : Int}

theorem value_node : (node op left right).value = left.value.bind fun a => right.value.bind (op.apply a) := rfl

theorem value_node_of_values (first : left.value = some a) (second : right.value = some b) :
    (node op left right).value = op.apply a b := by
  rw [value_node, first, second]
  rfl

/-- An addition goes on with sums and differences as if they were in brackets. -/
theorem value_graft_plus : (graft .plus front t).value = (node .plus front t).value := by
  induction t with
  | leaf => rfl
  | node op left right ih _ =>
    rw [graft]
    split
    next level =>
      rw [value_node, ih, value_node, value_node, value_node]
      cases front.value <;> cases left.value <;> cases right.value <;> try rfl
      cases op with
      | plus => exact congrArg some (Int.add_assoc ..)
      | minus => exact congrArg some (Int.add_sub_assoc ..)
      | times | divide | remainder => exact absurd level (by decide)
    next => rfl

/-- A multiplication goes on with products as if they were in brackets. -/
theorem value_graft_times (plain : t.isPlainProduct) : (graft .times front t).value = (node .times front t).value := by
  induction t with
  | leaf => rfl
  | node op left right ih _ =>
    rw [graft]
    split
    next level =>
      cases op with
      | times =>
        rw [value_node, ih plain, value_node, value_node, value_node]
        cases front.value <;> cases left.value <;> cases right.value <;> try rfl
        exact congrArg some (Int.mul_assoc ..)
      | divide | remainder => exact absurd plain (by simp [isPlainProduct])
      | plus | minus => exact absurd level (by decide)
    next => rfl

end Value

theorem isPlainProduct_graft {front : Arithmetic α} (first : front.isPlainProduct) (second : t.isPlainProduct) :
    (graft .times front t).isPlainProduct := by
  induction t with
  | leaf => exact first
  | node op left right ih _ =>
    rw [graft]
    split
    next level =>
      cases op with
      | times => exact ih second
      | divide | remainder => exact absurd second (by simp [isPlainProduct])
      | plus | minus => exact absurd level (by decide)
    next => exact first

theorem precedence_graft (op : ArithmeticOp) (front t : Arithmetic α) :
    (graft op front t).precedence = op.precedence := by
  cases t with
  | leaf => rfl
  | node =>
    rw [graft]
    split
    next level => exact level
    next => rfl

theorem precedence_regrouped (t : Arithmetic α) : t.regrouped.precedence = t.precedence := by
  cases t with
  | leaf => rfl
  | node =>
    rw [regrouped]
    split
    · exact precedence_graft ..
    · rfl

theorem isPlainProduct_of_precedence (level : t.precedence ≠ 7) : t.isPlainProduct := by
  cases t with
  | leaf => rfl
  | node op left right =>
    cases op with
    | plus | minus => rfl
    | times | divide | remainder => exact absurd rfl level

theorem isPlainProduct_regrouped (safe : t.isSafe) (plain : t.isPlainProduct) : t.regrouped.isPlainProduct := by
  induction t with
  | leaf => rfl
  | node op left right first second =>
    cases op with
    | times =>
      simp only [isSafe, Bool.and_eq_true] at safe
      exact isPlainProduct_graft (first safe.1.1 plain) (second safe.1.2 safe.2)
    | divide | remainder => exact plain
    | plus | minus =>
      apply isPlainProduct_of_precedence
      rw [precedence_regrouped]
      exact Nat.ne_of_beq_eq_false rfl

theorem value_regrouped {t : Arithmetic Int} (safe : t.isSafe) : t.regrouped.value = t.value := by
  induction t with
  | leaf => rfl
  | node op left right first second =>
    have safeLeft : left.isSafe := by cases op <;> simp_all [isSafe]
    have safeRight : right.isSafe := by cases op <;> simp_all [isSafe]
    have grouped : (node op left.regrouped right.regrouped).value = (node op left right).value := by
      rw [value_node, value_node, first safeLeft, second safeRight]
    cases op with
    | plus => exact value_graft_plus.trans grouped
    | times =>
      simp only [isSafe, Bool.and_eq_true] at safe
      exact (value_graft_times (isPlainProduct_regrouped safeRight safe.2)).trans grouped
    | minus | divide | remainder => exact grouped

/-! ### Terms that are not safe

Leaves are numbered so that the two readings of an unsafe term are far apart. A term that only stands beside the unsafe
one gets numbers with which it is worth what that place needs, in either reading.
-/

/-- A number times a term that goes on from it. -/
def continued (b : Int) (t : Arithmetic Int) : Option Int := (graft .times (leaf b) t).value

section Continued

variable {front t left right : Arithmetic Int} {a b c m : Int}

theorem value_graft_of_value (worth : front.value = some b) : (graft .times front t).value = continued b t := by
  have same : front.value = (leaf b).value := worth
  rw [continued]
  induction t with
  | leaf => rw [graft, graft, value_node, value_node, same]
  | node op left right ih _ =>
    rw [graft, graft]
    split
    · rw [value_node, value_node, ih]
    · rw [value_node, same]
      rfl

theorem graft_graft (op : ArithmeticOp) (front middle t : Arithmetic α) :
    graft op (graft op front middle) t = graft op front (graft op middle t) := by
  induction t with
  | leaf => rw [graft, graft, graft, if_pos rfl]
  | node op' left right ih _ =>
    simp only [graft]
    split
    next level => rw [graft, if_pos level, ih]
    next => rw [graft, if_pos rfl]

theorem continued_one (t : Arithmetic Int) : continued 1 t = t.value := by
  induction t with
  | leaf a => exact congrArg some (Int.one_mul a)
  | node op left right ih _ =>
    rw [continued, graft]
    split
    · rw [value_node, value_node, ← ih, continued]
    · rw [value_node]
      cases (node op left right).value with
      | none => rfl
      | some a => exact congrArg some (Int.one_mul a)

theorem continued_of_precedence (level : t.precedence ≠ 7) (worth : t.value = some a) :
    continued b t = some (b * a) := by
  rw [continued, value_graft_times (isPlainProduct_of_precedence level)]
  exact value_node_of_values rfl worth

theorem continued_times (first : continued b left.regrouped = some c) :
    continued b (node .times left right).regrouped = continued c right.regrouped := by
  have grouped : (node .times left right).regrouped = graft .times left.regrouped right.regrouped := rfl
  rw [grouped, continued, ← graft_graft]
  exact value_graft_of_value first

theorem continued_quotient {op : ArithmeticOp} (kind : op = .divide ∨ op = .remainder)
    (first : continued b left.regrouped = some c) (second : right.regrouped.value = some m) :
    continued b (node op left right).regrouped = op.apply c m := by
  obtain rfl | rfl := kind <;> exact value_node_of_values first second

end Continued

/-- A term of numbers. -/
def numbers (t : Arithmetic Nat) : Arithmetic Int := t.map Int.ofNat

/-- Numbers with which a term is worth a given one; remainders are by more than the bound. -/
def fill : Nat → Nat → Arithmetic Unit → Arithmetic Nat
  | _, n, leaf _ => leaf n
  | bound, n, node .plus left right => node .plus (fill bound n left) (fill bound 0 right)
  | bound, n, node .minus left right => node .minus (fill bound n left) (fill bound 0 right)
  | bound, n, node .times left right => node .times (fill bound 1 left) (fill bound n right)
  | bound, n, node .divide left right => node .divide (fill bound n left) (fill bound 1 right)
  | bound, n, node .remainder left right => node .remainder (fill bound n left) (fill (bound + 1) (bound + 1) right)

theorem shape_fill (bound n : Nat) (s : Arithmetic Unit) : (fill bound n s).shape = s := by
  induction s generalizing bound n with
  | leaf => rfl
  | node op left right first second =>
    cases op <;> exact congrArg₂ (node _) (first ..) (second ..)

section Numbers

variable {op : ArithmeticOp} {left right t : Arithmetic Nat} {a b c bound n : Nat}

theorem numbers_node : (node op left right).numbers = node op left.numbers right.numbers := rfl

theorem value_numbers_node (first : left.numbers.value = some (a : Int)) (second : right.numbers.value = some (b : Int))
    (computes : op.Computes a b c) : (node op left right).numbers.value = some (c : Int) := by
  rw [numbers_node, value_node_of_values first second, ArithmeticOp.apply_of_computes computes]

/-- Only a product has a value that its operands' values do not tell. -/
theorem value_regrouped_node (other : op ≠ .times) (first : left.numbers.regrouped.value = some (a : Int))
    (second : right.numbers.regrouped.value = some (b : Int)) (computes : op.Computes a b c) :
    (node op left right).numbers.regrouped.value = some (c : Int) := by
  have grouped := (value_node_of_values first second).trans (ArithmeticOp.apply_of_computes computes)
  cases op with
  | plus => exact value_graft_plus.trans grouped
  | minus | divide | remainder => exact grouped
  | times => exact absurd rfl other

/-- The term is worth the number in either reading, also as a factor as far as the bound goes. -/
structure Worth (bound n : Nat) (t : Arithmetic Nat) : Prop where
  value : t.numbers.value = some (n : Int)
  continued : ∀ b : Nat, b ≤ bound → b * n ≤ bound → continued b t.numbers.regrouped = some ((b * n : Nat) : Int)

theorem Worth.regrouped (worth : t.Worth bound n) (positive : 1 ≤ bound) (small : n ≤ bound) :
    t.numbers.regrouped.value = some (n : Int) := by
  rw [← continued_one]
  exact (worth.continued 1 positive (by omega)).trans (by rw [Nat.one_mul])

theorem Worth.sum (kind : op = .plus ∨ op = .minus) (positive : 1 ≤ bound) (small : n ≤ bound)
    (first : left.Worth bound n) (second : right.Worth bound 0) : (node op left right).Worth bound n := by
  have computes : op.Computes n 0 n := by obtain rfl | rfl := kind <;> simp [ArithmeticOp.Computes]
  have same : (node op left right).numbers.regrouped.value = some (n : Int) :=
    value_regrouped_node (by obtain rfl | rfl := kind <;> decide) (first.regrouped positive small)
      (second.regrouped positive (Nat.zero_le bound)) computes
  refine ⟨value_numbers_node first.value second.value computes, fun b _ _ => ?_⟩
  have level : (node op left right).numbers.regrouped.precedence ≠ 7 := by
    rw [precedence_regrouped]
    obtain rfl | rfl := kind <;> exact Nat.ne_of_beq_eq_false rfl
  rw [continued_of_precedence level same, Int.natCast_mul]

theorem Worth.product (first : left.Worth bound 1) (second : right.Worth bound n) :
    (node .times left right).Worth bound n := by
  refine ⟨value_numbers_node first.value second.value (Nat.one_mul n), fun b small smallProduct => ?_⟩
  have unit := first.continued b small (by omega)
  rw [Nat.mul_one] at unit
  exact (continued_times unit).trans (second.continued b small smallProduct)

theorem Worth.quotient {m : Nat} (kind : op = .divide ∨ op = .remainder) (small : n ≤ bound)
    (first : left.Worth bound n) (second : right.numbers.value = some (m : Int))
    (third : right.numbers.regrouped.value = some (m : Int)) (neutral : ∀ k ≤ bound, op.Computes k m k) :
    (node op left right).Worth bound n := by
  refine ⟨value_numbers_node first.value second (neutral n small), fun b smallFactor smallProduct => ?_⟩
  rw [numbers_node, continued_quotient kind (first.continued b smallFactor smallProduct) third]
  exact ArithmeticOp.apply_of_computes (neutral _ smallProduct)

theorem worth_fill (s : Arithmetic Unit) (positive : 1 ≤ bound) (small : n ≤ bound) :
    (fill bound n s).Worth bound n := by
  induction s generalizing bound n with
  | leaf => exact ⟨rfl, fun b _ _ => rfl⟩
  | node op left right first second =>
    cases op with
    | plus => exact .sum (.inl rfl) positive small (first positive small) (second positive (Nat.zero_le bound))
    | minus => exact .sum (.inr rfl) positive small (first positive small) (second positive (Nat.zero_le bound))
    | times => exact .product (first positive positive) (second positive small)
    | divide =>
      have one := second positive positive
      exact .quotient (.inl rfl) small (first positive small) one.value (one.regrouped positive positive)
        fun k _ => ⟨Nat.one_pos, Nat.div_one k⟩
    | remainder =>
      have modulus : (fill (bound + 1) (bound + 1) right).Worth (bound + 1) (bound + 1) :=
        second (Nat.le_add_left ..) (Nat.le_refl _)
      exact .quotient (.inr rfl) small (first positive small) modulus.value
        (modulus.regrouped (Nat.le_add_left ..) (Nat.le_refl _))
        fun k below => ⟨Nat.succ_pos _, Nat.mod_eq_of_lt (Nat.lt_succ_of_le below)⟩

end Numbers

/-- Both numbers are above the bound, and further apart than it. -/
def Apart (bound a b : Nat) : Prop := bound < a ∧ bound < b ∧ (a + bound < b ∨ b + bound < a)

/-- Numbers for the leaves put the two readings of the term apart. -/
def Diverges (bound : Nat) (s : Arithmetic Unit) : Prop :=
  ∃ (t : Arithmetic Nat) (a b : Nat), t.shape = s ∧ t.numbers.value = some (a : Int) ∧
    t.numbers.regrouped.value = some (b : Int) ∧ Apart bound a b

section Diverges

variable {op : ArithmeticOp} {t : Arithmetic Nat} {a b a' b' bound : Nat}

/-- A product that goes on with a division or a remainder has a factor to go on from that tells. -/
theorem exists_factor {s : Arithmetic Unit} (mixed : s.isPlainProduct = false) (bound : Nat) :
    ∃ (t : Arithmetic Nat) (factor a b : Nat), t.shape = s ∧ t.numbers.value = some (a : Int) ∧
      continued factor t.numbers.regrouped = some (b : Int) ∧ Apart bound (factor * a) b := by
  -- Along the left end of the product, down to the first operator that is no multiplication.
  induction s with
  | leaf => cases mixed
  | node op left right ih _ =>
    cases op with
    | plus | minus => cases mixed
    | times =>
      obtain ⟨t, factor, a, b, shape, worth, goesOn, apart⟩ := ih mixed
      have one : (fill (b + 1) 1 right).Worth (b + 1) 1 := worth_fill right (by omega) (by omega)
      refine ⟨node .times t (fill (b + 1) 1 right), factor, a, b, congrArg₂ (node _) shape (shape_fill ..),
        value_numbers_node worth one.value (Nat.mul_one a), ?_, apart⟩
      have last := one.continued b (by omega) (by omega)
      rw [Nat.mul_one] at last
      exact (continued_times goesOn).trans last
    | divide =>
      -- 2k * (3 / 2) = 2k and 2k * 3 / 2 = 3k.
      have three : (fill (6 * bound + 6) 3 left).Worth (6 * bound + 6) 3 := worth_fill left (by omega) (by omega)
      have two : (fill 2 2 right).Worth 2 2 := worth_fill right (by omega) (by omega)
      refine ⟨node .divide (fill (6 * bound + 6) 3 left) (fill 2 2 right), 2 * bound + 2, 1, 3 * bound + 3,
        congrArg₂ (node _) (shape_fill ..) (shape_fill ..),
        value_numbers_node three.value two.value ⟨by decide, by decide⟩, ?_, ?_⟩
      · rw [numbers_node, continued_quotient (.inl rfl) (three.continued _ (by omega) (by omega))
          (two.regrouped (by omega) (by omega))]
        exact ArithmeticOp.apply_of_computes ⟨by omega, by omega⟩
      · exact ⟨by omega, by omega, by omega⟩
    | remainder =>
      -- 2 * (2k % 3k) = 4k and 2 * 2k % 3k = k.
      have double : (fill (4 * bound + 4) (2 * bound + 2) left).Worth (4 * bound + 4) (2 * bound + 2) :=
        worth_fill left (by omega) (by omega)
      have triple : (fill (3 * bound + 3) (3 * bound + 3) right).Worth (3 * bound + 3) (3 * bound + 3) :=
        worth_fill right (by omega) (by omega)
      refine ⟨node .remainder (fill (4 * bound + 4) (2 * bound + 2) left) (fill (3 * bound + 3) (3 * bound + 3) right),
        2, 2 * bound + 2, bound + 1, congrArg₂ (node _) (shape_fill ..) (shape_fill ..),
        value_numbers_node double.value triple.value ⟨by omega, Nat.mod_eq_of_lt (by omega)⟩, ?_, ?_⟩
      · rw [numbers_node, continued_quotient (.inr rfl) (double.continued _ (by omega) (by omega))
          (triple.regrouped (by omega) (by omega))]
        refine ArithmeticOp.apply_of_computes ⟨by omega, ?_⟩
        rw [Nat.mod_eq_sub_mod (by omega), Nat.mod_eq_of_lt (by omega)]
        omega
      · exact ⟨by omega, by omega, by omega⟩

variable {s : Arithmetic Unit}

theorem Diverges.nodeLeft (other : op ≠ .times) (n : Nat) (right : Arithmetic Unit) (shape : t.shape = s)
    (first : t.numbers.value = some (a : Int)) (second : t.numbers.regrouped.value = some (b : Int))
    (computes : op.Computes a n a') (computes' : op.Computes b n b') (apart : Apart bound a' b') :
    Diverges bound (node op s right) := by
  have filled : (fill (n + 1) n right).Worth (n + 1) n := worth_fill right (by omega) (by omega)
  exact ⟨node op t (fill (n + 1) n right), a', b', congrArg₂ (node _) shape (shape_fill ..),
    value_numbers_node first filled.value computes,
    value_regrouped_node other second (filled.regrouped (by omega) (by omega)) computes', apart⟩

theorem Diverges.nodeRight (other : op ≠ .times) (n : Nat) (left : Arithmetic Unit) (shape : t.shape = s)
    (first : t.numbers.value = some (a : Int)) (second : t.numbers.regrouped.value = some (b : Int))
    (computes : op.Computes n a a') (computes' : op.Computes n b b') (apart : Apart bound a' b') :
    Diverges bound (node op left s) := by
  have filled : (fill (n + 1) n left).Worth (n + 1) n := worth_fill left (by omega) (by omega)
  exact ⟨node op (fill (n + 1) n left) t, a', b', congrArg₂ (node _) (shape_fill ..) shape,
    value_numbers_node filled.value first computes,
    value_regrouped_node other (filled.regrouped (by omega) (by omega)) second computes', apart⟩

theorem Diverges.left (diverges : ∀ bound, Diverges bound s) (op : ArithmeticOp) (right : Arithmetic Unit)
    (bound : Nat) : Diverges bound (node op s right) := by
  obtain ⟨t, a, b, shape, first, second, apart⟩ := diverges bound
  cases op with
  | plus => exact nodeLeft (by decide) 0 right shape first second (Nat.add_zero a) (Nat.add_zero b) apart
  | minus => exact nodeLeft (by decide) 0 right shape first second (Nat.zero_add a) (Nat.zero_add b) apart
  | times =>
    have one : (fill (b + 1) 1 right).Worth (b + 1) 1 := worth_fill right (by omega) (by omega)
    have last := one.continued b (by omega) (by omega)
    rw [Nat.mul_one] at last
    exact ⟨node .times t (fill (b + 1) 1 right), a, b, congrArg₂ (node _) shape (shape_fill ..),
      value_numbers_node first one.value (Nat.mul_one a), (value_graft_of_value second).trans last, apart⟩
  | divide =>
    exact nodeLeft (by decide) 1 right shape first second ⟨Nat.one_pos, Nat.div_one a⟩ ⟨Nat.one_pos, Nat.div_one b⟩
      apart
  | remainder =>
    exact nodeLeft (by decide) (a + b + 1) right shape first second ⟨by omega, Nat.mod_eq_of_lt (by omega)⟩
      ⟨by omega, Nat.mod_eq_of_lt (by omega)⟩ apart

theorem Diverges.right (diverges : ∀ bound, Diverges bound s) (op : ArithmeticOp) (left : Arithmetic Unit)
    (bound : Nat) : Diverges bound (node op left s) := by
  -- A remainder by the two numbers brings them nearer, by one.
  obtain ⟨t, a, b, shape, first, second, above, above', between⟩ := diverges (bound + 1)
  have apart : Apart bound a b := ⟨by omega, by omega, by omega⟩
  cases op with
  | plus => exact nodeRight (by decide) 0 left shape first second (Nat.zero_add a) (Nat.zero_add b) apart
  | minus =>
    have rest : ArithmeticOp.minus.Computes (a + b + bound + 1) a (b + bound + 1) := by
      simp only [ArithmeticOp.Computes]
      omega
    have rest' : ArithmeticOp.minus.Computes (a + b + bound + 1) b (a + bound + 1) := by
      simp only [ArithmeticOp.Computes]
      omega
    exact nodeRight (by decide) _ left shape first second rest rest' ⟨by omega, by omega, by omega⟩
  | times =>
    have one : (fill 1 1 left).Worth 1 1 := worth_fill left (by omega) (by omega)
    refine ⟨node .times (fill 1 1 left) t, a, b, congrArg₂ (node _) (shape_fill ..) shape,
      value_numbers_node one.value first (Nat.one_mul a), ?_, apart⟩
    refine (value_graft_of_value (one.regrouped (by omega) (by omega))).trans ?_
    exact (continued_one _).trans second
  | divide =>
    exact nodeRight (by decide) (a * b) left shape first second ⟨by omega, Nat.mul_div_cancel_left b (by omega)⟩
      ⟨by omega, Nat.mul_div_cancel a (by omega)⟩ ⟨by omega, by omega, by omega⟩
  | remainder =>
    have small {k : Nat} (greater : bound + 1 < k) : (k + (bound + 1)) % k = bound + 1 := by
      rw [Nat.add_mod_left, Nat.mod_eq_of_lt greater]
    obtain between | between := between
    · exact nodeRight (by decide) (a + (bound + 1)) left shape first second ⟨by omega, small above⟩
        ⟨by omega, Nat.mod_eq_of_lt between⟩ ⟨by omega, by omega, by omega⟩
    · exact nodeRight (by decide) (b + (bound + 1)) left shape first second ⟨by omega, Nat.mod_eq_of_lt between⟩
        ⟨by omega, small above'⟩ ⟨by omega, by omega, by omega⟩

/-- A term that is not safe has two readings with different values. -/
theorem diverges_of_not_safe (notSafe : s.isSafe = false) (bound : Nat) : Diverges bound s := by
  induction s generalizing bound with
  | leaf => cases notSafe
  | node op left right first second =>
    cases safeLeft : left.isSafe with
    | false => exact .left (first safeLeft) op right bound
    | true =>
      cases safeRight : right.isSafe with
      | false => exact .right (second safeRight) op left bound
      | true =>
        cases op with
        | times =>
          have mixed : right.isPlainProduct = false := by simpa [isSafe, safeLeft, safeRight] using notSafe
          obtain ⟨t, factor, a, b, shape, worth, goesOn, apart⟩ := exists_factor mixed bound
          have front : (fill (factor + 1) factor left).Worth (factor + 1) factor :=
            worth_fill left (by omega) (by omega)
          exact ⟨node .times (fill (factor + 1) factor left) t, factor * a, b,
            congrArg₂ (node _) (shape_fill ..) shape, value_numbers_node front.value worth rfl,
            (value_graft_of_value (front.regrouped (by omega) (by omega))).trans goesOn, apart⟩
        | plus | minus | divide | remainder => simp [isSafe, safeLeft, safeRight] at notSafe

end Diverges

end Arithmetic

end FederatedQuery.Sql
