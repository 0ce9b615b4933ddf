import FederatedQuery.Double.Arithmetic
import FederatedQuery.Text.Casing
import FederatedQuery.Value.Cast

/-!
Evaluation of expressions on a row. Conjunctions and disjunctions stop at the first operand that
decides them; every other operator but case and coalesce evaluates all operands first.
-/
namespace FederatedQuery

namespace Op

/-- Whether the outcome of a comparison satisfies an operator. -/
def holds (op : Op) (o : Ordering) : Bool :=
  match op with
  | .eq => o == .eq
  | .ne => o != .eq
  | .lt => o == .lt
  | .le => o != .gt
  | .gt => o == .gt
  | _ => o != .lt

/-- Integer arithmetic; division truncates. Nothing when the result, or the quotient behind a
remainder, does not fit. -/
def integerResult? (op : Op) (a b : Int) : Option Int64 :=
  match op with
  | .plus => int64? (a + b)
  | .minus => int64? (a - b)
  | .times => int64? (a * b)
  | .divide => int64? (a.tdiv b)
  | _ => (int64? (a.tdiv b)).bind fun _ => int64? (a.tmod b)

def doubleResult (op : Op) (a b : Double) : Double :=
  match op with
  | .plus => a.add b
  | .minus => a.sub b
  | .times => a.mul b
  | .divide => a.div b
  | _ => a.rem b

def arithmetic (op : Op) : Value → Value → Except Error Value
  | .int a, .int b =>
    if (op = .divide ∨ op = .mod) ∧ b = 0 then .error (.eval .divisionByZero)
    else match op.integerResult? a.toInt b.toInt with
      | some i => .ok (.int i)
      | none => .error (.eval (.overflow op))
  | a, b => match a.double?, b.double? with
    | some x, some y => .ok (.float (op.doubleResult x y))
    | _, _ => .error (.eval (.notNumeric op a b))

def negateValue : Value → Except Error Value
  | .int i => match int64? (-i.toInt) with
    | some i => .ok (.int i)
    | none => .error (.eval .negationOverflow)
  | .float x => .ok (.float x.negate)
  | other => .error (.eval (.notNegatable other))

def string (op : Op) : Value → Except Error String
  | .string s => .ok s
  | other => .error (.eval (.notString op other))

def concatenation (op : Op) : List Value → Except Error String
  | [] => .ok ""
  | v :: rest => do
    let s ← op.string v
    return s ++ (← concatenation op rest)

/-- The items from place `lo` up to and without place `hi`, when these are places of the list. -/
def slice? (items : List Char) (lo hi : Nat) : Option (List Char) :=
  if lo ≤ hi ∧ hi ≤ items.length then some ((items.take hi).drop lo) else none

/-- The first position behind a substring, as far as it fits. -/
def substringEnd (start : Int64) : Option Int64 → Int64
  | some n => saturatingSum start n
  | none => Int64.maxValue

/-- The characters from position `start`, the first being one, and at most `length` of them. Positions
before the first count towards the length. Every step is on sixty-four bits: nothing when a number does
not fit, or a place is not in the text. -/
def substring? (text : List Char) (start : Int64) (length : Option Int64) : Option (List Char) :=
  let stop := substringEnd start length
  let first := max start 1
  if stop ≤ first then some []
  else do
    let before ← natural? (← int64? (first.toInt - 1))
    let last ← int64? (stop.toInt - 1)
    let size ← int64? text.length
    let hi ← natural? (min last size)
    let lo := min before text.length
    slice? text lo (max hi lo)

def substringResult : Option (List Char) → Except Error Value
  | some text => .ok (.string (String.ofList text))
  | none => .error (.eval (.overflow .substring))

def substringValue : List Value → Except Error Value
  | [.string s, .int start] => substringResult (substring? s.toList start none)
  | [.string s, .int start, .int n] =>
    if n.toInt < 0 then .error (.eval .negativeLength)
    else substringResult (substring? s.toList start (some n))
  | _ => .error (.eval .substringOperands)

def itemValue : Value → Value → Except Error Value
  | .array items, .int i =>
    .ok (if 1 ≤ i.toInt then (items[i.toInt.toNat - 1]?).getD .null else .null)
  | .null, _ | _, .null => .ok .null
  | a, i => .error (.eval (.notIndexable a i))

def unwindValue : Value → Except Error Value
  | .null => .ok .null
  | .array items => .ok (.array items)
  | other => .error (.eval (.notUnwindable other))

def applyStrict (op : Op) (args : List Value) (ty : SqlType) : Except Error Value :=
  match op, args with
  | .eq, [a, b] | .ne, [a, b] | .lt, [a, b] | .le, [a, b] | .gt, [a, b] | .ge, [a, b] => do
    return Truth.toValue ((← a.sqlCompare b).map op.holds)
  | .not, [v] => do return Truth.toValue ((← v.truth).map (!·))
  | .plus, [a, b] | .minus, [a, b] | .times, [a, b] | .divide, [a, b] | .mod, [a, b] =>
    op.arithmetic a b
  | .negate, [v] => negateValue v
  | .concat, args => do return .string (← op.concatenation args)
  | .upper, [v] => do return .string (Text.upper (← op.string v))
  | .lower, [v] => do return .string (Text.lower (← op.string v))
  | .charLength, [v] => do return .int (Int64.ofNat (← op.string v).length)
  | .substring, args => substringValue args
  | .cast, [v] => v.cast ty
  | op, args => match op with
    | .eq | .ne | .lt | .le | .gt | .ge | .plus | .minus | .times | .divide | .mod =>
      .error (.contract (.operandCount op 2 args.length))
    | .not | .negate | .upper | .lower | .charLength | .cast =>
      .error (.contract (.operandCount op 1 args.length))
    | _ => .error (.contract (.notEvaluable op))

def applyValues (op : Op) (args : List Value) (ty : SqlType) : Except Error Value :=
  match op, args with
  | .isNull, [v] => .ok (.bool v.isNull)
  | .isNotNull, [v] => .ok (.bool (!v.isNull))
  | .isTrue, [v] => do return .bool ((← v.truth) == some true)
  | .isFalse, [v] => do return .bool ((← v.truth) == some false)
  | .unwind, [v] => unwindValue v
  | .item, [a, i] => itemValue a i
  | .arrayValue, items => .ok (.array items)
  | op, args => match op with
    | .isNull | .isNotNull | .isTrue | .isFalse | .unwind =>
      .error (.contract (.operandCount op 1 args.length))
    | .item => .error (.contract (.operandCount op 2 args.length))
    | _ => if args.any Value.isNull then .ok .null else op.applyStrict args ty

end Op

namespace Expr

def field (row : Row) (index : Nat) : Except Error Value :=
  match row[index]? with
  | some v => .ok v
  | none => .error (.contract (.fieldOutsideRow index row.length))

def binding (params : Bindings) (index : Nat) : Except Error Value :=
  match params index with
  | some v => .ok v
  | none => .error (.unboundParameter index)

mutual

def eval (row : Row) (params : Bindings) : Expr → Except Error Value
  | ref index _ _ => field row index
  | lit v => .ok v
  | param index _ => binding params index
  | call op operands ty => match op with
    | .and => do return (← evalAnd row params operands).toValue
    | .or => do return (← evalOr row params operands).toValue
    | .case => evalCase row params operands
    | .coalesce => evalCoalesce row params operands
    | _ => do op.applyValues (← evalAll row params operands) ty

def evalAll (row : Row) (params : Bindings) : List Expr → Except Error (List Value)
  | [] => .ok []
  | e :: rest => do
    let v ← e.eval row params
    return v :: (← evalAll row params rest)

def evalAnd (row : Row) (params : Bindings) : List Expr → Except Error Truth
  | [] => .ok (some true)
  | e :: rest => do
    match ← (← e.eval row params).truth with
    | some false => return some false
    | t => return t.and (← evalAnd row params rest)

def evalOr (row : Row) (params : Bindings) : List Expr → Except Error Truth
  | [] => .ok (some false)
  | e :: rest => do
    match ← (← e.eval row params).truth with
    | some true => return some true
    | t => return t.or (← evalOr row params rest)

def evalCase (row : Row) (params : Bindings) : List Expr → Except Error Value
  | [] => .ok .null
  | [otherwise] => otherwise.eval row params
  | condition :: result :: rest => do
    match ← (← condition.eval row params).truth with
    | some true => result.eval row params
    | _ => evalCase row params rest

def evalCoalesce (row : Row) (params : Bindings) : List Expr → Except Error Value
  | [] => .ok .null
  | e :: rest => do
    let v ← e.eval row params
    if v.isNull then evalCoalesce row params rest else return v

end

/-- Evaluates a condition; unknown counts as false. -/
def test (row : Row) (params : Bindings) (condition : Expr) : Except Error Bool := do
  return (← (← condition.eval row params).truth).getD false

end Expr

end FederatedQuery
