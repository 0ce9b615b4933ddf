import FederatedQuery.Double.Arithmetic
import FederatedQuery.Value.Checked
import FederatedQuery.Value.Key

/-!
Grouping and aggregation. Groups come in the order of their first rows. Rows in which an argument is
null are skipped. Without group keys there is always one group.
-/
namespace FederatedQuery.Rows

inductive Accumulator where
  | count (n : Int64)
  | sum (total : Option Value)
  | min (least : Option Value)
  | max (greatest : Option Value)
  | avg (total : Double) (n : Nat)

def Accumulator.start : AggFunction → Accumulator
  | .count => .count 0
  | .sum => .sum none
  | .min => .min none
  | .max => .max none
  | .avg => .avg (Double.zero false) 0

def addValues : Value → Value → Except Error Value
  | .int a, .int b => match int64? (a.toInt + b.toInt) with
    | some i => .ok (.int i)
    | none => .error (.eval .sumOverflow)
  | a, b => match a.double?, b.double? with
    | some x, some y => .ok (.float (x.add y))
    | _, _ => .error (.eval (.sumOperand b))

namespace Accumulator

def add (v : Value) : Accumulator → Except Error Accumulator
  | count n => .ok (count (n + 1))
  | sum none => .ok (sum (some v))
  | sum (some total) => do return sum (some (← addValues total v))
  | min least => .ok (min (if least.all fun m => v.compare m = .lt then some v else least))
  | max greatest => .ok (max (if greatest.all fun m => v.compare m = .gt then some v else greatest))
  | avg total n => match v.double? with
    | some x => .ok (avg (total.add x) (n + 1))
    | none => .error (.eval (.averageOperand v))

/-- Takes a row without an argument; only a count notices. -/
def addRow : Accumulator → Accumulator
  | count n => count (n + 1)
  | acc => acc

def result : Accumulator → Value
  | count n => .int n
  | sum v | min v | max v => v.getD .null
  | avg total n => if n = 0 then .null else .float (total.div (Double.ofInt n))

end Accumulator

/-- A call on the rows of one group so far. A distinct call keeps the arguments it has seen. -/
structure CallState where
  acc : Accumulator
  seen : List Row

def CallState.start (call : AggCall) : CallState := ⟨.start call.function, []⟩

def argument (row : Row) (index : Nat) : Except Error Value :=
  match row[index]? with
  | some v => .ok v
  | none => .error (.contract (.rowArgument index))

def CallState.add (s : CallState) (call : AggCall) (row : Row) : Except Error CallState := do
  let args ← call.args.mapM (argument row)
  if args.any Value.isNull then return s
  else if call.distinct && s.seen.any (Row.sameKey args) then return s
  else
    let acc ← match args with
      | [] => pure s.acc.addRow
      | v :: _ => s.acc.add v
    return ⟨acc, if call.distinct then s.seen ++ [args] else s.seen⟩

def addToCalls (row : Row) : List (AggCall × CallState) → Except Error (List (AggCall × CallState))
  | [] => .ok []
  | (call, s) :: rest => do
    let s ← s.add call row
    return (call, s) :: (← addToCalls row rest)

structure Group where
  key : Row
  calls : List (AggCall × CallState)

def Group.start (calls : List AggCall) (key : Row) : Group :=
  ⟨key, calls.map fun call => (call, .start call)⟩

def Group.add (g : Group) (row : Row) : Except Error Group := do
  return { g with calls := ← addToCalls row g.calls }

/-- Feeds a row to the group of its key, which is made when there is none. -/
def addToGroups (calls : List AggCall) (key row : Row) : List Group → Except Error (List Group)
  | [] => do return [← (Group.start calls key).add row]
  | g :: rest =>
    if Row.sameKey key g.key then do return (← g.add row) :: rest
    else do return g :: (← addToGroups calls key row rest)

def groupKeyOf (row : Row) (index : Nat) : Except Error Value :=
  match row[index]? with
  | some v => .ok v
  | none => .error (.contract (.rowGroupKey index))

def Group.result (g : Group) : Row := g.key ++ g.calls.map fun (_, s) => s.acc.result

def aggregate (group : List Nat) (calls : List AggCall) (rows : List Row) : Except Error (List Row) := do
  let groups ← rows.foldlM (fun groups row => do
    addToGroups calls (← group.mapM (groupKeyOf row)) row groups) []
  let groups := if groups.isEmpty && group.isEmpty then [Group.start calls []] else groups
  return groups.map Group.result

end FederatedQuery.Rows
