import FederatedQuery.Proofs.Rows.Bags

/-!
Aggregation as it is defined: the distinct keys in the order in which they first appear, for each of them the rows that
have it, and every call on the arguments that it takes from these rows. Feeding the rows one at a time to all groups
comes to the same, and fails only where a sum or a mean does.
-/
namespace FederatedQuery.Rows

/-- The values of a row at some places. -/
def fieldsAt (places : List Nat) (row : Row) : Row := places.map fun i => row.getD i .null

/-- The distinct keys, in the order of their first rows. Without group fields there is always one. -/
def keysOf (group : List Nat) (rows : List Row) : List Row :=
  if group.isEmpty then [[]] else (rows.map (fieldsAt group)).eraseDupsBy Row.equal

def membersOf (group : List Nat) (rows : List Row) (key : Row) : List Row :=
  rows.filter fun row => (fieldsAt group row).equal key

/-- The arguments of a call in the rows where none of them is null. -/
def presentArguments (call : AggCall) (members : List Row) : List Row :=
  (members.map (fieldsAt call.args)).filter fun args => !args.any Value.isNull

/-- The arguments that a call is on; for a distinct call those that come first. -/
def argumentsOf (call : AggCall) (members : List Row) : List Row :=
  if call.distinct then (presentArguments call members).eraseDupsBy Row.equal else presentArguments call members

def sumOf : List Value → Except Error Value
  | [] => .ok .null
  | v :: rest => rest.foldlM addValues v

/-- The value that no later one precedes, or follows. -/
def extremeOf (wanted : Ordering) : List Value → Value
  | [] => .null
  | v :: rest => rest.foldl (fun best v => if v.compare best = wanted then v else best) v

def addNumber (total : Double) (v : Value) : Except Error Double :=
  match v.double? with
  | some x => .ok (total.add x)
  | none => .error (.eval (.averageOperand v))

def meanOf (values : List Value) : Except Error Value := do
  let total ← values.foldlM addNumber (Double.zero false)
  return if values.isEmpty then .null else .float (total.div (Double.ofInt values.length))

def firsts (args : List Row) : List Value := args.filterMap List.head?

/-- An aggregate function of the arguments in some rows. All but a count are on the first argument. -/
def valueOf : AggFunction → List Row → Except Error Value
  | .count, args => .ok (.int (Int64.ofNat args.length))
  | .sum, args => sumOf (firsts args)
  | .min, args => .ok (extremeOf .lt (firsts args))
  | .max, args => .ok (extremeOf .gt (firsts args))
  | .avg, args => meanOf (firsts args)

def aggregateGroups (group : List Nat) (calls : List AggCall) (rows : List Row) : Except Error (List Row) :=
  (keysOf group rows).mapM fun key => do
    return key ++ (← calls.mapM fun call => valueOf call.function (argumentsOf call (membersOf group rows key)))

section Calls

variable {call : AggCall} {members : List Row} {args : List Row} {α β ε : Type} {row : Row}

theorem foldlM_wrap {γ : Type} (wrap : β → γ) {f : γ → α → Except ε γ} (g : β → α → Except ε β)
    (step : ∀ b x, f (wrap b) x = (g b x).map wrap) (xs : List α) (b : β) :
    xs.foldlM f (wrap b) = (xs.foldlM g b).map wrap := by
  induction xs generalizing b with
  | nil => rfl
  | cons x xs ih =>
    rw [List.foldlM_cons, List.foldlM_cons, step]
    cases g b x with
    | error => rfl
    | ok b' => exact ih b'

theorem foldlM_ok (f : β → α → β) (xs : List α) (b : β) :
    xs.foldlM (fun b x => (.ok (f b x) : Except ε β)) b = .ok (xs.foldl f b) :=
  List.foldlM_pure

def takeArguments (acc : Accumulator) : Row → Except Error Accumulator
  | [] => .ok acc.addRow
  | v :: _ => acc.add v

theorem mapM_argument {places : List Nat} (inside : ∀ i ∈ places, i < row.length) :
    places.mapM (argument row) = .ok (fieldsAt places row) := by
  refine mapM_eq_map fun i mem => ?_
  rw [argument, List.getD_eq_getElem?_getD, List.getElem?_eq_getElem (inside i mem)]
  rfl

theorem add_eq (inside : ∀ i ∈ call.args, i < row.length) (s : CallState) :
    s.add call row =
      if (fieldsAt call.args row).any Value.isNull || call.distinct && hasKey s.seen (fieldsAt call.args row) then .ok s
      else (takeArguments s.acc (fieldsAt call.args row)).map fun acc =>
        ⟨acc, if call.distinct then s.seen ++ [fieldsAt call.args row] else s.seen⟩ := by
  rw [CallState.add, mapM_argument inside, ok_bind]
  generalize fieldsAt call.args row = args
  cases null : args.any Value.isNull with
  | true => rfl
  | false =>
    rw [Bool.false_or, hasKey, if_neg Bool.false_ne_true]
    split
    · rfl
    · cases args with
      | nil => rfl
      | cons v rest =>
        cases s.acc.add v <;> rfl

/-- A call takes the arguments that are present, and a distinct call those that have not come before. -/
theorem foldlM_add_eq (inside : ∀ row ∈ members, ∀ i ∈ call.args, i < row.length) (s : CallState) :
    (members.foldlM (fun (s : CallState) row => s.add call row) s).map CallState.acc =
      (if call.distinct then distinctFrom s.seen (presentArguments call members)
        else presentArguments call members).foldlM takeArguments s.acc := by
  induction members generalizing s with
  | nil =>
    cases call.distinct <;> rfl
  | cons row members ih =>
    obtain ⟨here, later⟩ := List.forall_mem_cons.1 inside
    have present : presentArguments call (row :: members) = if (fieldsAt call.args row).any Value.isNull then
        presentArguments call members else fieldsAt call.args row :: presentArguments call members := by
      rw [presentArguments, List.map_cons, List.filter_cons]
      cases (fieldsAt call.args row).any Value.isNull <;> rfl
    rw [List.foldlM_cons, add_eq here, present]
    cases (fieldsAt call.args row).any Value.isNull with
    | true => exact ih later s
    | false =>
      have taken (seen : List Row) (rest : List Row)
          (next : ∀ acc, (members.foldlM (fun (s : CallState) row => s.add call row) ⟨acc, seen⟩).map CallState.acc =
            rest.foldlM takeArguments acc) :
          (((takeArguments s.acc (fieldsAt call.args row)).map fun acc => ⟨acc, seen⟩) >>=
            members.foldlM (fun (s : CallState) row => s.add call row)).map CallState.acc =
            (fieldsAt call.args row :: rest).foldlM takeArguments s.acc := by
        rw [List.foldlM_cons]
        cases takeArguments s.acc (fieldsAt call.args row) with
        | error => rfl
        | ok acc => exact next acc
      cases distinct : call.distinct with
      | false =>
        rw [distinct] at ih
        exact taken _ _ fun acc => ih later ⟨acc, s.seen⟩
      | true =>
        rw [distinct] at ih
        simp only [if_true, Bool.false_or, Bool.true_and, distinctFrom, Bool.false_eq_true, if_false]
        split
        · exact ih later s
        · exact taken _ _ fun acc => ih later ⟨acc, _⟩

theorem foldl_count (n : Int64) : args.foldl (fun n _ => n + 1) n = n + Int64.ofNat args.length := by
  induction args generalizing n with
  | nil => exact (Int64.add_zero n).symm
  | cons _ _ ih =>
    rw [List.foldl_cons, ih, List.length_cons, Int64.ofNat_add, Int64.add_assoc, Int64.add_comm 1]
    rfl

theorem foldlM_takeArguments {acc : Accumulator} (valued : acc.function ≠ .count) :
    args.foldlM takeArguments acc = (firsts args).foldlM (fun acc v => acc.add v) acc := by
  induction args generalizing acc with
  | nil => rfl
  | cons arg args ih =>
    rw [List.foldlM_cons]
    cases arg with
    | nil =>
      have unnoticed : acc.addRow = acc := by
        cases acc <;> first | rfl | exact absurd rfl valued
      rw [takeArguments, unnoticed]
      exact ih valued
    | cons v rest =>
      rw [takeArguments, firsts, List.filterMap_cons, List.head?_cons, List.foldlM_cons]
      cases added : acc.add v with
      | error => rfl
      | ok => exact ih ((Accumulator.add_cases added).1 ▸ valued)

theorem foldlM_avg (values : List Value) (total : Double) (n : Nat) :
    values.foldlM (fun acc v => Accumulator.add v acc) (.avg total n) =
      (values.foldlM addNumber total).map (Accumulator.avg · (n + values.length)) := by
  induction values generalizing total n with
  | nil => rfl
  | cons v values ih =>
    rw [List.foldlM_cons, List.foldlM_cons, Accumulator.add, addNumber]
    cases v.double? with
    | none => rfl
    | some x =>
      rw [List.length_cons, Nat.add_comm values.length, ← Nat.add_assoc]
      exact ih (total.add x) (n + 1)

theorem result_extreme {hold : Option Value → Accumulator} {wanted : Ordering}
    (first : ∀ v, (hold none).add v = .ok (hold (some v)))
    (next : ∀ best v, (hold (some best)).add v = .ok (hold (some (if v.compare best = wanted then v else best))))
    (given : ∀ x, (hold x).result = x.getD .null) (values : List Value) :
    (values.foldlM (fun acc v => Accumulator.add v acc) (hold none)).map Accumulator.result =
      .ok (extremeOf wanted values) := by
  cases values with
  | nil => exact congrArg Except.ok (given none)
  | cons v values =>
    rw [List.foldlM_cons, first, ok_bind, foldlM_wrap (fun best => hold (some best))
      (fun best v => .ok (if v.compare best = wanted then v else best)) next, foldlM_ok]
    exact congrArg Except.ok (given _)

theorem result_foldlM (f : AggFunction) (args : List Row) :
    (args.foldlM takeArguments (.start f)).map Accumulator.result = valueOf f args := by
  by_cases counts : f = .count
  · subst counts
    have each (n : Int64) (arg : Row) : takeArguments (.count n) arg = .ok (.count (n + 1)) := by cases arg <;> rfl
    rw [Accumulator.start, foldlM_wrap Accumulator.count (fun n _ => .ok (n + 1)) each, foldlM_ok, foldl_count,
      Int64.zero_add]
    rfl
  · rw [foldlM_takeArguments ((Accumulator.function_start f).symm ▸ counts)]
    cases f with
    | count => exact absurd rfl counts
    | sum =>
      rw [valueOf]
      cases firsts args with
      | nil => rfl
      | cons v values =>
        have each (total v : Value) : (Accumulator.sum (some total)).add v =
            (addValues total v).map (fun total => .sum (some total)) := by
          rw [Accumulator.add]
          cases addValues total v <;> rfl
        rw [List.foldlM_cons, Accumulator.start, Accumulator.add, ok_bind,
          foldlM_wrap (fun total => Accumulator.sum (some total)) addValues each]
        dsimp only [sumOf]
        cases values.foldlM addValues v <;> rfl
    | min | max =>
      refine result_extreme (fun _ => rfl) (fun best v => ?_) (fun _ => rfl) (firsts args)
      rw [Accumulator.add]
      split <;> simp_all
    | avg =>
      rw [Accumulator.start, foldlM_avg, Nat.zero_add, valueOf, meanOf]
      cases (firsts args).foldlM addNumber (Double.zero false) with
      | error => rfl
      | ok => cases firsts args <;> rfl

theorem result_callState (inside : ∀ row ∈ members, ∀ i ∈ call.args, i < row.length)
    (free : call.distinct = true → ∀ row ∈ members, Value.itemFloats (fieldsAt call.args row) = []) :
    (callState call members).map (·.acc.result) = valueOf call.function (argumentsOf call members) := by
  have taken := foldlM_add_eq inside (.start call)
  have distinct : (if call.distinct then distinctFrom [] (presentArguments call members)
      else presentArguments call members) = argumentsOf call members := by
    rw [argumentsOf]
    split
    · next once =>
      refine distinct_eq_eraseDupsBy fun args mem => ?_
      obtain ⟨row, inside, rfl⟩ := List.mem_map.1 (List.mem_of_mem_filter mem)
      exact free once row inside
    · rfl
  rw [CallState.start, distinct] at taken
  rw [← result_foldlM, ← taken, callState, CallState.start]
  cases members.foldlM (fun (s : CallState) row => s.add call row) ⟨.start call.function, []⟩ <;> rfl

end Calls

section Keys

variable {α : Type} {ks rows : List Row} {key : Row} {group : List Nat}

/-- Adding under a key of distinct ones, or under a new one. -/
theorem put_map (g : Row → List α) (a : α) (once : ks.Nodup) (free : ∀ k ∈ ks, Value.itemFloats k = [])
    (here : Value.itemFloats key = []) : Waiting.put key a (ks.map fun k => (k, g k)) =
      (ks.map fun k => (k, g k ++ if key.equal k then [a] else [])) ++ if hasKey ks key then [] else [(key, [a])] := by
  induction ks with
  | nil => rfl
  | cons k ks ih =>
    obtain ⟨first, later⟩ := List.forall_mem_cons.1 free
    obtain ⟨apart, once⟩ := List.nodup_cons.1 once
    have same := sameKey_eq_equal here first
    rw [List.map_cons, Waiting.put, List.map_cons, hasKey, List.any_cons, same]
    cases found : key.equal k with
    | true =>
      have others : ∀ k' ∈ ks, key.equal k' = false := by
        intro k' mem
        have inside : key ∉ ks := (sameKey_iff here first).1 (same.trans found) ▸ apart
        rw [← sameKey_eq_equal here (later k' mem), ← Bool.not_eq_true, sameKey_iff here (later k' mem)]
        rintro rfl
        exact inside mem
      have unchanged : (ks.map fun k => (k, g k ++ if key.equal k then [a] else [])) = ks.map fun k => (k, g k) :=
        List.map_congr_left fun k' mem => by rw [others k' mem, if_neg Bool.false_ne_true, List.append_nil]
      rw [unchanged]
      simp
    | false =>
      rw [if_neg Bool.false_ne_true, ih once later, if_neg Bool.false_ne_true, List.append_nil]
      rfl

/-- Rows that wait under their keys: each key in its first place, with the rows that have it. -/
theorem ofPairs_map (k : Row → Row) (free : ∀ row ∈ rows, Value.itemFloats (k row) = []) :
    Waiting.ofPairs ((rows.map k).zip rows) =
      (distinct (rows.map k)).map fun key => (key, rows.filter fun row => (k row).equal key) := by
  induction rows using List.reverseRecOn with
  | nil => rfl
  | append_singleton rows row ih =>
    obtain ⟨before, here⟩ := List.forall_mem_append.1 free
    have here := here row (.head _)
    have mapped : ∀ r ∈ rows.map k, Value.itemFloats r = [] := List.forall_mem_map.2 before
    have known : ∀ r ∈ distinct (rows.map k), Value.itemFloats r = [] := fun r mem =>
      mapped r ((distinctFrom_sublist ..).mem mem)
    have grown : distinct (rows.map k ++ [k row]) =
        distinct (rows.map k) ++ if hasKey (distinct (rows.map k)) (k row) then [] else [k row] := by
      rw [distinct, distinctFrom_append]
      rfl
    rw [List.map_append, List.map_singleton, List.zip_append (by simp), List.zip_cons_cons, List.zip_nil_left,
      Waiting.ofPairs_append, ih before, put_map _ _ (nodup_distinct mapped) known here, grown, List.map_append]
    refine congrArg₂ _ (List.map_congr_left fun key _ => ?_) ?_
    · rw [List.filter_append, List.filter_singleton]
      cases (k row).equal key <;> rfl
    · by_cases seen : hasKey (distinct (rows.map k)) (k row) = true
      · rw [if_pos seen, if_pos seen, List.map_nil]
      · have fresh : rows.filter (fun r => (k r).equal (k row)) = [] := by
          rw [hasKey_iff known here, mem_distinct_iff mapped] at seen
          refine List.filter_eq_nil_iff.2 fun r mem same => seen ?_
          rw [← sameKey_eq_equal (before r mem) here, sameKey_iff (before r mem) here] at same
          exact same ▸ List.mem_map_of_mem mem
        have itself : (k row).equal (k row) = true := decide_eq_true (Value.compareRows_self _)
        rw [if_neg seen, if_neg seen, List.map_singleton, List.filter_append, fresh, List.filter_singleton, itself]
        rfl

theorem keyOf_eq {row : Row} (inside : ∀ i ∈ group, i < row.length) : keyOf group row = .ok (fieldsAt group row) := by
  refine mapM_eq_map fun i mem => ?_
  rw [groupKeyOf, List.getD_eq_getElem?_getD, List.getElem?_eq_getElem (inside i mem)]
  rfl

theorem partition_eq (inside : ∀ row ∈ rows, ∀ i ∈ group, i < row.length)
    (free : ∀ row ∈ rows, Value.itemFloats (fieldsAt group row) = []) :
    partition group rows = .ok ((keysOf group rows).map fun key => (key, membersOf group rows key)) := by
  cases group with
  | nil =>
    have all : membersOf [] rows [] = rows := List.filter_eq_self.2 fun _ _ => rfl
    rw [partition_nil, keysOf, List.isEmpty_nil, if_pos rfl, List.map_singleton, all]
  | cons =>
    rw [partition, mapM_eq_map fun row mem => keyOf_eq (inside row mem), ok_bind, List.isEmpty_cons, Bool.and_false,
      if_neg Bool.false_ne_true, ofPairs_map _ free, distinct_eq_eraseDupsBy (List.forall_mem_map.2 free)]
    rfl

theorem nodup_keysOf (group : List Nat) (free : ∀ row ∈ rows, Value.itemFloats (fieldsAt group row) = []) :
    (keysOf group rows).Nodup := by
  rw [keysOf]
  split
  · exact List.nodup_singleton _
  · rw [← distinct_eq_eraseDupsBy (List.forall_mem_map.2 free)]
    exact nodup_distinct (List.forall_mem_map.2 free)

end Keys

section Refusal

/-- Values that a function refuses: the first of them are integers whose sum needs more than sixty-four bits, or a
value is no number. -/
def Refuses (f : AggFunction) (values : List Value) : Prop :=
  f = .sum ∧ (∃ (integers : List Int64) (rest : List Value), values = integers.map Value.int ++ rest ∧
    int64? (integers.map Int64.toInt).sum = none) ∨
  (f = .sum ∨ f = .avg) ∧ ∃ v ∈ values, v.double? = none

variable {values : List Value}

/-- What a sum fails on, when it goes on from a value. -/
theorem refused_foldlM {total : Value} (failed : (values.foldlM addValues total).isOk = false) :
    (∃ v ∈ total :: values, v.double? = none) ∨ ∃ (i : Int64) (integers : List Int64) (rest : List Value),
      total = .int i ∧ values = integers.map Value.int ++ rest ∧
        int64? (i.toInt + (integers.map Int64.toInt).sum) = none := by
  induction values generalizing total with
  | nil => cases failed
  | cons v values ih =>
    rw [List.foldlM_cons, addValues.eq_def] at failed
    split at failed
    · next i j =>
      cases bounded : int64? (i.toInt + j.toInt) with
      | none => exact .inr ⟨i, [j], values, rfl, rfl, by simpa using bounded⟩
      | some =>
        rw [bounded] at failed
        rcases ih failed with ⟨w, mem, noNumber⟩ | ⟨_, integers, rest, same, rfl, beyond⟩
        · rcases List.mem_cons.1 mem with rfl | later
          · cases noNumber
          · exact .inl ⟨w, by simp [later], noNumber⟩
        · cases same
          refine .inr ⟨i, j :: integers, rest, rfl, rfl, ?_⟩
          rw [List.map_cons, List.sum_cons, ← Int.add_assoc, ← toInt_of_int64? bounded]
          exact beyond
    · split at failed
      · rcases ih failed with ⟨w, mem, noNumber⟩ | ⟨_, _, _, same, _⟩
        · rcases List.mem_cons.1 mem with rfl | later
          · cases noNumber
          · exact .inl ⟨w, by simp [later], noNumber⟩
        · cases same
      · next unfit =>
        left
        cases first : total.double? with
        | none => exact ⟨total, by simp, first⟩
        | some x =>
          cases second : v.double? with
          | none => exact ⟨v, by simp, second⟩
          | some y => exact absurd second (unfit x y first)

theorem refused_addNumber {total : Double} (failed : (values.foldlM addNumber total).isOk = false) :
    ∃ v ∈ values, v.double? = none := by
  induction values generalizing total with
  | nil => cases failed
  | cons v values ih =>
    cases number : v.double? with
    | none => exact ⟨v, .head _, number⟩
    | some =>
      rw [List.foldlM_cons, addNumber, number] at failed
      obtain ⟨w, mem, noNumber⟩ := ih failed
      exact ⟨w, .tail _ mem, noNumber⟩

theorem refuses_of_valueOf {f : AggFunction} {args : List Row} (failed : (valueOf f args).isOk = false) :
    Refuses f (firsts args) := by
  cases f with
  | count | min | max => cases failed
  | sum =>
    rw [valueOf] at failed
    generalize firsts args = values at failed ⊢
    cases values with
    | nil => cases failed
    | cons =>
      rcases refused_foldlM failed with unfit | ⟨i, integers, rest, rfl, rfl, beyond⟩
      · exact .inr ⟨.inl rfl, unfit⟩
      · exact .inl ⟨rfl, i :: integers, rest, rfl, beyond⟩
  | avg => exact .inr ⟨.inr rfl, refused_addNumber (isOk_bind_pure.symm.trans failed)⟩

end Refusal

section Groups

variable {group : List Nat} {calls : List AggCall} {rows members : List Row} {key : Row}

theorem groupRow_eq (inside : ∀ row ∈ members, ∀ call ∈ calls, ∀ i ∈ call.args, i < row.length)
    (free : ∀ row ∈ members, ∀ call ∈ calls, call.distinct = true → Value.itemFloats (fieldsAt call.args row) = []) :
    groupRow calls (key, members) =
      (calls.mapM fun call => valueOf call.function (argumentsOf call members)) >>= fun values =>
        pure (key ++ values) := by
  have values (called : List AggCall) (part : ∀ call ∈ called, call ∈ calls) :
      (called.mapM (callState · members)).map (List.map (·.acc.result)) =
        called.mapM fun call => valueOf call.function (argumentsOf call members) := by
    induction called with
    | nil => rfl
    | cons call called ih =>
      obtain ⟨here, later⟩ := List.forall_mem_cons.1 part
      rw [List.mapM_cons, List.mapM_cons, ← ih later, ← result_callState (fun row mem => inside row mem call here)
        fun once row mem => free row mem call here once]
      cases callState call members with
      | error => rfl
      | ok => cases called.mapM (callState · members) <;> rfl
  rw [← values calls fun _ => id, groupRow]
  cases calls.mapM (callState · members) <;> rfl

/-- An aggregation succeeds with the rows of its groups, or fails as a call on one of them does. -/
theorem aggregate_ends_groups (keyed : ∀ row ∈ rows, ∀ i ∈ group, i < row.length)
    (argued : ∀ row ∈ rows, ∀ call ∈ calls, ∀ i ∈ call.args, i < row.length)
    (keysFree : ∀ row ∈ rows, Value.itemFloats (fieldsAt group row) = [])
    (argsFree : ∀ row ∈ rows, ∀ call ∈ calls, call.distinct = true → Value.itemFloats (fieldsAt call.args row) = []) :
    Ends (fun out => aggregateGroups group calls rows = .ok out) (fun _ => ∃ key ∈ keysOf group rows, ∃ call ∈ calls,
      (valueOf call.function (argumentsOf call (membersOf group rows key))).isOk = false)
      (aggregate group calls rows) := by
  have among (key : Row) : ∀ row ∈ membersOf group rows key, row ∈ rows := fun _ => List.mem_of_mem_filter
  refine (aggregate_ends (partition_eq keyed keysFree) calls).mono (fun out made => ?_) fun e fails => ?_
  · refine mapM_eq_ok.2 ((List.forall₂_map_left_iff.1 made).imp fun key row made => ?_)
    rwa [groupRow_eq (fun row mem => argued row (among key row mem)) fun row mem => argsFree row (among key row mem)]
      at made
  · obtain ⟨_, mem, call, called, failed⟩ := fails
    obtain ⟨key, inside, rfl⟩ := List.mem_map.1 mem
    refine ⟨key, inside, call, called, ?_⟩
    rw [← result_callState (fun row mem => argued row (among key row mem) call called)
      fun once row mem => argsFree row (among key row mem) call called once, isOk_map]
    exact failed

end Groups

/-- Aggregation, on rows that have the fields it asks for and no floats where they are compared. It succeeds with one
row for each distinct key, in the order of their first rows: the key, and every call on the arguments that it takes from
the rows of the key. It fails only where a sum needs more than sixty-four bits, or a sum or a mean meets what is no
number. Without rows there is one group where there are no group fields, and none otherwise. -/
theorem aggregate_eq_aggregateGroups (group : List Nat) (calls : List AggCall) (rows : List Row)
    (keyed : ∀ row ∈ rows, ∀ i ∈ group, i < row.length)
    (argued : ∀ row ∈ rows, ∀ call ∈ calls, ∀ i ∈ call.args, i < row.length)
    (keysFree : ∀ row ∈ rows, Value.itemFloats (fieldsAt group row) = [])
    (argsFree : ∀ row ∈ rows, ∀ call ∈ calls, call.distinct = true →
      Value.itemFloats (fieldsAt call.args row) = []) :
    (∀ out, aggregate group calls rows = .ok out ↔ aggregateGroups group calls rows = .ok out) ∧
    (keysOf group rows).Nodup ∧ (∀ e, aggregate group calls rows = .error e → ∃ key ∈ keysOf group rows, ∃ call ∈ calls,
      Refuses call.function (firsts (argumentsOf call (membersOf group rows key)))) ∧
    aggregate [] calls [] = .ok [calls.map fun call => if call.function = .count then .int 0 else .null] ∧
    (group ≠ [] → aggregate group calls [] = .ok []) := by
  have ends := aggregate_ends_groups keyed argued keysFree argsFree
  refine ⟨fun out => ?_, nodup_keysOf group keysFree, fun e failed => ?_, ?_, fun grouped => ?_⟩
  · cases made : aggregate group calls rows with
    | ok out' =>
      rw [made] at ends
      rw [show aggregateGroups group calls rows = .ok out' from ends]
    | error e =>
      rw [made] at ends
      obtain ⟨key, inside, call, called, failed⟩ := ends
      refine iff_of_false (by simp) fun success => ?_
      obtain ⟨row, _, success⟩ := exists_of_forall₂_right (mapM_eq_ok.1 success).flip inside
      obtain ⟨values, success, _⟩ := bind_eq_ok.1 success
      obtain ⟨v, _, success⟩ := exists_of_forall₂_right (mapM_eq_ok.1 success).flip called
      rw [success] at failed
      cases failed
  · rw [failed] at ends
    obtain ⟨key, inside, call, called, failed⟩ := ends
    exact ⟨key, inside, call, called, refuses_of_valueOf failed⟩
  · refine congrArg (fun row => Except.ok [row]) ?_
    rw [Group.start, Group.result, List.nil_append, List.map_map]
    refine List.map_congr_left fun call _ => ?_
    rw [Function.comp_apply, CallState.start]
    cases call.function <;> rfl
  · cases group with
    | nil => exact absurd rfl grouped
    | cons i group => rfl

/-- Two groups, a null among the arguments and an argument that comes twice. -/
theorem aggregate_eq_aggregateGroups_departments :
    let rows : List Row := [[.string "b", .int 10], [.string "a", .int 5], [.string "b", .null], [.string "b", .int 10]]
    let calls : List AggCall := [⟨.count, [], false, "n"⟩, ⟨.count, [1], false, "c"⟩, ⟨.sum, [1], false, "s"⟩,
      ⟨.sum, [1], true, "sd"⟩, ⟨.max, [1], false, "m"⟩]
    aggregate [0] calls rows = .ok [[.string "b", .int 3, .int 2, .int 20, .int 10, .int 10],
      [.string "a", .int 1, .int 1, .int 5, .int 5, .int 5]] := by
  intro rows calls
  exact ((aggregate_eq_aggregateGroups [0] calls rows (by decide) (by decide) (by decide) (by decide)).1 _).2 rfl

end FederatedQuery.Rows
