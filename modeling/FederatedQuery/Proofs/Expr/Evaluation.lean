import FederatedQuery.Proofs.Expr.Connectives

/-!
What evaluation gives. An expression that is declared never null is never null on a row that keeps the
declarations of its references; without floats to start from, and no conversion to a floating type, no
float comes out; and an outcome depends on the referenced fields and parameters only.
-/
namespace FederatedQuery

/-- The types whose values are floats. -/
def SqlType.isFloating : SqlType → Bool
  | double | decimal .. => true
  | _ => false

namespace Value

variable {ty : SqlType} {v w : Value}

theorem castResult_eq_ok {result : Option Value} : castResult v ty result = .ok w ↔ result = some w := by
  cases result <;> simp [castResult]

/-- A conversion keeps its value or gives one that is not null, and a float only in a floating type. -/
theorem eq_or_of_cast (converted : v.cast ty = .ok w)
    (present : v.isNull = false) : w = v ∨ w.isNull = false ∧ (ty.isFloating = false → w.floats = []) := by
  unfold cast at converted
  rw [if_neg (by simp [present])] at converted
  split at converted
  case h_1 | h_2 =>
    cases converted
    exact .inl rfl
  case h_3 | h_5 | h_10 | h_11 | h_12 =>
    obtain ⟨x, _, rfl⟩ := Option.map_eq_some_iff.1 (castResult_eq_ok.1 converted)
    exact .inr ⟨rfl, fun _ => rfl⟩
  case h_4 =>
    obtain ⟨i, result, fits⟩ := bind_eq_ok.1 converted
    obtain ⟨i, _, rfl⟩ := Option.map_eq_some_iff.1 (castResult_eq_ok.1 result)
    dsimp only at fits
    split at fits
    · cases fits
      exact .inr ⟨rfl, fun _ => rfl⟩
    · cases fits
  case h_6 | h_7 =>
    obtain ⟨x, _, rfl⟩ := Option.map_eq_some_iff.1 (castResult_eq_ok.1 converted)
    exact .inr ⟨rfl, nofun⟩
  case h_8 | h_9 =>
    obtain ⟨s, _, given⟩ := bind_eq_ok.1 converted
    cases given
    exact .inr ⟨rfl, fun _ => rfl⟩
  case h_13 =>
    split at converted
    · cases converted
      exact .inl rfl
    · cases converted

theorem floats_getD {items : List Value} (free : itemFloats items = []) (n : Nat) :
    ((items[n]?).getD .null).floats = [] := by
  cases located : items[n]? with
  | none => rfl
  | some v =>
    refine List.eq_nil_iff_forall_not_mem.2 fun x mem => ?_
    have inside : x ∈ itemFloats items := mem_itemFloats.2 ⟨v, List.mem_of_getElem? located, mem⟩
    simp [free] at inside

end Value

namespace Op

/-- Whether all operands are evaluated before the operator is applied. -/
def isEager : Op → Bool
  | and | or | case | coalesce => false
  | _ => true

/-- What a strict operator can give. -/
inductive StrictOutcome : Op → List Value → SqlType → Value → Prop
  | compared {op : Op} {a b : Value} {o : Option Ordering} {ty : SqlType}
      (comparison : op.isComparison = true) (order : a.sqlCompare b = .ok o) :
      StrictOutcome op [a, b] ty (Truth.toValue (o.map op.holds))
  | negated {a : Value} {t : Truth} {ty : SqlType} (truth : a.truth = .ok t) :
      StrictOutcome .not [a] ty (Truth.toValue (t.map (!·)))
  | computed {op : Op} {a b v : Value} {ty : SqlType} (number : op.arithmetic a b = .ok v) :
      StrictOutcome op [a, b] ty v
  | opposite {a v : Value} {ty : SqlType} (number : negateValue a = .ok v) : StrictOutcome .negate [a] ty v
  | text {op : Op} {args : List Value} {s : String} {ty : SqlType} : StrictOutcome op args ty (.string s)
  | counted {op : Op} {args : List Value} {i : Int64} {ty : SqlType} : StrictOutcome op args ty (.int i)
  | converted {a v : Value} {ty : SqlType} (cast : a.cast ty = .ok v) : StrictOutcome .cast [a] ty v

variable {op : Op} {args : List Value} {ty : SqlType} {v : Value}

theorem strictOutcome (applied : op.applyStrict args ty = .ok v) : StrictOutcome op args ty v := by
  unfold applyStrict at applied
  split at applied
  case h_1 | h_2 | h_3 | h_4 | h_5 | h_6 =>
    obtain ⟨o, order, given⟩ := bind_eq_ok.1 applied
    cases given
    exact .compared rfl order
  case h_7 =>
    obtain ⟨t, truth, given⟩ := bind_eq_ok.1 applied
    cases given
    exact .negated truth
  case h_8 | h_9 | h_10 | h_11 | h_12 => exact .computed applied
  case h_13 => exact .opposite applied
  case h_14 | h_15 | h_16 =>
    obtain ⟨s, _, given⟩ := bind_eq_ok.1 applied
    cases given
    exact .text
  case h_17 =>
    obtain ⟨s, _, given⟩ := bind_eq_ok.1 applied
    cases given
    exact .counted
  case h_18 =>
    have cut {text : Option (List Char)} (given : substringResult text = .ok v) :
        StrictOutcome .substring args ty v := by
      cases text <;> cases given
      exact .text
    unfold substringValue at applied
    split at applied
    · exact cut applied
    · split at applied
      · cases applied
      · exact cut applied
    · cases applied
  case h_19 => exact .converted applied
  case h_20 => split at applied <;> cases applied

/-- What an operator on evaluated operands can give. -/
inductive Outcome : Op → List Value → SqlType → Value → Prop
  | tested {op : Op} {args : List Value} {ty : SqlType} {b : Bool} : Outcome op args ty (.bool b)
  | unwound {v w : Value} {ty : SqlType} (expanded : unwindValue v = .ok w) : Outcome .unwind [v] ty w
  | item {a i v : Value} {ty : SqlType} (found : itemValue a i = .ok v) : Outcome .item [a, i] ty v
  | collected {items : List Value} {ty : SqlType} : Outcome .arrayValue items ty (.array items)
  | missing {op : Op} {args : List Value} {ty : SqlType} (strict : op.isStrict = true)
      (null : args.any Value.isNull = true) : Outcome op args ty .null
  | strict {op : Op} {args : List Value} {ty : SqlType} {v : Value}
      (present : ∀ a ∈ args, a.isNull = false) (outcome : StrictOutcome op args ty v) :
      Outcome op args ty v

theorem outcome (eager : op.isEager = true) (applied : op.applyValues args ty = .ok v) : Outcome op args ty v := by
  unfold applyValues at applied
  split at applied
  case h_1 | h_2 =>
    cases applied
    exact .tested
  case h_3 | h_4 =>
    obtain ⟨t, _, given⟩ := bind_eq_ok.1 applied
    cases given
    exact .tested
  case h_5 => exact .unwound applied
  case h_6 => exact .item applied
  case h_7 =>
    cases applied
    exact .collected
  case h_8 =>
    split at applied
    case h_7 =>
      by_cases null : args.any Value.isNull = true
      · rw [if_pos null] at applied
        cases applied
        refine .missing ?_ null
        cases op <;> simp_all [isEager, isStrict]
      · rw [if_neg null] at applied
        refine .strict (fun a mem => ?_) (strictOutcome applied)
        simpa using fun isNull => null (List.any_eq_true.2 ⟨a, mem, isNull⟩)
    all_goals cases applied

/-- A strict operator gives a value that is not null, and a float only from a float or in a floating type. -/
theorem StrictOutcome.present (outcome : StrictOutcome op args ty v) (known : ∀ a ∈ args, a.isNull = false) :
    v.isNull = false ∧ ((∀ a ∈ args, a.floats = []) → (op = .cast → ty.isFloating = false) → v.floats = []) := by
  cases outcome with
  | compared comparison order =>
    rename_i a b o
    rw [Value.sqlCompare, known a (by simp), known b (by simp), if_neg (by decide)] at order
    split at order <;> cases order
    exact ⟨rfl, fun _ _ => rfl⟩
  | negated truth =>
    rename_i a t
    have operand := known a (by simp)
    cases a <;> simp_all [Value.truth, Value.isNull]
    subst truth
    exact ⟨rfl, fun _ => rfl⟩
  | computed number =>
    rename_i a b
    unfold arithmetic at number
    split at number
    · split at number
      · cases number
      · split at number <;> cases number
        exact ⟨rfl, fun _ _ => rfl⟩
    · split at number <;> cases number
      refine ⟨rfl, fun free _ => ?_⟩
      have left := free a (by simp)
      have right := free b (by simp)
      cases a <;> cases b <;> simp_all [Value.double?, Value.floats]
  | opposite number =>
    unfold negateValue at number
    split at number
    · split at number <;> cases number
      exact ⟨rfl, fun _ _ => rfl⟩
    · cases number
      refine ⟨rfl, fun free _ => ?_⟩
      simp [Value.floats] at free
    · cases number
  | text | counted => exact ⟨rfl, fun _ _ => rfl⟩
  | converted cast =>
    rcases Value.eq_or_of_cast cast (known _ (by simp)) with rfl | ⟨present, changed⟩
    · exact ⟨known _ (by simp), fun free _ => free _ (by simp)⟩
    · exact ⟨present, fun _ fixed => changed (fixed rfl)⟩

theorem Outcome.ne_null (outcome : Outcome op args ty v) (item : op ≠ .item) (unwind : op ≠ .unwind)
    (present : op.isStrict = true → ∀ a ∈ args, a.isNull = false) : v.isNull = false := by
  cases outcome with
  | tested | collected => rfl
  | unwound => exact absurd rfl unwind
  | item => exact absurd rfl item
  | missing strict null =>
    obtain ⟨a, mem, isNull⟩ := List.any_eq_true.1 null
    simp [present strict a mem] at isNull
  | strict present outcome => exact (outcome.present present).1

theorem Outcome.floats_eq_nil (outcome : Outcome op args ty v) (free : ∀ a ∈ args, a.floats = [])
    (fixed : op = .cast → ty.isFloating = false ∨ ∃ a ∈ args, a.isNull = true) : v.floats = [] := by
  cases outcome with
  | tested | missing => rfl
  | unwound expanded =>
    rename_i a
    have operand := free a (by simp)
    unfold unwindValue at expanded
    split at expanded <;> cases expanded
    · rfl
    · exact operand
  | item found =>
    rename_i a i
    have operand := free a (by simp)
    unfold itemValue at found
    split at found <;> cases found
    · split
      · exact Value.floats_getD operand _
      · rfl
    · rfl
    · rfl
  | collected =>
    refine List.eq_nil_iff_forall_not_mem.2 fun x mem => ?_
    obtain ⟨a, inside, floating⟩ := Value.mem_itemFloats.1 mem
    simp [free a inside] at floating
  | strict present outcome =>
    refine (outcome.present present).2 free fun cast => (fixed cast).resolve_right ?_
    rintro ⟨a, mem, null⟩
    simp [present a mem] at null

end Op

/-- A relation between outcomes that holds of equal ones and is kept by every step. -/
structure Stepwise (R : ∀ {α : Type}, Except Error α → Except Error α → Prop) : Prop where
  refl {α : Type} (x : Except Error α) : R x x
  bind {α β : Type} {x y : Except Error α} {f g : α → Except Error β} (first : R x y) (later : ∀ a, R (f a) (g a)) :
    R (x >>= f) (y >>= g)

theorem Stepwise.map {R : ∀ {α : Type}, Except Error α → Except Error α → Prop} (steps : Stepwise @R) {α β : Type}
    {x y : Except Error α} (related : R x y) (f : α → β) : R (x.map f) (y.map f) :=
  steps.bind related fun a => steps.refl (.ok (f a))

/-- A success is kept. -/
def Keeps {α : Type} (x y : Except Error α) : Prop := ∀ a, x = .ok a → y = .ok a

theorem stepwise_keeps : Stepwise @Keeps where
  refl _ _ := id
  bind first later b outcome := by
    obtain ⟨a, value, outcome⟩ := bind_eq_ok.1 outcome
    exact bind_eq_ok.2 ⟨a, first a value, later a b outcome⟩

namespace Expr

variable {row : Row} {params : Bindings} {vs : List Value} {e : Expr} {index : Nat} {v : Value} {es : List Expr}

theorem field_eq_ok : field row index = .ok v ↔ row[index]? = some v := by
  unfold field
  split <;> simp_all

theorem evalAll_eq_mapM (es : List Expr) : evalAll row params es = es.mapM (eval row params) := by
  induction es with
  | nil => rfl
  | cons _ _ ih => rw [evalAll, List.mapM_cons, ih]

theorem evalAll_eq_ok : evalAll row params es = .ok vs ↔ List.Forall₂ (fun e v => e.eval row params = .ok v) es vs := by
  rw [evalAll_eq_mapM, mapM_eq_ok]

theorem eval_eager {op : Op} (eager : op.isEager = true) (es : List Expr) (ty : SqlType) :
    (call op es ty).eval row params = (evalAll row params es >>= fun args => op.applyValues args ty) := by
  cases op <;> first | rfl | cases eager

theorem mem_refsOf : index ∈ refsOf es ↔ ∃ e ∈ es, index ∈ e.refs := by
  induction es with
  | nil => simp [refsOf]
  | cons _ _ ih => simp [refsOf, ih]

theorem mem_paramsOf : index ∈ paramsOf es ↔ ∃ e ∈ es, index ∈ e.params := by
  induction es with
  | nil => simp [paramsOf]
  | cons _ _ ih => simp [paramsOf, ih]

section Transfer

variable {R : ∀ {α : Type}, Except Error α → Except Error α → Prop} {row' : Row} {params' : Bindings}
  {es es' : List Expr} {e e' : Expr} {f : Nat → SqlType → Bool → Option Expr}

/-- The outcomes of two expressions, each on a row of its own, are related. -/
def Related (R : ∀ {α : Type}, Except Error α → Except Error α → Prop) (row : Row) (params : Bindings) (row' : Row)
    (params' : Bindings) (e e' : Expr) : Prop :=
  R (e.eval row params) (e'.eval row' params')

/-- Where one expression has a value, another has it too. -/
abbrev Transfers : Row → Bindings → Row → Bindings → Expr → Expr → Prop := Related @Keeps

section Steps

variable (steps : Stepwise @R)

include steps

theorem related_evalCase : ∀ {es es' : List Expr}, List.Forall₂ (Related @R row params row' params') es es' →
    R (evalCase row params es) (evalCase row' params' es')
  | _, _, .nil => steps.refl _
  | _, _, .cons only .nil => only
  | _, _, .cons condition (.cons result rest) => by
    rw [evalCase, evalCase]
    refine steps.bind condition fun v => steps.bind (steps.refl _) fun t => ?_
    split
    · exact result
    · exact related_evalCase rest

variable (each : List.Forall₂ (Related @R row params row' params') es es')

include each

theorem related_evalAll : R (evalAll row params es) (evalAll row' params' es') := by
  induction each with
  | nil => exact steps.refl _
  | cons first _ ih =>
    rw [evalAll, evalAll]
    exact steps.bind first fun v => steps.bind ih fun vs => steps.refl _

theorem related_evalUntil (stop : Bool) : R (evalUntil row params stop es) (evalUntil row' params' stop es') := by
  induction each with
  | nil => exact steps.refl _
  | cons first _ ih =>
    rw [evalUntil_cons, evalUntil_cons]
    refine steps.bind (steps.bind first fun v => steps.refl _) fun t => ?_
    split
    · exact steps.refl _
    · exact steps.map ih _

theorem related_evalCoalesce : R (evalCoalesce row params es) (evalCoalesce row' params' es') := by
  induction each with
  | nil => exact steps.refl _
  | cons first _ ih =>
    rw [evalCoalesce, evalCoalesce]
    refine steps.bind first fun v => ?_
    split
    · exact ih
    · exact steps.refl _

/-- Calls of one operator are related where their operands are. -/
theorem related_call (op : Op) (ty : SqlType) :
    Related @R row params row' params' (call op es ty) (call op es' ty) := by
  have connected (stop : Bool) :
      Related @R row params row' params' (call (connective stop) es ty) (call (connective stop) es' ty) := by
    rw [Related, eval_connective, eval_connective]
    exact steps.map (related_evalUntil steps each stop) _
  by_cases eager : op.isEager = true
  · rw [Related, eval_eager eager, eval_eager eager]
    exact steps.bind (related_evalAll steps each) fun args => steps.refl _
  · cases op with
    | and => exact connected false
    | or => exact connected true
    | case => exact related_evalCase steps each
    | coalesce =>
      rw [Related, eval, eval]
      exact related_evalCoalesce steps each
    | _ => exact absurd rfl eager

end Steps

theorem forall₂_bindRefsAll {es es' : List Expr} (bound : bindRefsAll f es = some es') :
    List.Forall₂ (fun e e' => e.bindRefs f = some e') es es' := by
  induction es generalizing es' with
  | nil =>
    cases bound
    exact .nil
  | cons _ _ ih =>
    rw [bindRefsAll] at bound
    split at bound
    · next x xs first later =>
      cases bound
      exact .cons first (ih later)
    · cases bound

/-- Replacing references by expressions that are related to the fields. -/
theorem related_bindRefs (steps : Stepwise @R) (bound : e.bindRefs f = some e')
    (reads : ∀ index ∈ e.refs, ∀ ty nullable x, f index ty nullable = some x →
      R (field row index) (x.eval row' params)) : Related @R row params row' params e e' := by
  induction e using induction generalizing e' with
  | ref index ty nullable => exact reads index (.head _) ty nullable e' bound
  | lit | param =>
    cases bound
    exact steps.refl _
  | call op operands ty ih =>
    rw [bindRefs, Option.map_eq_some_iff] at bound
    obtain ⟨operands', bound, rfl⟩ := bound
    have each : List.Forall₂ (fun e e' => e ∈ operands ∧ e.bindRefs f = some e') operands operands' :=
      (List.forall₂_and_left _ _).2 ⟨fun _ mem => mem, forall₂_bindRefsAll bound⟩
    exact related_call steps (each.imp fun e e' here => ih e here.1 here.2 fun index inside =>
      reads index (mem_refsOf.2 ⟨e, here.1, inside⟩)) op ty

/-- References are replaced when every one of them has a replacement. -/
theorem isSome_bindRefs {g : Nat → Bool} (replaced : ∀ index ty nullable, (f index ty nullable).isSome = g index) :
    (e.bindRefs f).isSome = e.refs.all g := by
  induction e using induction with
  | ref => simp [bindRefs, refs, replaced]
  | lit | param => rfl
  | call op operands ty ih =>
    rw [bindRefs, Option.isSome_map, refs]
    induction operands with
    | nil => rfl
    | cons e rest later =>
      rw [List.forall_mem_cons] at ih
      rw [refsOf, List.all_append, ← ih.1, ← later ih.2, bindRefsAll]
      cases e.bindRefs f <;> cases bindRefsAll f rest <;> rfl

/-- An expression whose references stand for themselves is left as it is. -/
theorem bindRefs_eq_self (same : ∀ index ∈ e.refs, ∀ ty nullable, f index ty nullable = some (ref index ty nullable)) :
    e.bindRefs f = some e := by
  induction e using induction with
  | ref index ty nullable => exact same index (.head _) ty nullable
  | lit | param => rfl
  | call op operands ty ih =>
    have all : bindRefsAll f operands = some operands := by
      induction operands with
      | nil => rfl
      | cons e rest later =>
        rw [refs, refsOf, List.forall_mem_append] at same
        rw [List.forall_mem_cons] at ih
        rw [bindRefsAll, ih.1 same.1, later ih.2 same.2]
    rw [bindRefs, all, Option.map_some]

theorem bindRefs_of_closed (closed : e.refs = []) : e.bindRefs f = some e :=
  bindRefs_eq_self fun index mem => absurd mem (by simp [closed])

/-- When no reference has a replacement, only what refers to nothing is left, as it is. -/
theorem eq_of_bindRefs (kept : ∀ index ty nullable, f index ty nullable = none) (bound : e.bindRefs f = some e') :
    e.refs = [] ∧ e' = e := by
  have replaced := isSome_bindRefs (e := e) fun index ty nullable => congrArg Option.isSome (kept index ty nullable)
  have closed : e.refs = [] := by simpa [bound, List.eq_nil_iff_forall_not_mem] using replaced
  exact ⟨closed, Option.some.inj (bound.symm.trans (bindRefs_of_closed closed))⟩

/-- An expression keeps its value where the fields that it refers to keep theirs. -/
theorem transfers_of_refs (reads : ∀ index ∈ e.refs, ∀ v, field row index = .ok v → field row' index = .ok v) :
    Transfers row params row' params e e :=
  related_bindRefs stepwise_keeps (bindRefs_eq_self fun _ _ _ _ => rfl) fun index mem ty nullable x same => by
    cases same
    exact reads index mem

theorem transfers_of_closed (closed : e.refs = []) : Transfers row params row' params e e :=
  transfers_of_refs fun index mem => absurd mem (by simp [closed])

end Transfer

/-- A reference that is declared never null reads a value that is not null. -/
def ReadsPresent (row : Row) : Expr → Prop
  | ref index _ false => row[index]? ≠ some .null
  | _ => True

theorem forall_eval_of_evalAll {P : Value → Prop} (all : evalAll row params es = .ok vs)
    (each : ∀ e ∈ es, ∀ v, e.eval row params = .ok v → P v) : ∀ v ∈ vs, P v := by
  intro v mem
  obtain ⟨e, inside, value⟩ := exists_of_forall₂_right (evalAll_eq_ok.1 all) mem
  exact each e inside v value

theorem exists_value_of_mem (all : evalAll row params es = .ok vs) (mem : e ∈ es) :
    ∃ v ∈ vs, e.eval row params = .ok v :=
  exists_of_forall₂_right (evalAll_eq_ok.1 all).flip mem

theorem anyNullable_eq_false : anyNullable es = false ↔ ∀ e ∈ es, e.nullable = false := by
  induction es with
  | nil => simp [anyNullable]
  | cons _ _ ih => simp [anyNullable, ih]

theorem evalCase_mem : ∀ {es : List Expr}, evalCase row params es = .ok v →
    v = .null ∧ resultsNullable es = true ∨
      ∃ e ∈ es, e.eval row params = .ok v ∧ (resultsNullable es = false → e.nullable = false)
  | [], outcome => by
    cases outcome
    exact .inl ⟨rfl, rfl⟩
  | [e], outcome => .inr ⟨e, by simp, outcome, id⟩
  | condition :: result :: rest, outcome => by
    obtain ⟨w, _, outcome⟩ := bind_eq_ok.1 outcome
    obtain ⟨t, _, outcome⟩ := bind_eq_ok.1 outcome
    simp only [resultsNullable, Bool.or_eq_true, Bool.or_eq_false_iff]
    split at outcome
    · exact .inr ⟨result, by simp, outcome, And.left⟩
    · rcases evalCase_mem outcome with ⟨null, never⟩ | ⟨e, mem, taken, present⟩
      · exact .inl ⟨null, .inr never⟩
      · exact .inr ⟨e, by simp [mem], taken, fun never => present never.2⟩

theorem evalCoalesce_ne_null (each : ∀ e ∈ es, e.nullable = false → ∀ v, e.eval row params = .ok v → v.isNull = false)
    (never : allNullable es = false) (outcome : evalCoalesce row params es = .ok v) :
    v.isNull = false := by
  induction es with
  | nil => simp [allNullable] at never
  | cons e rest ih =>
    obtain ⟨w, first, outcome⟩ := bind_eq_ok.1 outcome
    by_cases null : w.isNull = true
    · rw [if_pos null] at outcome
      refine ih (fun x mem => each x (by simp [mem])) ?_ outcome
      rw [allNullable, Bool.and_eq_false_iff] at never
      refine never.resolve_left fun present => ?_
      simp [each e (by simp) present w first] at null
    · rw [if_neg null] at outcome
      cases outcome
      simpa using null

theorem eval_ne_null (never : e.nullable = false) (reads : e.Everywhere (ReadsPresent row))
    (outcome : e.eval row params = .ok v) : v.isNull = false := by
  induction e using induction generalizing v with
  | ref index ty nullable =>
    have present := reads.here
    cases nullable with
    | true => simp [nullable] at never
    | false =>
      rw [eval, field] at outcome
      split at outcome
      · cases outcome
        cases v <;> simp_all [ReadsPresent, Value.isNull]
      · cases outcome
  | lit =>
    cases outcome
    simpa [nullable] using never
  | param => simp [nullable] at never
  | call op operands ty ih =>
    have each : ∀ e ∈ operands, e.nullable = false → ∀ v, e.eval row params = .ok v → v.isNull = false :=
      fun e mem present v => ih e mem present (reads.operands e mem)
    have connected (stop : Bool) (same : op = connective stop) : v.isNull = false := by
      have present : ∀ e ∈ operands, e.nullable = false := by
        refine anyNullable_eq_false.1 ?_
        cases stop <;> subst same <;> simpa [nullable, connective] using never
      rw [same, eval_connective, map_eq_ok] at outcome
      obtain ⟨t, outcome, rfl⟩ := outcome
      cases t with
      | some => rfl
      | none =>
        obtain ⟨e, mem, unknown⟩ := exists_unknown outcome
        obtain ⟨w, value, truth⟩ := bind_eq_ok.1 unknown
        have known := each e mem (present e mem) w value
        cases w <;> simp_all [Value.truth, Value.isNull]
    by_cases eager : op.isEager = true
    · rw [eval_eager eager] at outcome
      obtain ⟨args, all, applied⟩ := bind_eq_ok.1 outcome
      refine (Op.outcome eager applied).ne_null ?_ ?_ fun strict => ?_
      · rintro rfl
        simp [nullable] at never
      · rintro rfl
        simp [nullable] at never
      · have present : ∀ e ∈ operands, e.nullable = false := by
          refine anyNullable_eq_false.1 ?_
          cases op <;> simp_all [nullable, Op.isStrict]
        exact forall_eval_of_evalAll all fun e mem w => each e mem (present e mem) w
    · cases op with
      | and => exact connected false rfl
      | or => exact connected true rfl
      | case =>
        rcases evalCase_mem outcome with ⟨_, null⟩ | ⟨e, mem, taken, present⟩
        · exact absurd (null.symm.trans never) (by decide)
        · exact each e mem (present never) v taken
      | coalesce => exact evalCoalesce_ne_null each (by simpa [nullable] using never) (by simpa [eval] using outcome)
      | _ => exact absurd rfl eager

/-- A literal without floats, and a conversion to a floating type of nothing but null. -/
def FloatFree : Expr → Prop
  | lit v => v.floats = []
  | call .cast operands ty => ty.isFloating = false ∨ ∃ e ∈ operands, e.isNull = true
  | _ => True

theorem evalCoalesce_mem (outcome : evalCoalesce row params es = .ok v) :
    v = .null ∨ ∃ e ∈ es, e.eval row params = .ok v := by
  induction es with
  | nil =>
    cases outcome
    exact .inl rfl
  | cons e rest ih =>
    obtain ⟨w, first, outcome⟩ := bind_eq_ok.1 outcome
    split at outcome
    · rcases ih outcome with null | ⟨x, mem, taken⟩
      · exact .inl null
      · exact .inr ⟨x, by simp [mem], taken⟩
    · cases outcome
      exact .inr ⟨e, by simp, first⟩

theorem eval_floats (free : e.Everywhere FloatFree) (fields : ∀ w ∈ row, w.floats = [])
    (bound : ∀ i w, params i = some w → w.floats = []) (outcome : e.eval row params = .ok v) : v.floats = [] := by
  induction e using induction generalizing v with
  | ref =>
    rw [eval, field] at outcome
    split at outcome
    · rename_i w located
      cases outcome
      exact fields _ (List.mem_of_getElem? located)
    · cases outcome
  | lit =>
    cases outcome
    exact free.here
  | param =>
    rw [eval, binding] at outcome
    split at outcome
    · rename_i w found
      cases outcome
      exact bound _ _ found
    · cases outcome
  | call op operands ty ih =>
    have each : ∀ e ∈ operands, ∀ w, e.eval row params = .ok w → w.floats = [] :=
      fun e mem w => ih e mem (free.operands e mem)
    have connected (stop : Bool) (same : op = connective stop) : v.floats = [] := by
      rw [same, eval_connective, map_eq_ok] at outcome
      obtain ⟨t, _, rfl⟩ := outcome
      cases t <;> rfl
    by_cases eager : op.isEager = true
    · rw [eval_eager eager] at outcome
      obtain ⟨args, all, applied⟩ := bind_eq_ok.1 outcome
      refine (Op.outcome eager applied).floats_eq_nil (forall_eval_of_evalAll all each) ?_
      rintro rfl
      refine free.here.imp_right ?_
      rintro ⟨e, mem, null⟩
      obtain ⟨w, inside, value⟩ := exists_value_of_mem all mem
      refine ⟨w, inside, ?_⟩
      cases e <;> simp_all [Expr.isNull, eval]
    · cases op with
      | and => exact connected false rfl
      | or => exact connected true rfl
      | case =>
        rcases evalCase_mem outcome with ⟨rfl, _⟩ | ⟨e, mem, taken, _⟩
        · rfl
        · exact each e mem v taken
      | coalesce =>
        rw [eval] at outcome
        rcases evalCoalesce_mem outcome with rfl | ⟨e, mem, taken⟩
        · rfl
        · exact each e mem v taken
      | _ => exact absurd rfl eager

end Expr

end FederatedQuery
