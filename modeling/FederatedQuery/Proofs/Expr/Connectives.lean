import FederatedQuery.Proofs.Error.Outcome
import FederatedQuery.Proofs.Expr.Subterms
import FederatedQuery.Simplify.Rules
import Mathlib.Tactic.Tauto

/-!
Conjunctions and disjunctions as one connective: operands are tested in order until one has the truth
value that stops the evaluation, which is false in a conjunction and true in a disjunction. Operands may
be flattened, repeated, or moved behind the others when they are unknown, without changing an outcome.
-/
namespace FederatedQuery

namespace Truth

/-- What the operands so far, none of which stops, come to with the operands that follow. -/
def join (stop : Bool) (t u : Truth) : Truth := if u = some stop then u else if t = none then none else u

variable {stop : Bool} {t : Truth} {u : Truth}

theorem join_assoc (v : Truth) (pass : u ≠ some stop) : join stop (join stop t u) v = join stop t (join stop u v) := by
  rcases t with _ | _ | _ <;> rcases u with _ | _ | _ <;> rcases v with _ | _ | _ <;> cases stop <;>
    first | rfl | exact absurd rfl pass

theorem join_eq_stop : join stop t u = some stop ↔ u = some stop := by
  rcases t with _ | _ | _ <;> rcases u with _ | _ | _ <;> cases stop <;> decide

theorem join_some (stop : Bool) (b : Bool) (u : Truth) : join stop (some b) u = u := by
  simp [join]

theorem join_pass (pass : t ≠ some stop) : join stop t (some !stop) = t := by
  rcases t with _ | _ | _ <;> cases stop <;> simp_all [join]

theorem join_left_comm (stop : Bool) (t u : Truth) :
    join stop none (join stop t u) = join stop t (join stop none u) := by
  rcases t with _ | _ | _ <;> rcases u with _ | _ | _ <;> cases stop <;> rfl

theorem join_self_left (stop : Bool) (t u : Truth) : join stop t (join stop t u) = join stop t u := by
  rcases t with _ | _ | _ <;> rcases u with _ | _ | _ <;> cases stop <;> rfl

@[simp]
theorem truth_toValue (t : Truth) : t.toValue.truth = .ok t := by
  cases t <;> rfl

end Truth

theorem Value.toValue_of_truth {v : Value} {t : Truth} (truth : v.truth = .ok t) : t.toValue = v := by
  cases v <;> simp_all [Value.truth] <;> subst truth <;> rfl

namespace Expr

/-- The truth value of an expression on a row. -/
def truthAt (row : Row) (params : Bindings) (e : Expr) : Except Error Truth := do
  (← e.eval row params).truth

/-- Tests operands in order until one is `stop`. -/
def evalUntil (row : Row) (params : Bindings) (stop : Bool) : List Expr → Except Error Truth
  | [] => .ok (some !stop)
  | e :: rest => match e.truthAt row params with
    | .error err => .error err
    | .ok t => if t = some stop then .ok t else (evalUntil row params stop rest).map (Truth.join stop t)

variable {row : Row} {params : Bindings} {stop : Bool} {e : Expr} {es : List Expr}

theorem evalAnd_and_evalOr (es : List Expr) :
    evalAnd row params es = evalUntil row params false es ∧ evalOr row params es = evalUntil row params true es := by
  induction es with
  | nil => exact ⟨rfl, rfl⟩
  | cons e rest ih =>
    rw [evalAnd, evalOr, evalUntil, evalUntil, truthAt, ih.1, ih.2]
    cases e.eval row params with
    | error => exact ⟨rfl, rfl⟩
    | ok v =>
      simp only [ok_bind]
      cases v.truth with
      | error => exact ⟨rfl, rfl⟩
      | ok t =>
        generalize evalUntil row params false rest = x, evalUntil row params true rest = y
        constructor
        · rcases t with _ | _ | _ <;> rcases x with _ | _ | _ | _ <;> rfl
        · rcases t with _ | _ | _ <;> rcases y with _ | _ | _ | _ <;> rfl

/-- The connective that stops at a truth value. -/
def connective (stop : Bool) : Op := if stop then .or else .and

theorem eval_connective (es : List Expr) (ty : SqlType) :
    (call (connective stop) es ty).eval row params =
      (evalUntil row params stop es).map Truth.toValue := by
  cases stop with
  | true =>
    simp only [connective, if_true, eval, (evalAnd_and_evalOr es).2]
    rfl
  | false =>
    simp only [connective, Bool.false_eq_true, if_false, eval, (evalAnd_and_evalOr es).1]
    rfl

theorem truthAt_connective (es : List Expr) (ty : SqlType) :
    (call (connective stop) es ty).truthAt row params = evalUntil row params stop es := by
  rw [truthAt, eval_connective]
  cases evalUntil row params stop es with
  | error => rfl
  | ok t => exact t.truth_toValue

@[simp]
theorem evalUntil_nil : evalUntil row params stop [] = .ok (some !stop) := rfl

theorem evalUntil_cons (e : Expr) (rest : List Expr) :
    evalUntil row params stop (e :: rest) = (do
      let t ← e.truthAt row params
      if t = some stop then .ok t else (evalUntil row params stop rest).map (Truth.join stop t)) := by
  rw [evalUntil]
  cases e.truthAt row params <;> rfl

@[simp]
theorem evalUntil_singleton (e : Expr) : evalUntil row params stop [e] = e.truthAt row params := by
  rw [evalUntil_cons]
  cases e.truthAt row params with
  | error => rfl
  | ok t =>
    by_cases stops : t = some stop
    · simp [stops]
    · simp [stops, Except.map, Truth.join_pass stops]

theorem evalUntil_append (front back : List Expr) :
    evalUntil row params stop (front ++ back) = (do
      let t ← evalUntil row params stop front
      if t = some stop then .ok t else (evalUntil row params stop back).map (Truth.join stop t)) := by
  induction front with
  | nil =>
    rw [List.nil_append]
    cases evalUntil row params stop back with
    | error => simp [Except.map]
    | ok => simp [Except.map, Truth.join_some]
  | cons e rest ih =>
    rw [List.cons_append, evalUntil_cons, evalUntil_cons, ih]
    cases e.truthAt row params with
    | error => rfl
    | ok t =>
      by_cases stops : t = some stop
      · simp [stops]
      · simp only [ok_bind, if_neg stops]
        cases evalUntil row params stop rest with
        | error => rfl
        | ok u =>
          by_cases later : u = some stop
          · simp [later, Except.map, Truth.join]
          · simp only [ok_bind, if_neg later, Except.map, if_neg (mt Truth.join_eq_stop.1 later)]
            cases evalUntil row params stop back with
            | error => rfl
            | ok v => exact congrArg Except.ok (Truth.join_assoc v later).symm

/-- An evaluation that is not stopped has tested every operand, and is unknown if one of them is. -/
theorem truthAt_of_passed {t : Truth} (outcome : evalUntil row params stop es = .ok t)
    (passed : t ≠ some stop) (mem : e ∈ es) :
    ∃ u, e.truthAt row params = .ok u ∧ u ≠ some stop ∧ (u = none → t = none) := by
  induction es generalizing t with
  | nil => simp at mem
  | cons _ _ ih =>
    rw [evalUntil_cons, bind_eq_ok] at outcome
    obtain ⟨u, tested, outcome⟩ := outcome
    by_cases stops : u = some stop
    · rw [if_pos stops, Except.ok.injEq] at outcome
      exact absurd (outcome ▸ stops) passed
    · rw [if_neg stops, map_eq_ok] at outcome
      obtain ⟨v, later, joined⟩ := outcome
      have passes : v ≠ some stop := fun eq => passed (joined ▸ Truth.join_eq_stop.2 eq)
      rcases List.mem_cons.1 mem with rfl | mem
      · exact ⟨u, tested, stops, fun unknown => by rw [← joined, Truth.join, if_neg passes, if_pos unknown]⟩
      · obtain ⟨w, known, pass, unknown⟩ := ih later passes mem
        refine ⟨w, known, pass, fun eq => ?_⟩
        rw [← joined, Truth.join, if_neg passes, unknown eq, ite_self]

theorem exists_unknown (outcome : evalUntil row params stop es = .ok none) :
    ∃ e ∈ es, e.truthAt row params = .ok none := by
  induction es with
  | nil => simp at outcome
  | cons first rest ih =>
    rw [evalUntil_cons, bind_eq_ok] at outcome
    obtain ⟨t, tested, outcome⟩ := outcome
    by_cases stops : t = some stop
    · simp [stops] at outcome
    · rw [if_neg stops, map_eq_ok] at outcome
      obtain ⟨u, later, joined⟩ := outcome
      by_cases unknown : t = none
      · exact ⟨first, by simp, unknown ▸ tested⟩
      · obtain ⟨b, rfl⟩ := Option.ne_none_iff_exists'.1 unknown
        rw [Truth.join_some] at joined
        obtain ⟨e, mem, known⟩ := ih (joined ▸ later)
        exact ⟨e, by simp [mem], known⟩

theorem evalUntil_flatten (es : List Expr) :
    evalUntil row params stop (flatten (connective stop) es) = evalUntil row params stop es := by
  have terms (es : List Expr)
      (each : ∀ e ∈ es, evalUntil row params stop (flattenTerm (connective stop) e) = e.truthAt row params) :
      evalUntil row params stop (flatten (connective stop) es) = evalUntil row params stop es := by
    induction es with
    | nil => rw [flatten]
    | cons e rest ih =>
      rw [flatten, evalUntil_append, evalUntil_cons, each e (by simp), ih fun x mem => each x (by simp [mem])]
  have term (e : Expr) :
      evalUntil row params stop (flattenTerm (connective stop) e) = e.truthAt row params := by
    induction e using induction with
    | call op operands ty ih =>
      by_cases nested : op = connective stop
      · rw [flattenTerm, if_pos nested, terms operands ih, nested, truthAt_connective]
      · rw [flattenTerm, if_neg nested, evalUntil_singleton]
    | _ =>
      rw [flattenTerm, evalUntil_singleton]
      simp
  exact terms es fun e _ => term e

theorem evalUntil_filter_neutral (keep : Expr → Bool) (es : List Expr)
    (neutral : ∀ e ∈ es, keep e = false → e.truthAt row params = .ok (some !stop)) :
    evalUntil row params stop (es.filter keep) = evalUntil row params stop es := by
  induction es with
  | nil => rfl
  | cons e rest ih =>
    have tail := ih fun x mem => neutral x (by simp [mem])
    cases kept : keep e with
    | true => rw [List.filter_cons_of_pos kept, evalUntil_cons, evalUntil_cons, tail]
    | false =>
      rw [List.filter_cons_of_neg (by simp [kept]), tail, evalUntil_cons,
        neutral e (by simp) kept, ok_bind, if_neg (by simp)]
      cases evalUntil row params stop rest with
      | error => rfl
      | ok => rw [Except.map, Truth.join_some]

/-- Unknown operands can be left out if the others are joined with one unknown operand. -/
theorem evalUntil_filter_unknown (keep : Expr → Bool) (es : List Expr)
    (unknown : ∀ e ∈ es, keep e = false → e.truthAt row params = .ok none) :
    (evalUntil row params stop (es.filter keep)).map (Truth.join stop none) =
      (evalUntil row params stop es).map (Truth.join stop none) := by
  induction es with
  | nil => rfl
  | cons e rest ih =>
    have tail := ih fun x mem => unknown x (by simp [mem])
    cases kept : keep e with
    | true =>
      rw [List.filter_cons_of_pos kept, evalUntil_cons, evalUntil_cons]
      cases e.truthAt row params with
      | error => rfl
      | ok t =>
        by_cases stops : t = some stop
        · simp [stops]
        · simp only [ok_bind, if_neg stops]
          have commuted (x : Except Error Truth) : (x.map (Truth.join stop t)).map (Truth.join stop none) =
              (x.map (Truth.join stop none)).map (Truth.join stop t) := by
            cases x with
            | error => rfl
            | ok u => exact congrArg Except.ok (Truth.join_left_comm stop t u)
          rw [commuted, tail, commuted]
    | false =>
      rw [List.filter_cons_of_neg (by simp [kept]), tail, evalUntil_cons, unknown e (by simp) kept]
      cases evalUntil row params stop rest with
      | error => rfl
      | ok u => exact congrArg Except.ok (Truth.join_self_left stop none u).symm

theorem evalUntil_absorb {front back : List Expr} (mem : e ∈ front) :
    evalUntil row params stop (front ++ e :: back) = evalUntil row params stop (front ++ back) := by
  rw [evalUntil_append, evalUntil_append]
  cases outcome : evalUntil row params stop front with
  | error => rfl
  | ok t =>
    by_cases stops : t = some stop
    · simp [stops]
    · obtain ⟨u, tested, passes, unknown⟩ := truthAt_of_passed outcome stops mem
      simp only [ok_bind, if_neg stops]
      rw [evalUntil_cons, tested, ok_bind, if_neg passes]
      cases evalUntil row params stop back with
      | error => rfl
      | ok =>
        refine congrArg Except.ok ?_
        by_cases eq : u = none
        · rw [eq, unknown eq, Truth.join_self_left]
        · obtain ⟨b, rfl⟩ := Option.ne_none_iff_exists'.1 eq
          rw [Truth.join_some]

theorem evalUntil_distinct (es : List Expr) (identical : ∀ a ∈ es, ∀ b ∈ es, a.same b = true → a = b) :
    evalUntil row params stop (distinct es) = evalUntil row params stop es := by
  -- The operands kept so far stand in front of those still to be looked at.
  have step (kept rest : List Expr) (sub : ∀ a ∈ kept ++ rest, a ∈ es) :
      evalUntil row params stop (rest.foldl (fun kept e => if e.isIn kept then kept else kept ++ [e]) kept) =
      evalUntil row params stop (kept ++ rest) := by
    induction rest generalizing kept with
    | nil => rw [List.foldl_nil, List.append_nil]
    | cons e rest ih =>
      rw [List.foldl_cons]
      by_cases found : e.isIn kept = true
      · have mem : e ∈ kept := by
          rw [isIn, List.any_eq_true] at found
          obtain ⟨x, mem, equal⟩ := found
          rwa [identical e (sub e (by simp)) x (sub x (by simp [mem])) equal]
        rw [if_pos found, evalUntil_absorb mem]
        exact ih kept fun a mem => sub a (by simp at mem ⊢; tauto)
      · rw [if_neg found, ih (kept ++ [e]) (by simpa using sub), List.append_assoc, List.singleton_append]
  simpa [distinct] using step [] es (by simp)

end Expr

end FederatedQuery
