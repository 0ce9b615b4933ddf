import FederatedQuery.Proofs.Rows.Members

/-!
Feeds: rows, and then the end or a failure. Each operation on the rows of a cursor is one on feeds; it says
which rows come out, and all rows come out when none of the inputs and no step fails.
-/
namespace FederatedQuery

inductive Feed where
  | done
  | fail (e : Error)
  | row (r : Row) (rest : Feed)

namespace Feed

def ofRows : List Row → Feed
  | [] => done
  | r :: rest => row r (ofRows rest)

def ofResult : Except Error (List Row) → Feed
  | .ok rows => ofRows rows
  | .error e => fail e

/-- The rows that come before the end or the failure. -/
def rows : Feed → List Row
  | done | fail _ => []
  | row r rest => r :: rest.rows

/-- All rows, if no failure comes. -/
def result : Feed → Except Error (List Row)
  | done => .ok []
  | fail e => .error e
  | row r rest => rest.result.map (r :: ·)

def append : Feed → Feed → Feed
  | done, next => next
  | fail e, _ => fail e
  | row r rest, next => row r (rest.append next)

/-- The rows that a function makes of each row; its first failure ends the feed. -/
def expand (f : Row → Except Error (List Row)) : Feed → Feed
  | done => done
  | fail e => fail e
  | row r rest => match f r with
    | .error e => fail e
    | .ok made => (ofRows made).append (rest.expand f)

/-- The rows whose keys have not come before. -/
def distinctFrom (seen : List Row) : Feed → Feed
  | done => done
  | fail e => fail e
  | row r rest => if Rows.hasKey seen r then rest.distinctFrom seen else row r (rest.distinctFrom (seen ++ [r]))

def combine (op : SetOp) (all : Bool) (first second : Feed) : Feed :=
  match op, all with
  | .union, true => first.append second
  | .union, false => (first.append second).distinctFrom []
  | op, all => ofResult (do return Rows.setOperation op all (← first.result) (← second.result))

@[simp]
theorem result_ofRows (rows : List Row) : (ofRows rows).result = .ok rows := by
  induction rows with
  | nil => rfl
  | cons _ _ ih => rw [ofRows, result, ih, Except.map]

@[simp]
theorem result_ofResult (x : Except Error (List Row)) : (ofResult x).result = x := by
  cases x with
  | error => rfl
  | ok rows => exact result_ofRows rows

@[simp]
theorem rows_ofRows (rows : List Row) : (ofRows rows).rows = rows := by
  induction rows with
  | nil => rfl
  | cons _ _ ih => rw [ofRows, Feed.rows, ih]

theorem rows_of_result {F : Feed} {rows : List Row} (success : F.result = .ok rows) : F.rows = rows := by
  induction F generalizing rows with
  | done =>
    cases success
    rfl
  | fail => cases success
  | row r rest ih =>
    obtain ⟨later, rest, rfl⟩ := map_eq_ok.1 success
    rw [Feed.rows, ih rest]

section Membership

variable {F G : Feed} {r : Row}

theorem mem_rows_ofResult {x : Except Error (List Row)} : r ∈ (ofResult x).rows ↔ ∃ rows, x = .ok rows ∧ r ∈ rows := by
  cases x with
  | error => simp [ofResult, Feed.rows]
  | ok => simp [ofResult]

theorem mem_rows_append (mem : r ∈ (F.append G).rows) : r ∈ F.rows ∨ r ∈ G.rows := by
  induction F with
  | done => exact .inr mem
  | fail => cases mem
  | row first rest ih =>
    rcases List.mem_cons.1 mem with rfl | later
    · exact .inl (.head _)
    · exact (ih later).imp_left (List.mem_cons_of_mem _)

theorem mem_rows_expand {f : Row → Except Error (List Row)} (mem : r ∈ (F.expand f).rows) :
    ∃ row ∈ F.rows, ∃ made, f row = .ok made ∧ r ∈ made := by
  induction F with
  | done | fail => cases mem
  | row first rest ih =>
    rw [expand] at mem
    split at mem
    · cases mem
    · next made success =>
      rcases mem_rows_append mem with here | later
      · exact ⟨first, .head _, made, success, rows_ofRows made ▸ here⟩
      · obtain ⟨row, inside, found⟩ := ih later
        exact ⟨row, .tail _ inside, found⟩

theorem mem_rows_distinctFrom {seen : List Row} (mem : r ∈ (F.distinctFrom seen).rows) : r ∈ F.rows := by
  induction F generalizing seen with
  | done | fail => cases mem
  | row first rest ih =>
    rw [distinctFrom] at mem
    split at mem
    · exact .tail _ (ih mem)
    · rcases List.mem_cons.1 mem with rfl | later
      · exact .head _
      · exact .tail _ (ih later)

theorem mem_rows_combine {op : SetOp} {all : Bool} (mem : r ∈ (combine op all F G).rows) :
    r ∈ F.rows ∨ op = .union ∧ r ∈ G.rows := by
  unfold combine at mem
  split at mem
  · exact (mem_rows_append mem).imp_right fun right => ⟨rfl, right⟩
  · exact (mem_rows_append (mem_rows_distinctFrom mem)).imp_right fun right => ⟨rfl, right⟩
  · obtain ⟨rows, success, mem⟩ := mem_rows_ofResult.1 mem
    obtain ⟨left, first, success⟩ := bind_eq_ok.1 success
    obtain ⟨right, second, success⟩ := bind_eq_ok.1 success
    cases success
    rw [rows_of_result first, rows_of_result second]
    exact Rows.mem_of_setOperation mem

end Membership

section Result

variable {F G : Feed} {out : List Row}

theorem result_append_eq_ok : (F.append G).result = .ok out ↔
    ∃ left right, F.result = .ok left ∧ G.result = .ok right ∧ out = left ++ right := by
  induction F generalizing out with
  | done =>
    refine ⟨fun success => ⟨[], out, rfl, success, rfl⟩, ?_⟩
    rintro ⟨left, right, first, second, rfl⟩
    cases first
    exact second
  | fail =>
    refine ⟨nofun, ?_⟩
    rintro ⟨left, right, first, _⟩
    cases first
  | row r rest ih =>
    constructor
    · intro success
      obtain ⟨later, rested, rfl⟩ := map_eq_ok.1 success
      obtain ⟨left, right, first, second, rfl⟩ := ih.1 rested
      exact ⟨r :: left, right, map_eq_ok.2 ⟨left, first, rfl⟩, second, rfl⟩
    · rintro ⟨left, right, first, second, rfl⟩
      obtain ⟨later, rested, rfl⟩ := map_eq_ok.1 first
      exact map_eq_ok.2 ⟨later ++ right, ih.2 ⟨later, right, rested, second, rfl⟩, rfl⟩

theorem result_expand_eq_ok {f : Row → Except Error (List Row)} : (F.expand f).result = .ok out ↔
    ∃ rows made, F.result = .ok rows ∧ List.Forall₂ (fun r m => f r = .ok m) rows made ∧
      out = made.flatten := by
  induction F generalizing out with
  | done =>
    constructor
    · intro success
      cases success
      exact ⟨[], [], rfl, .nil, rfl⟩
    · rintro ⟨rows, made, success, each, rfl⟩
      cases success
      cases each
      rfl
  | fail =>
    refine ⟨nofun, ?_⟩
    rintro ⟨rows, made, success, _⟩
    cases success
  | row r rest ih =>
    rw [expand]
    constructor
    · intro success
      split at success
      · cases success
      · next first here =>
        obtain ⟨left, right, same, later, rfl⟩ := result_append_eq_ok.1 success
        rw [result_ofRows, Except.ok.injEq] at same
        obtain ⟨rows, made, rested, each, rfl⟩ := ih.1 later
        exact ⟨r :: rows, first :: made, map_eq_ok.2 ⟨rows, rested, rfl⟩, .cons here each, same ▸ rfl⟩
    · rintro ⟨rows, made, success, each, rfl⟩
      obtain ⟨later, rested, rfl⟩ := map_eq_ok.1 success
      cases each with
      | cons here each =>
        rw [here]
        exact result_append_eq_ok.2 ⟨_, _, result_ofRows _, ih.2 ⟨later, _, rested, each, rfl⟩, rfl⟩

theorem result_distinctFrom (F : Feed) (seen : List Row) :
    (F.distinctFrom seen).result = F.result.map (Rows.distinctFrom seen) := by
  induction F generalizing seen with
  | done | fail => rfl
  | row r rest ih =>
    rw [distinctFrom, result]
    split
    · next known =>
      rw [ih]
      cases rest.result with
      | error => rfl
      | ok => simp only [Except.map, Rows.distinctFrom, known, if_true]
    · next fresh =>
      rw [Bool.not_eq_true] at fresh
      rw [result, ih]
      cases rest.result with
      | error => rfl
      | ok => simp only [Except.map, Rows.distinctFrom, fresh, Bool.false_eq_true, if_false]

theorem result_combine_eq_ok {op : SetOp} {all : Bool} : (combine op all F G).result = .ok out ↔
    ∃ left right, F.result = .ok left ∧ G.result = .ok right ∧ out = Rows.setOperation op all left right := by
  unfold combine
  split
  · exact result_append_eq_ok
  · rw [result_distinctFrom, map_eq_ok]
    simp only [result_append_eq_ok]
    constructor
    · rintro ⟨_, ⟨left, right, first, second, rfl⟩, rfl⟩
      exact ⟨left, right, first, second, rfl⟩
    · rintro ⟨left, right, first, second, rfl⟩
      exact ⟨_, ⟨left, right, first, second, rfl⟩, rfl⟩
  · rw [result_ofResult]
    constructor
    · intro success
      obtain ⟨left, first, success⟩ := bind_eq_ok.1 success
      obtain ⟨right, second, success⟩ := bind_eq_ok.1 success
      cases success
      exact ⟨left, right, first, second, rfl⟩
    · rintro ⟨left, right, first, second, rfl⟩
      rw [first, second]
      rfl

end Result

end Feed

end FederatedQuery
