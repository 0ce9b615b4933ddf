import FederatedQuery.Proofs.Sql.Marks

/-!
Where two dashes meet in a statement. Between any two parts of a statement stands a blank, a bracket, a comma or a
keyword, except between a minus and its operand. So dashes meet where the operand of a minus starts with one, or inside
a single word.
-/
namespace FederatedQuery.Sql

mutual

/-- The operands that stand right after a minus. -/
def Term.negated : Term → List Term
  | .column .. | .literal _ | .param .. | .star => []
  | .binary _ left right | .item left right => left.negated ++ right.negated
  | .unary symbol operand => (if symbol.toList.getLast? = some '-' then [operand] else []) ++ operand.negated
  | .suffixed operand _ | .cast operand _ => operand.negated
  | .function _ _ args | .array args => termsNegated args
  | .case branches otherwise => branchesNegated branches ++ optionNegated otherwise
  | .substring text start length => text.negated ++ (start.negated ++ optionNegated length)
  | .exists _ query | .subquery query => query.negated

def termsNegated : List Term → List Term
  | [] => []
  | t :: rest => t.negated ++ termsNegated rest

def optionNegated : Option Term → List Term
  | none => []
  | some t => t.negated

def branchesNegated : List (Term × Term) → List Term
  | [] => []
  | (condition, result) :: rest => condition.negated ++ (result.negated ++ branchesNegated rest)

def tuplesNegated : List (List Term) → List Term
  | [] => []
  | row :: rest => termsNegated row ++ tuplesNegated rest

def Query.negated : Query → List Term
  | .select block => block.negated
  | .setOp _ _ inputs => queriesNegated inputs

def queriesNegated : List Query → List Term
  | [] => []
  | q :: rest => q.negated ++ queriesNegated rest

def Select.negated : Select → List Term
  | ⟨projection, source, filter, groupBy, having, orderBy, _, _⟩ =>
    projectionNegated projection ++ (fromNegated source ++ (optionNegated filter ++ (termsNegated groupBy ++
      (optionNegated having ++ orderNegated orderBy))))

def projectionNegated : List (Term × Option String) → List Term
  | [] => []
  | (t, _) :: rest => t.negated ++ projectionNegated rest

def orderNegated : List (Term × Bool × Option Bool) → List Term
  | [] => []
  | (t, _, _) :: rest => t.negated ++ orderNegated rest

def fromNegated : Option Source → List Term
  | none => []
  | some source => source.negated

def Source.negated : Source → List Term
  | .table .. => []
  | .derived query _ => query.negated
  | .values rows _ _ => tuplesNegated rows
  | .join _ left right on => left.negated ++ (right.negated ++ on.negated)

end

def Statement.negated : Statement → List Term
  | .query q | .insert _ _ (.query q) => q.negated
  | .insert _ _ (.values rows) => tuplesNegated rows
  | .update _ assignments filter => termsNegated (assignments.map Prod.snd) ++ optionNegated filter
  | .delete _ filter => optionNegated filter

def Term.Opens (d : Dialect) (t : Term) : Prop := (marks d (operandPieces 8 t (t.pieces d))).head? = some dash

/-- The pieces do not start with a dash. -/
def Quiet (d : Dialect) (pieces : List Piece) : Prop := (marks d pieces).head? ≠ some dash

/-- Dashes meet in the pieces inside one of them, or where an operand of a minus starts with one. -/
def Sound (d : Dialect) (pieces : List Piece) (operands : List Term) : Prop :=
  Twice dash (marks d pieces) ↔ (∃ p ∈ pieces, Twice dash (p.marks d)) ∨ ∃ t ∈ operands, t.Opens d

/-- Whether a word has a first character and that is no dash. -/
def opensPlainly (word : String) : Bool := word.toList.head?.any (· ≠ '-')

/-- Whether a word has a last character and that is no dash. -/
def closesPlainly (word : String) : Bool := word.toList.getLast?.any (· ≠ '-')

theorem opensPlainly_lines (keyword : String) : opensPlainly ("\n" ++ keyword ++ "\n") := by
  simp [opensPlainly]

theorem closesPlainly_lines (keyword : String) : closesPlainly ("\n" ++ keyword ++ "\n") := by
  have last : ("\n" ++ keyword ++ "\n").toList.getLast? = some '\n' := by
    rw [String.toList_append]
    exact List.getLast?_concat
  rw [closesPlainly, last]
  rfl

section Combine

variable {d : Dialect} {left right : List Piece} {us vs : List Term} {t : Term} {keyword : String}

theorem marks_append (d : Dialect) (left right : List Piece) :
    marks d (left ++ right) = marks d left ++ marks d right := List.flatMap_append

theorem marks_cons (d : Dialect) (p : Piece) (rest : List Piece) : marks d (p :: rest) = p.marks d ++ marks d rest :=
  List.flatMap_cons

theorem quiet_nil : Quiet d [] := by simp [Quiet, marks]

theorem quiet_word {word : String} (plain : opensPlainly word) (rest : List Piece) : Quiet d (.word word :: rest) := by
  rw [Quiet, marks_cons, List.head?_append, Piece.marks, bare, List.head?_map]
  rw [opensPlainly] at plain
  cases head : word.toList.head? with
  | none => simp [head] at plain
  | some =>
    rw [head] at plain
    intro same
    exact of_decide_eq_true plain (congrArg Prod.fst (Option.some.inj same))

theorem Quiet.append (first : Quiet d left) (second : Quiet d right) : Quiet d (left ++ right) := by
  rw [Quiet, marks_append, List.head?_append]
  rw [Quiet] at first
  cases head : (marks d left).head? with
  | none => exact second
  | some => rwa [head] at first

theorem Sound.nil : Sound d [] [] := by
  rw [Sound]
  simp [marks, not_twice_nil]

theorem Sound.piece (p : Piece) : Sound d [p] [] := by
  rw [Sound]
  simp [marks]

theorem Sound.join (first : Sound d left us) (second : Sound d right vs)
    (apart : ¬((marks d left).getLast? = some dash ∧ (marks d right).head? = some dash)) :
    Sound d (left ++ right) (us ++ vs) := by
  rw [Sound] at first second ⊢
  rw [marks_append, twice_append, or_iff_left apart, first, second]
  simp only [List.mem_append, or_and_right, exists_or]
  exact or_or_or_comm ..

theorem Sound.append (first : Sound d left us) (second : Sound d right vs) (quiet : Quiet d right) :
    Sound d (left ++ right) (us ++ vs) := first.join second fun both => quiet both.2

/-- What follows has no operand of a minus. -/
theorem Sound.close (first : Sound d left us) (second : Sound d right []) (quiet : Quiet d right) :
    Sound d (left ++ right) us := by simpa using first.append second quiet

theorem Sound.cons (p : Piece) (rest : Sound d right vs) (quiet : Quiet d right) : Sound d (p :: right) vs :=
  (Sound.piece p).append rest quiet

theorem Sound.word {word : String} (plain : closesPlainly word) (rest : Sound d right vs) :
    Sound d (.word word :: right) vs := by
  refine (Sound.piece (.word word)).join rest fun both => ?_
  have last := both.1
  rw [marks_cons, Piece.marks, bare, marks, List.flatMap_nil, List.append_nil, List.getLast?_map] at last
  rw [closesPlainly] at plain
  cases found : word.toList.getLast? with
  | none => simp [found] at plain
  | some =>
    rw [found] at plain last
    exact of_decide_eq_true plain (congrArg Prod.fst (Option.some.inj last))

theorem Sound.ended (inside : Sound d left us) {word : String} (plain : opensPlainly word) :
    Sound d (left ++ [.word word]) us := inside.close (.piece _) (quiet_word plain _)

/-- The last of some terms has no operands after it. -/
theorem Sound.last (inside : Sound d left us) : Sound d left (us ++ []) := by rwa [List.append_nil]

theorem Sound.bracketed (inside : Sound d left us) : Sound d (bracketed left) us := .word rfl (inside.ended rfl)

theorem Sound.operand (inside : Sound d left us) (least : Nat) : Sound d (operandPieces least t left) us := by
  rw [operandPieces]
  split
  · exact inside.bracketed
  · exact inside

theorem Sound.separated {word : String} (opening : opensPlainly word) (closing : closesPlainly word)
    {lists : List (List Piece)} (each : ∀ pieces ∈ lists, Sound d pieces []) : Sound d (separated word lists) [] := by
  induction lists with
  | nil => exact .nil
  | cons first rest ih =>
    have here := each first (.head _)
    cases rest with
    | nil => exact here
    | cons =>
      exact here.append (.word closing (ih fun pieces mem => each pieces (.tail _ mem))) (quiet_word opening _)

theorem sound_names {word : String} (opening : opensPlainly word) (closing : closesPlainly word) (names : List String) :
    Sound d (separated word (names.map fun name => [.identifier name])) [] := by
  refine .separated opening closing fun pieces mem => ?_
  obtain ⟨name, -, rfl⟩ := List.mem_map.1 mem
  exact .piece _

theorem sound_aliasPieces (label : String) : Sound d (aliasPieces d label) [] := by
  rw [aliasPieces]
  split <;> exact .word rfl (.piece _)

theorem quiet_aliasPieces (label : String) : Quiet d (aliasPieces d label) := by
  rw [aliasPieces]
  split <;> exact quiet_word rfl _

theorem quiet_fromPieces (source : Option Source) : Quiet d (fromPieces d source) := by
  cases source with
  | none => exact quiet_nil
  | some => exact quiet_word rfl _

theorem quiet_optionPieces (plain : opensPlainly keyword) (t : Option Term) : Quiet d (optionPieces d keyword t) := by
  cases t with
  | none => exact quiet_nil
  | some => exact quiet_word plain _

theorem quiet_branchesPieces (branches : List (Term × Term)) : Quiet d (branchesPieces d branches) := by
  cases branches with
  | nil => exact quiet_nil
  | cons => exact quiet_word rfl _

theorem Sound.operandQuery {q : Query} (inside : Sound d left us) : Sound d (operandQueryPieces d q left) us := by
  rw [operandQueryPieces]
  split
  · exact inside
  · split
    · exact inside.bracketed
    · exact .word rfl (inside.ended rfl)

theorem quiet_clause (plain : opensPlainly keyword) (empty : Bool) (pieces : List Piece) :
    Quiet d (if empty then [] else .word keyword :: pieces) := by
  cases empty with
  | true => exact quiet_nil
  | false => exact quiet_word plain _

theorem quiet_limitText (d : Dialect) (offset fetch : Option Nat) : Quiet d [.word (limitText d offset fetch)] := by
  rw [Quiet, marks_cons, Piece.marks, marks, List.flatMap_nil, List.append_nil, Ne, head?_bare, limitText.eq_def]
  have same (text : String) : toString text = text := rfl
  cases d.limit with
  | limitOffset => cases offset <;> cases fetch <;> simp [same]
  | offsetFetch => cases offset <;> cases fetch <;> cases d.limitNeedsOrder <;> simp [same]

/-- The alias of a source or a column, if it has one. -/
def labelPieces (d : Dialect) (label : Option String) : List Piece := label.elim [] (aliasPieces d)

theorem sound_labelPieces (label : Option String) : Sound d (labelPieces d label) [] := by
  cases label with
  | none => exact .nil
  | some label => exact sound_aliasPieces label

theorem quiet_labelPieces (label : Option String) : Quiet d (labelPieces d label) := by
  cases label with
  | none => exact quiet_nil
  | some label => exact quiet_aliasPieces label

theorem projectionPieces_cons (t : Term) (label : Option String) (rest : List (Term × Option String)) :
    projectionPieces d ((t, label) :: rest) = t.pieces d ++ (labelPieces d label ++
      ((if rest.isEmpty then [] else [.word ", "]) ++ projectionPieces d rest)) := by
  cases label <;> simp [projectionPieces, labelPieces]

/-- The direction of a key and the place of its nulls, as far as they are said. -/
def directionPieces (descending : Bool) (nullsFirst : Option Bool) : List Piece :=
  (if descending then [.word " DESC"] else []) ++
    nullsFirst.elim [] fun first => [.word (if first then " NULLS FIRST" else " NULLS LAST")]

theorem sound_directionPieces (descending : Bool) (nullsFirst : Option Bool) :
    Sound d (directionPieces descending nullsFirst) [] := by
  rcases descending with _ | _ <;> rcases nullsFirst with _ | _ | _ <;> first
      | exact .nil
      | exact .piece _
      | exact .word rfl (.piece _)

theorem quiet_directionPieces (descending : Bool) (nullsFirst : Option Bool) :
    Quiet d (directionPieces descending nullsFirst) := by
  rcases descending with _ | _ <;> rcases nullsFirst with _ | _ | _ <;> first
      | exact quiet_nil
      | exact quiet_word rfl _

theorem orderPieces_cons (t : Term) (descending : Bool) (nullsFirst : Option Bool)
    (rest : List (Term × Bool × Option Bool)) :
    orderPieces d ((t, descending, nullsFirst) :: rest) = t.pieces d ++ (directionPieces descending nullsFirst ++
      ((if rest.isEmpty then [] else [.word ", "]) ++ orderPieces d rest)) := by
  rcases nullsFirst with _ | _ | _ <;> simp [orderPieces, directionPieces]

theorem Sound.item {middle : List Piece} (first : Sound d left us) (second : Sound d middle []) (quiet : Quiet d middle)
    {α : Type} {rest : List α} (third : Sound d right vs) (empty : rest = [] → right = []) :
    Sound d (left ++ (middle ++ ((if rest.isEmpty then [] else [.word ", "]) ++ right))) (us ++ vs) := by
  cases rest with
  | nil =>
    rw [empty rfl] at third ⊢
    exact first.append (second.append third quiet_nil) (quiet.append quiet_nil)
  | cons =>
    exact first.append (second.append (.word rfl third) (quiet_word rfl _)) (quiet.append (quiet_word rfl _))

mutual

theorem sound_literalPieces (d : Dialect) : ∀ v : Value, Sound d (literalPieces d v) []
  | .array items => .cons _ (.word rfl ((sound_literalItems d items).ended rfl)) (quiet_word rfl _)
  | .null | .bool _ | .int _ | .float _ | .string _ | .bytes _ | .date _ | .timestamp _ => .piece _

theorem sound_literalItems (d : Dialect) : ∀ items : List Value, Sound d (literalItems d items) []
  | [] => .nil
  | [v] => sound_literalPieces d v
  | v :: w :: rest => (sound_literalPieces d v).append (.word rfl (sound_literalItems d (w :: rest))) (quiet_word rfl _)

end

/-- A symbol and its operand have nothing between them. -/
theorem Sound.sign (symbol : String) (inside : Sound d (operandPieces 8 t (t.pieces d)) us) :
    Sound d (.word symbol :: operandPieces 8 t (t.pieces d))
      ((if symbol.toList.getLast? = some '-' then [t] else []) ++ us) := by
  have last : (bare symbol).getLast? = some dash ↔ symbol.toList.getLast? = some '-' := by
    rw [bare, List.getLast?_map]
    cases symbol.toList.getLast? <;> simp [dash]
  have pieces : (∃ p ∈ (.word symbol :: operandPieces 8 t (t.pieces d) : List Piece), Twice dash (p.marks d)) ↔
      Twice dash (bare symbol) ∨ ∃ p ∈ operandPieces 8 t (t.pieces d), Twice dash (p.marks d) := by
    simp only [List.mem_cons, or_and_right, exists_or, exists_eq_left]
    rfl
  rw [Sound] at inside ⊢
  rw [pieces, marks_cons, twice_append, inside, Piece.marks, last]
  split
  next minus =>
    simp only [List.cons_append, List.nil_append, List.mem_cons, or_and_right, exists_or, exists_eq_left, minus,
      true_and, or_assoc]
    exact or_congr_right (or_congr_right or_comm)
  next other => simp only [List.nil_append, other, false_and, or_false, or_assoc]

end Combine

mutual

theorem Term.sound (d : Dialect) : ∀ t : Term, Sound d (t.pieces d) t.negated
  | .column none _ | .param .. | .star => .piece _
  | .column (some _) _ => .cons _ (.word rfl (.piece _)) (quiet_word rfl _)
  | .literal v => sound_literalPieces d v
  | .binary symbol left right => by
    rw [Term.pieces, List.append_assoc]
    exact ((Term.sound d left).operand _).append
      (.word rfl (.cons _ (.word rfl ((Term.sound d right).operand _)) (quiet_word rfl _))) (quiet_word rfl _)
  | .unary symbol operand => by
    rw [Term.pieces]
    split
    next same =>
      rw [same]
      exact .word rfl ((Term.sound d operand).operand _)
    next => exact .sign symbol ((Term.sound d operand).operand 8)
  | .suffixed operand symbol => ((Term.sound d operand).operand _).close (.word rfl (.piece _)) (quiet_word rfl _)
  | .function name distinct args => by
    have last : Sound d (termsPieces d args ++ [.word ")"]) (termsNegated args) := (sound_termsPieces d args).ended rfl
    cases distinct with
    | false => exact .cons _ (.word rfl last) (quiet_word rfl _)
    | true => exact .cons _ (.word rfl (.word rfl last)) (quiet_word rfl _)
  | .case branches otherwise => by
    rw [Term.pieces, Term.negated, List.append_assoc]
    exact .word rfl ((sound_branchesPieces d branches).append
      ((sound_optionPieces d rfl otherwise).ended rfl)
      (.append (quiet_optionPieces rfl otherwise) (quiet_word rfl _)))
  | .cast operand typeName =>
    .word rfl ((Term.sound d operand).close (.word rfl (.cons _ (.word rfl .nil) (quiet_word rfl _)))
      (quiet_word rfl _))
  | .substring text start length => by
    have parts {opening between last : String} (first : closesPlainly opening) (second : closesPlainly between)
        (second' : opensPlainly between) (third : closesPlainly last) (third' : opensPlainly last) :
        Sound d (.word opening :: text.pieces d ++ .word between :: start.pieces d ++ optionPieces d last length ++
          [.word ")"]) (text.negated ++ (start.negated ++ optionNegated length)) := by
      rw [List.append_assoc, List.append_assoc]
      exact .word first ((Term.sound d text).append (.word second ((Term.sound d start).append
        ((sound_optionPieces d third length).ended rfl) (.append (quiet_optionPieces third' length) (quiet_word rfl _))))
        (quiet_word second' _))
    rw [Term.pieces, Term.negated]
    split <;> exact parts rfl rfl rfl rfl rfl
  | .array items => .cons _ (.word rfl ((sound_termsPieces d items).ended rfl)) (quiet_word rfl _)
  | .item whole index => by
    rw [Term.pieces, List.append_assoc]
    refine ((Term.sound d whole).operand 9).append (.word rfl (.ended ?_ rfl)) (quiet_word rfl _)
    split
    · exact .cons _ (Term.sound d index).bracketed (quiet_word rfl _)
    · exact Term.sound d index
  | .exists negated query => by
    cases negated <;> exact .word rfl ((Query.sound d query).ended rfl)
  | .subquery query => (Query.sound d query).bracketed

theorem sound_termsPieces (d : Dialect) : ∀ ts : List Term, Sound d (termsPieces d ts) (termsNegated ts)
  | [] => .nil
  | [t] => (Term.sound d t).last
  | t :: u :: rest => (Term.sound d t).append (.word rfl (sound_termsPieces d (u :: rest))) (quiet_word rfl _)

theorem sound_optionPieces (d : Dialect) {keyword : String} (plain : closesPlainly keyword) :
    ∀ t : Option Term, Sound d (optionPieces d keyword t) (optionNegated t)
  | none => .nil
  | some t => .word plain (Term.sound d t)

theorem sound_branchesPieces (d : Dialect) :
    ∀ branches : List (Term × Term), Sound d (branchesPieces d branches) (branchesNegated branches)
  | [] => .nil
  | (condition, result) :: rest => by
    rw [branchesPieces, List.append_assoc]
    exact .word rfl ((Term.sound d condition).append (.word rfl ((Term.sound d result).append
      (sound_branchesPieces d rest) (quiet_branchesPieces rest))) (quiet_word rfl _))

theorem sound_tuplesPieces (d : Dialect) : ∀ rows : List (List Term), Sound d (tuplesPieces d rows) (tuplesNegated rows)
  | [] => .nil
  | [row] => (sound_termsPieces d row).bracketed.last
  | row :: next :: rest =>
    (sound_termsPieces d row).bracketed.append (.word rfl (sound_tuplesPieces d (next :: rest))) (quiet_word rfl _)

theorem Query.sound (d : Dialect) : ∀ q : Query, Sound d (q.pieces d) q.negated
  | .select block => Select.sound d block
  | .setOp op all inputs => sound_operandsPieces d (setOpKeyword d op all) inputs

theorem sound_operandsPieces (d : Dialect) (keyword : String) :
    ∀ inputs : List Query, Sound d (operandsPieces d keyword inputs) (queriesNegated inputs)
  | [] => .nil
  | [q] => (Query.sound d q).operandQuery.last
  | q :: next :: rest =>
    (Query.sound d q).operandQuery.append
      (.word (closesPlainly_lines keyword) (sound_operandsPieces d keyword (next :: rest)))
      (quiet_word (opensPlainly_lines keyword) _)

theorem Select.sound (d : Dialect) : ∀ s : Select, Sound d (s.pieces d) s.negated
  | ⟨projection, source, filter, groupBy, having, orderBy, offset, fetch⟩ => by
    have columns : Sound d (if projection.isEmpty then [.word "*"] else projectionPieces d projection)
        (projectionNegated projection) := by
      cases projection with
      | nil => exact .piece _
      | cons item rest => exact sound_projectionPieces d (item :: rest)
    have groups : Sound d (if groupBy.isEmpty then [] else .word "\nGROUP BY " :: termsPieces d groupBy)
        (termsNegated groupBy) := by
      cases groupBy with
      | nil => exact .nil
      | cons t rest => exact .word rfl (sound_termsPieces d (t :: rest))
    have order : Sound d (if orderBy.isEmpty then [] else .word "\nORDER BY " :: orderPieces d orderBy)
        (orderNegated orderBy) := by
      cases orderBy with
      | nil => exact .nil
      | cons item rest => exact .word rfl (sound_orderPieces d (item :: rest))
    -- Every clause that is there starts with its keyword, so none can go on with the dash of the one before.
    have quietOrder := (quiet_clause (d := d) (by rfl : opensPlainly "\nORDER BY ") orderBy.isEmpty
      (orderPieces d orderBy)).append (quiet_limitText d offset fetch)
    have quietHaving := (quiet_optionPieces (by rfl : opensPlainly "\nHAVING ") having).append quietOrder
    have quietGroups := (quiet_clause (by rfl : opensPlainly "\nGROUP BY ") groupBy.isEmpty
      (termsPieces d groupBy)).append quietHaving
    have quietFilter := (quiet_optionPieces (by rfl : opensPlainly "\nWHERE ") filter).append quietGroups
    have quietSource := (quiet_fromPieces source).append quietFilter
    rw [Select.pieces]
    simp only [List.append_assoc]
    exact .word rfl (columns.append ((sound_fromPieces d source).append ((sound_optionPieces d rfl filter).append
      (groups.append ((sound_optionPieces d rfl having).append (order.close (.piece _) (quiet_limitText d offset fetch))
        quietOrder) quietHaving) quietGroups) quietFilter) quietSource)

theorem sound_projectionPieces (d : Dialect) :
    ∀ items : List (Term × Option String), Sound d (projectionPieces d items) (projectionNegated items)
  | [] => .nil
  | (t, label) :: rest => by
    rw [projectionPieces_cons]
    refine (Term.sound d t).item (sound_labelPieces label) (quiet_labelPieces label) (sound_projectionPieces d rest) ?_
    rintro rfl
    rfl

theorem sound_orderPieces (d : Dialect) :
    ∀ items : List (Term × Bool × Option Bool), Sound d (orderPieces d items) (orderNegated items)
  | [] => .nil
  | (t, descending, nullsFirst) :: rest => by
    rw [orderPieces_cons]
    refine (Term.sound d t).item (sound_directionPieces descending nullsFirst)
      (quiet_directionPieces descending nullsFirst) (sound_orderPieces d rest) ?_
    rintro rfl
    rfl

theorem sound_fromPieces (d : Dialect) : ∀ source : Option Source, Sound d (fromPieces d source) (fromNegated source)
  | none => .nil
  | some source => .word rfl (Source.sound d source)

theorem Source.sound (d : Dialect) : ∀ s : Source, Sound d (s.pieces d) s.negated
  | .table path none => (sound_names rfl rfl path).close .nil quiet_nil
  | .table path (some label) => (sound_names rfl rfl path).close (sound_aliasPieces label) (quiet_aliasPieces label)
  | .derived query label => (Query.sound d query).bracketed.close (sound_aliasPieces label) (quiet_aliasPieces label)
  | .values rows label columns => by
    have names : Sound d (namesPieces columns ++ [.word ")"]) [] := (sound_names rfl rfl columns).ended rfl
    rw [Source.pieces]
    simp only [List.append_assoc]
    exact .word rfl ((sound_tuplesPieces d rows).close (.word rfl ((sound_aliasPieces label).close
      (.word rfl names) (quiet_word rfl _))) (quiet_word rfl _))
  | .join kind left right on => by
    have side : Sound d (if right.isJoin then bracketed (right.pieces d) else right.pieces d) right.negated := by
      split
      · exact (Source.sound d right).bracketed
      · exact Source.sound d right
    rw [Source.pieces, List.append_assoc]
    refine (Source.sound d left).append (.word rfl (.word ?_ (side.append (.word rfl (Term.sound d on))
      (quiet_word rfl _)))) (quiet_word rfl _)
    cases kind <;> rfl

end

theorem sound_assignments (d : Dialect) (assignments : List (String × Term)) :
    Sound d (separated ", " (assignments.map (assignmentPieces d))) (termsNegated (assignments.map Prod.snd)) := by
  have single (assignment : String × Term) : Sound d (assignmentPieces d assignment) assignment.2.negated :=
    .cons _ (.word rfl (Term.sound d assignment.2)) (quiet_word rfl _)
  induction assignments with
  | nil => exact .nil
  | cons first rest ih =>
    cases rest with
    | nil => simpa [separated, termsNegated] using single first
    | cons => exact (single first).append (.word rfl ih) (quiet_word rfl _)

/-- Dashes meet in a statement inside one of its pieces, or where the operand of a minus starts with one. -/
theorem Statement.sound (d : Dialect) (s : Statement) : Sound d (s.pieces d) s.negated := by
  cases s with
  | query q => exact Query.sound d q
  | insert table columns source =>
    have front {rest : List Piece} {us : List Term} (rows : Sound d rest us) : Sound d (.word "INSERT INTO " ::
        pathPieces table ++ .word " (" :: namesPieces columns ++ .word ")\n" :: rest) us := by
      rw [List.append_assoc]
      exact .word rfl ((sound_names rfl rfl table).append (.word rfl ((sound_names rfl rfl columns).append
        (.word rfl rows) (quiet_word rfl _))) (quiet_word rfl _))
    cases source with
    | values rows => exact front (.word rfl (sound_tuplesPieces d rows))
    | query q => exact front (Query.sound d q)
  | update table assignments filter =>
    rw [Statement.pieces, List.append_assoc]
    exact .word rfl ((sound_names rfl rfl table).append (.word rfl ((sound_assignments d assignments).append
      (sound_optionPieces d rfl filter) (quiet_optionPieces rfl filter))) (quiet_word rfl _))
  | delete table filter =>
    exact .word rfl ((sound_names rfl rfl table).append (sound_optionPieces d rfl filter)
      (quiet_optionPieces rfl filter))

/-! ### Operands that start with a dash -/

def startsWithDash (word : String) : Bool := word.toList.head? = some '-'

/-- Whether a term starts with a dash as the operand of a minus: it is a minus itself, a number with a sign or an item
of one, or the dialect's name for a function starts so. -/
def Term.isSigned (d : Dialect) : Term → Bool
  | .literal (.array _) | .array _ => startsWithDash (d.functionName "ARRAY")
  | .literal v => isSignedValue v
  | .unary symbol operand =>
    if symbol = "NOT" then false else if symbol = "" then operand.isSigned d else startsWithDash symbol
  | .function name _ _ => startsWithDash name
  | .item whole _ => decide (9 ≤ whole.precedence) && whole.isSigned d
  | _ => false

section Opens

variable {d : Dialect} {t : Term}

theorem opens_of_loose (loose : t.precedence < 8) : ¬t.Opens d := by
  rw [Term.Opens, operandPieces, if_pos loose]
  exact quiet_word rfl _

theorem opens_of_tight (tight : 8 ≤ t.precedence) : t.Opens d ↔ (marks d (t.pieces d)).head? = some dash := by
  rw [Term.Opens, operandPieces, if_neg (Nat.not_lt.2 tight)]

theorem head?_marks_word {word : String} {rest : List Piece} (quiet : Quiet d rest) :
    (marks d (.word word :: rest)).head? = some dash ↔ startsWithDash word := by
  rw [marks_cons, Piece.marks, startsWithDash, decide_eq_true_iff, ← head?_bare, List.head?_append]
  cases (bare word).head? with
  | none => exact iff_of_false quiet (Option.some_ne_none dash).symm
  | some => rfl

theorem quiet_identifier (quotes : d.quote.isSome) (name : String) (rest : List Piece) :
    Quiet d (.identifier name :: rest) := by
  obtain ⟨pair, found⟩ := Option.isSome_iff_exists.1 quotes
  have text : (d.quoteIdentifier name).toList = pair.1 :: (Text.double pair.2 name.toList ++ [pair.2]) := by
    rw [Dialect.quoteIdentifier, found]
    exact String.toList_ofList
  rw [Quiet, marks_cons, Piece.marks, if_pos quotes, quoted, text]
  exact fun same => Bool.noConfusion (congrArg Prod.snd (Option.some.inj same))

theorem quiet_param (index : Nat) (cast : Option String) : Quiet d [.param index cast] := by
  rw [Quiet, marks_cons, Piece.marks, marks, List.flatMap_nil, List.append_nil, Ne, head?_bare]
  cases cast <;> simp [Piece.text]

theorem precedence_binary (symbol : String) (left right : Term) : (Term.binary symbol left right).precedence < 8 := by
  rw [Term.precedence, binaryPrecedence]
  repeat' split
  all_goals decide

theorem opens_literal (v : Value) : (Term.literal v).Opens d ↔ (Term.literal v).isSigned d := by
  have single (v : Value) : (marks d [.literal v]).head? = (valueMarks v).head? := by
    rw [marks_cons, marks, List.flatMap_nil, List.append_nil, Piece.marks]
  cases v with
  | array => exact head?_marks_word (quiet_word rfl _)
  | null | bool | int | float | string | bytes | date | timestamp =>
    change (marks d [.literal _]).head? = some dash ↔ isSignedValue _ = true
    rw [single]
    exact (valueMarks_dash (by simp)).2

theorem opens_unary {symbol : String} {operand : Term} (other : symbol ≠ "NOT")
    (inside : operand.Opens d ↔ operand.isSigned d) :
    (Term.unary symbol operand).Opens d ↔ (Term.unary symbol operand).isSigned d := by
  have tight : 8 ≤ (Term.unary symbol operand).precedence := by rw [Term.precedence, if_neg other]
  rw [opens_of_tight tight, Term.pieces, if_neg other, Term.isSigned, if_neg other, marks_cons, Piece.marks,
    List.head?_append]
  split
  next empty =>
    rw [empty]
    exact inside
  next word =>
    obtain ⟨c, tail, text⟩ := List.exists_cons_of_ne_nil fun empty => word (String.toList_eq_nil_iff.1 empty)
    rw [startsWithDash, decide_eq_true_iff, ← head?_bare, bare, text]
    rfl

theorem opens_iff_isSigned (quotes : d.quote.isSome) : ∀ t : Term, t.Opens d ↔ t.isSigned d
  | .column none _ | .column (some _) _ => iff_of_false (quiet_identifier quotes _ _) nofun
  | .param .. => iff_of_false (quiet_param _ _) nofun
  | .literal v => opens_literal v
  | .binary symbol left right => iff_of_false (opens_of_loose (precedence_binary symbol left right)) nofun
  | .unary symbol operand => by
    by_cases same : symbol = "NOT"
    · rw [same]
      exact iff_of_false (opens_of_loose (by exact Nat.le_of_ble_eq_true rfl)) nofun
    · exact opens_unary same (opens_iff_isSigned quotes operand)
  | .suffixed operand symbol => iff_of_false (opens_of_loose (by exact Nat.le_of_ble_eq_true rfl)) nofun
  | .function name distinct args => by
    exact head?_marks_word (quiet_word rfl _)
  | .star | .case .. | .cast .. | .subquery _ => iff_of_false (quiet_word rfl _) nofun
  | .substring text start length => by
    rw [opens_of_tight (by exact Nat.le_of_ble_eq_true rfl), Term.pieces]
    split <;> exact iff_of_false (quiet_word rfl _) nofun
  | .array items => head?_marks_word (quiet_word rfl _)
  | .item whole index => by
    have bracket (rest : List Piece) (pieces : List Piece) :
        (marks d (pieces ++ .word "[" :: rest)).head? = some dash ↔ (marks d pieces).head? = some dash := by
      have quiet : Quiet d (.word "[" :: rest) := quiet_word rfl rest
      rw [marks_append, List.head?_append]
      cases (marks d pieces).head? with
      | none => exact iff_of_false quiet (Option.some_ne_none dash).symm
      | some => rfl
    rw [opens_of_tight (by exact Nat.le_of_ble_eq_true rfl), Term.pieces, List.append_assoc, Term.isSigned]
    refine (bracket _ _).trans ?_
    rw [operandPieces, Bool.and_eq_true, decide_eq_true_iff]
    split
    next loose => exact iff_of_false (quiet_word rfl _) fun both => Nat.not_le.2 loose both.1
    next tight =>
      have inside := opens_iff_isSigned quotes whole
      rw [opens_of_tight (by omega)] at inside
      rw [inside, and_iff_right (Nat.not_lt.1 tight)]
  | .exists negated query => by
    cases negated <;> exact iff_of_false (quiet_word rfl _) nofun

end Opens

end FederatedQuery.Sql
