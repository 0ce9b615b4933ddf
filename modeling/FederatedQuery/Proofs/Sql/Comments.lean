import FederatedQuery.Plan.Build
import FederatedQuery.Proofs.Plan.Feed
import FederatedQuery.Proofs.Sql.Negations
import FederatedQuery.Proofs.Sql.Words

/-!
Comments in the statement of a plan. Two dashes in a row start one, and they come from a word of the dialect or from a
minus in front of another.
-/
namespace FederatedQuery.Sql

section Queries

variable {d : Dialect}

theorem neat_projection (plain : WordsPlain d) {items : List (Term × Option String)}
    (each : ∀ item ∈ items, Neat d (item.1.pieces d)) : Neat d (projectionPieces d items) := by
  induction items with
  | nil => exact neat_nil
  | cons item rest ih =>
    obtain ⟨t, label⟩ := item
    obtain ⟨here, later⟩ := List.forall_mem_cons.1 each
    have named : Neat d (labelPieces d label) := by
      cases label with
      | none => exact neat_nil
      | some label => exact neat_aliasPieces plain label
    rw [projectionPieces_cons]
    refine here.append (named.append (.append ?_ (ih later)))
    split
    · exact neat_nil
    · exact neat_word (by decide) neat_nil

theorem neat_order {items : List (Term × Bool × Option Bool)} (each : ∀ item ∈ items, Neat d (item.1.pieces d)) :
    Neat d (orderPieces d items) := by
  induction items with
  | nil => exact neat_nil
  | cons item rest ih =>
    obtain ⟨t, descending, nullsFirst⟩ := item
    obtain ⟨here, later⟩ := List.forall_mem_cons.1 each
    have direction : Neat d (directionPieces descending nullsFirst) := by
      rcases descending with _ | _ <;> rcases nullsFirst with _ | _ | _ <;> first
          | exact neat_nil
          | exact neat_word (by decide) neat_nil
          | exact neat_word (by decide) (neat_word (by decide) neat_nil)
    rw [orderPieces_cons]
    refine here.append (direction.append (.append ?_ (ih later)))
    split
    · exact neat_nil
    · exact neat_word (by decide) neat_nil

theorem neat_tuples {rows : List (List Term)} (each : ∀ row ∈ rows, ∀ t ∈ row, Neat d (t.pieces d)) :
    Neat d (tuplesPieces d rows) := by
  induction rows with
  | nil => exact neat_nil
  | cons row rest ih =>
    obtain ⟨here, later⟩ := List.forall_mem_cons.1 each
    cases rest with
    | nil => exact (neat_terms here).bracketed
    | cons => exact (neat_terms here).bracketed.append (neat_word (by decide) (ih later))

theorem neat_setOp (plain : WordsPlain d) (op : SetOp) (all : Bool) {inputs : List Query}
    (each : ∀ q ∈ inputs, Neat d (q.pieces d)) : Neat d ((Query.setOp op all inputs).pieces d) := by
  have operand {q : Query} (inside : Neat d (q.pieces d)) : Neat d (operandQueryPieces d q (q.pieces d)) := by
    rw [operandQueryPieces]
    split
    · exact inside
    · split
      · exact inside.bracketed
      · exact neat_word (by decide) (inside.append (neat_word (by decide) neat_nil))
  induction inputs with
  | nil => exact neat_nil
  | cons q rest ih =>
    obtain ⟨here, later⟩ := List.forall_mem_cons.1 each
    cases rest with
    | nil => exact operand here
    | cons => exact (operand here).append (neat_word (not_twice_setOpKeyword plain op all) (ih later))

theorem neat_select (plain : WordsPlain d) {s : Select} (source : ∀ source ∈ s.source, Neat d (source.pieces d))
    (projection : ∀ item ∈ s.projection, Neat d (item.1.pieces d)) (filter : ∀ t ∈ s.filter, Neat d (t.pieces d))
    (groupBy : ∀ t ∈ s.groupBy, Neat d (t.pieces d)) (having : ∀ t ∈ s.having, Neat d (t.pieces d))
    (orderBy : ∀ item ∈ s.orderBy, Neat d (item.1.pieces d)) : Neat d (s.pieces d) := by
  obtain ⟨columns, from', condition, keys, test, order, offset, fetch⟩ := s
  have columns' : Neat d (if columns.isEmpty then [.word "*"] else projectionPieces d columns) := by
    split
    · exact neat_word (by decide) neat_nil
    · exact neat_projection plain projection
  have from'' : Neat d (fromPieces d from') := by
    cases from' with
    | none => exact neat_nil
    | some from' => exact neat_word (by decide) (source from' rfl)
  have keys' : Neat d (if keys.isEmpty then [] else .word "\nGROUP BY " :: termsPieces d keys) := by
    split
    · exact neat_nil
    · exact neat_word (by decide) (neat_terms groupBy)
  have order' : Neat d (if order.isEmpty then [] else .word "\nORDER BY " :: orderPieces d order) := by
    split
    · exact neat_nil
    · exact neat_word (by decide) (neat_order orderBy)
  have condition' : Neat d (optionPieces d "\nWHERE " condition) := neat_option (by decide) filter
  have test' : Neat d (optionPieces d "\nHAVING " test) := neat_option (by decide) having
  have limit : Neat d [.word (limitText d offset fetch)] := neat_word (not_twice_limitText offset fetch) neat_nil
  exact neat_word (by decide)
    ((((((columns'.append from'').append condition').append keys').append test').append order').append limit)

theorem neat_unordered (plain : WordsPlain d) {projection : List (Term × Option String)} {source : Option Source}
    {filter : Option Term} (columns : ∀ item ∈ projection, Neat d (item.1.pieces d))
    (sources : ∀ table ∈ source, Neat d (table.pieces d)) (condition : ∀ t ∈ filter, Neat d (t.pieces d)) :
    Neat d (Select.pieces d { Select.empty with projection, source, filter }) :=
  neat_select plain sources columns condition nofun nofun nofun

end Queries

section Fragments

variable {d : Dialect} {f made : Fragment} {next after : Nat} {names : List String} {op : SetOp} {all : Bool}
  {b : Block} {p : Plan} {s : Statement}

/-- The source and the terms of a block are neat. -/
structure Block.Neat (d : Dialect) (b : Block) : Prop where
  source : Sql.Neat d (b.source.pieces d)
  fields : ∀ t ∈ b.fields, Sql.Neat d (t.pieces d)
  others : ∀ t ∈ b.others, Sql.Neat d (t.pieces d)

def Fragment.Neat (d : Dialect) : Fragment → Prop
  | .block b => b.Neat d
  | .finished query _ => Sql.Neat d (query.pieces d)

theorem neat_ofSource {source : Source} {fields : List Term} (first : Neat d (source.pieces d))
    (second : ∀ t ∈ fields, Neat d (t.pieces d)) (qualifiers names : List String) :
    (Block.ofSource source qualifiers fields names).Neat d :=
  ⟨first, second, nofun⟩

theorem neat_inputs {inputs : List Query} (neat : Neat d ((Query.setOp op all inputs).pieces d)) :
    ∀ q ∈ inputs, Neat d (q.pieces d) := by
  have operand {q : Query} (outer : Neat d (operandQueryPieces d q (q.pieces d))) : Neat d (q.pieces d) := by
    intro p mem
    refine outer p ?_
    rw [operandQueryPieces]
    split
    · exact mem
    · split <;> simp [bracketed, mem]
  induction inputs with
  | nil => exact List.forall_mem_nil _
  | cons q rest ih =>
    cases rest with
    | nil =>
      intro q' mem
      rw [List.mem_singleton.1 mem]
      exact operand neat
    | cons =>
      refine List.forall_mem_cons.2 ⟨operand fun p mem => neat p (List.mem_append_left _ mem), ?_⟩
      exact ih fun p mem => neat p (List.mem_append_right _ (.tail _ mem))

theorem neat_flattened {first : Bool} {q : Query} (neat : Neat d (q.pieces d)) :
    ∀ q' ∈ flattened op all first q, Neat d (q'.pieces d) := by
  have itself : ∀ q' ∈ [q], Neat d (q'.pieces d) := fun q' mem => List.mem_singleton.1 mem ▸ neat
  cases q with
  | select => exact itself
  | setOp =>
    rw [flattened]
    split
    · exact neat_inputs neat
    · exact itself

variable (plain : WordsPlain d)

include plain

theorem Fragment.Neat.toQuery (neat : f.Neat d) : Sql.Neat d (f.toQuery.pieces d) := by
  cases f with
  | finished => exact neat
  | block b =>
    obtain ⟨projection, query, columns⟩ := exists_toSelect b
    rw [Fragment.toQuery, query]
    have others := neat.others
    simp only [Block.others, List.mem_append, or_imp, forall_and, Option.mem_toList, List.forall_mem_map] at others
    refine neat_select plain ?_ (fun item mem => neat.fields _ (columns item mem)) others.1.1.1 others.1.1.2 others.1.2
      others.2
    rintro source ⟨⟩
    exact neat.source

theorem neat_plainColumns (names : List String) : ∀ t ∈ plainColumns names, Neat d (t.pieces d) := by
  intro t mem
  obtain ⟨name, -, rfl⟩ := List.mem_map.1 mem
  exact neat_column plain none name

theorem Fragment.Neat.offers (neat : f.Neat d) (offers : f.Offers next b after) : b.Neat d := by
  cases offers with
  | own => exact neat
  | derived =>
    exact neat_ofSource ((neat.toQuery plain).bracketed.append (neat_aliasPieces plain _)) (neat_plainColumns plain _)
      _ _

theorem neat_anyOrder : Neat d (anyOrder.1.pieces d) := by
  refine Neat.bracketed (neat_unordered plain (List.forall_mem_singleton.2 (neat_literalPieces plain .null)) ?_ ?_)
  · exact nofun
  · exact nofun

theorem Fragment.Neat.follows (neat : f.Neat d) {b' : Block} (offers : f.Offers next b after)
    (follows : b.Follows d b') : b'.Neat d := by
  have block := neat.offers plain offers
  obtain ⟨fields, others⟩ := follows.terms (inherited_neat plain) (neat_anyOrder plain) block.fields block.others
  exact ⟨follows.source ▸ block.source, fields, others⟩

theorem neat_side (neat : f.Neat d) (taken : List String) {side : Side} (made : f.side taken next = (side, after)) :
    Neat d (side.source.pieces d) ∧ ∀ t ∈ side.fields, Neat d (t.pieces d) := by
  have qualify (qualifier : String) {fields : List Term} (each : ∀ t ∈ fields, Neat d (t.pieces d)) :
      ∀ t ∈ fields.map (qualified qualifier), Neat d (t.pieces d) := by
    intro t mem
    obtain ⟨u, inside, rfl⟩ := List.mem_map.1 mem
    rw [qualified.eq_def]
    split
    · exact neat_column plain _ _
    · exact each u inside
  obtain ⟨b, middle, bare, ⟨_, _, _, _, -, same⟩ | ⟨path, label, -, -, same⟩ | ⟨-, -, same⟩⟩ := side_cases taken f next
  all_goals
    have block := neat.offers plain (offers_of_bare bare).1
    rw [same] at made
    cases made
  · exact ⟨block.source, block.fields⟩
  · exact ⟨(neat_names plain (by decide) path).append (neat_aliasPieces plain _), qualify _ block.fields⟩
  · exact ⟨block.source, qualify _ block.fields⟩

theorem neat_joinFragment {kind : JoinKind} {on : Expr} {left right : Fragment}
    (first : left.Neat d) (second : right.Neat d)
    (written : joinFragment d kind on names left right next = .ok (made, after)) : made.Neat d := by
  obtain ⟨l, middle, r, t, one, other, translated, result⟩ := joinFragment_cases written
  obtain ⟨sourceLeft, fieldsLeft⟩ := neat_side plain first _ one
  obtain ⟨sourceRight, fieldsRight⟩ := neat_side plain second _ other
  have fields : ∀ t ∈ l.fields ++ r.fields, Neat d (t.pieces d) :=
    fun t mem => (List.mem_append.1 mem).elim (fieldsLeft t) (fieldsRight t)
  have condition := (inherited_neat plain).scalarTerm fields translated
  rcases result with ⟨-, rfl⟩ | ⟨-, rfl⟩
  · refine ⟨sourceLeft, fieldsLeft, fun u mem => ?_⟩
    have inside : Neat d ((r.test t).pieces d) := by
      refine neat_unordered plain nofun ?_ ?_
      · rintro source ⟨⟩
        exact sourceRight
      · rintro u ⟨⟩
        exact condition
    simp only [Block.others, Block.ofSource, Option.toList_some, List.map_nil, List.append_nil, Option.toList_none,
      List.mem_singleton] at mem
    rw [mem]
    cases kind <;> exact neat_word (by decide) (inside.append (neat_word (by decide) neat_nil))
  · refine neat_ofSource ?_ fields _ _
    have side : Neat d (if r.source.isJoin then bracketed (r.source.pieces d) else r.source.pieces d) := by
      split
      · exact sourceRight.bracketed
      · exact sourceRight
    have keyword : ¬Twice '-' (joinKeyword kind).toList := by cases kind <;> decide
    rw [Source.pieces, List.append_assoc]
    exact sourceLeft.append (neat_word (by decide) (neat_word keyword (side.append (neat_word (by decide) condition))))

theorem neat_literalSelect (names : List String) {filter : Option Term} {row : List Term}
    (each : ∀ t ∈ row, Neat d (t.pieces d)) (condition : ∀ t ∈ filter, Neat d (t.pieces d)) :
    Neat d ((literalSelect d names filter row).pieces d) := by
  refine neat_unordered plain (fun item mem => ?_) (fun source mem => ?_) condition
  · rw [← List.map_uncurry_zip_eq_zipWith, List.mem_map] at mem
    obtain ⟨⟨field, name⟩, both, rfl⟩ := mem
    exact each field (List.of_mem_zip both).1
  · obtain ⟨dual, -, rfl⟩ := Option.map_eq_some_iff.1 mem
    exact (neat_names plain (by decide) [dual]).append neat_nil

theorem neat_valuesFragment {rowType : RowType} {rows : List Row}
    (written : valuesFragment d rowType rows next = .ok (made, after)) : made.Neat d := by
  obtain ⟨terms, literals, written⟩ := bind_eq_ok.1 written
  have inherited := inherited_neat plain
  have each := inherited.literalRows literals
  cases terms with
  | nil =>
    cases written
    refine neat_literalSelect plain _ (fun t mem => ?_) ?_
    · obtain ⟨field, -, rfl⟩ := List.mem_map.1 mem
      exact inherited.cast _ (inherited.literal _)
    · rintro t ⟨⟩
      exact inherited.binary (by decide) (inherited.literal _) (inherited.literal _)
  | cons row rest =>
    have unfiltered : ∀ t ∈ (none : Option Term), Neat d (t.pieces d) := nofun
    dsimp only at written
    split at written
    · cases written
      refine neat_ofSource ?_ (neat_plainColumns plain _) _ _
      have names := (neat_names plain (by decide : ¬Twice '-' ", ".toList) rowType.names).append
        (neat_word (by decide : ¬Twice '-' ")".toList) neat_nil)
      rw [Source.pieces]
      simp only [List.append_assoc]
      exact neat_word (by decide) ((neat_tuples each).append (neat_word (by decide) ((neat_aliasPieces plain _).append
        (neat_word (by decide) names))))
    · split at written
      · cases written
        exact neat_literalSelect plain _ (each row (.head _)) unfiltered
      · cases written
        refine neat_setOp plain _ _ fun q mem => ?_
        obtain ⟨terms, inside, rfl⟩ := List.mem_map.1 mem
        exact neat_literalSelect plain _ (each terms inside) unfiltered

theorem neat_setOpFragment {rest : List Fragment} (first : f.Neat d)
    (others : ∀ g ∈ rest, g.Neat d) : (setOpFragment op all names f rest).Neat d := by
  rw [setOpFragment]
  split
  · exact first
  · refine neat_setOp plain op all fun q mem => ?_
    rcases List.mem_append.1 mem with mem | mem
    · exact neat_flattened (first.toQuery plain) q mem
    · obtain ⟨g, inside, mem⟩ := List.mem_flatMap.1 mem
      exact neat_flattened ((others g inside).toQuery plain) q mem

theorem neat_fragment (written : fragment d p next = .ok (f, after)) : f.Neat d := by
  induction p using Plan.induction generalizing next f after with
  | step p ih =>
    cases p with
    | scan h table =>
      cases written
      exact neat_ofSource ((neat_names plain (by decide) table.path).append neat_nil) (neat_plainColumns plain _) _ _
    | values => exact neat_valuesFragment plain written
    | calculate h program input =>
      obtain ⟨⟨f, middle⟩, made, written⟩ := bind_eq_ok.1 written
      have inner := ih input (.head _) made
      rcases programFragment_follows written with ⟨-, rfl, -⟩ | ⟨-, b, b', offers, rfl, follows, -⟩
      · cases f with
        | block => exact ⟨inner.source, inner.fields, inner.others⟩
        | finished => exact inner
      · exact inner.follows plain offers follows
    | aggregate h group calls input =>
      obtain ⟨⟨f, middle⟩, made, written⟩ := bind_eq_ok.1 written
      obtain ⟨b, b', offers, rfl, follows, -⟩ := aggregateFragment_follows written
      exact (ih input (.head _) made).follows plain offers follows
    | join h kind on left right =>
      obtain ⟨⟨l, middle⟩, first, written⟩ := bind_eq_ok.1 written
      obtain ⟨⟨r, last⟩, second, written⟩ := bind_eq_ok.1 written
      exact neat_joinFragment plain (ih left (.head _) first) (ih right (.tail _ (.head _)) second) written
    | setOp h op all first rest =>
      obtain ⟨⟨f, middle⟩, made, written⟩ := bind_eq_ok.1 written
      obtain ⟨⟨fs, last⟩, others, written⟩ := bind_eq_ok.1 written
      cases written
      refine neat_setOpFragment plain (ih first (.head _) made) fun g mem => ?_
      have each := forall₂_fragments (R := fun _ f => f.Neat d)
        (fun q inside next f after here => ih q (.tail _ inside) here) others
      obtain ⟨q, -, neat⟩ := exists_of_forall₂_right each mem
      exact neat
    | sort h collation offset fetch input =>
      obtain ⟨⟨f, middle⟩, made, written⟩ := bind_eq_ok.1 written
      obtain ⟨b, b', offers, rfl, follows, -⟩ := sortFragment_follows written
      exact (ih input (.head _) made).follows plain offers follows
    | modify | collect | converter => cases written

theorem neat_assignments {columns : List String} {changes : List (Nat × Expr)}
    {assignments : List (String × Term)} (written : changes.mapM (assignmentTerm d columns) = .ok assignments) :
    Neat d (separated ", " (assignments.map (assignmentPieces d))) := by
  refine neat_separated (by decide) fun pieces mem => ?_
  obtain ⟨assignment, inside, rfl⟩ := List.mem_map.1 mem
  have here := (inherited_neat plain).assignmentTerms (neat_plainColumns plain _) written assignment inside
  exact neat_identifier plain _ (neat_word (by decide) here)

theorem neat_modification {table : Table} {op : ModifyOp} {input : Plan}
    (written : modification d table op input = .ok s) : Neat d (s.pieces d) := by
  have path := neat_names plain (by decide : ¬Twice '-' ".".toList) table.path
  have columns := neat_names plain (by decide : ¬Twice '-' ", ".toList) (tableColumns table)
  cases op with
  | insert =>
    obtain ⟨source, found, written⟩ := bind_eq_ok.1 written
    cases written
    have front {rows : List Piece} (neat : Neat d rows) : Neat d (.word "INSERT INTO " :: pathPieces table.path ++
        .word " (" :: namesPieces (tableColumns table) ++ .word ")\n" :: rows) := by
      rw [List.append_assoc]
      exact neat_word (by decide) (path.append (neat_word (by decide) (columns.append (neat_word (by decide) neat))))
    rcases insertSource_cases found with ⟨h, rows, terms, rfl, literals, rfl⟩ | ⟨f, after, made, rfl⟩
    · exact front (neat_word (by decide) (neat_tuples ((inherited_neat plain).literalRows literals)))
    · exact front ((neat_fragment plain made).toQuery plain)
  | update =>
    obtain ⟨test, -, written⟩ := bind_eq_ok.1 written
    obtain ⟨assignments, assigned, written⟩ := bind_eq_ok.1 written
    obtain ⟨filter, filtered, written⟩ := bind_eq_ok.1 written
    cases written
    rw [Statement.pieces, List.append_assoc]
    exact neat_word (by decide) (path.append (neat_word (by decide) ((neat_assignments plain assigned).append
      (neat_option (by decide) ((inherited_neat plain).conditionTerm (neat_plainColumns plain _) filtered)))))
  | delete =>
    obtain ⟨test, -, written⟩ := bind_eq_ok.1 written
    obtain ⟨filter, filtered, written⟩ := bind_eq_ok.1 written
    cases written
    exact neat_word (by decide) (path.append (neat_option (by decide)
      ((inherited_neat plain).conditionTerm (neat_plainColumns plain _) filtered)))

/-- The statement of a plan has two dashes in a row in none of its pieces, if the dialect has no word with them. -/
theorem neat_statement (written : statement d p = .ok s) : Neat d (s.pieces d) := by
  rcases statement_cases written with ⟨f, after, made, rfl⟩ | ⟨h, table, op, input, rfl, changed⟩
  · exact (neat_fragment plain made).toQuery plain
  · exact neat_modification plain changed

end Fragments

/-- Two dashes in a row start a comment outside of strings and quoted names. In the text of a plan that the dialect
takes they stand exactly where a word of the dialect has them itself, and where a minus has an operand that starts with
one: another minus, a number with a sign, or an item of one. -/
theorem comment_prepare_iff (d : Dialect) (quotes : d.quote.isSome) (p : Plan) (q : Prepared)
    (accepted : prepare d p = .ok q) :
    ∃ s, statement d p = .ok s ∧ (marks d (s.pieces d)).map Prod.fst = q.text.toList ∧
      (Twice dash (marks d (s.pieces d)) ↔
        (∃ piece ∈ s.pieces d, Twice dash (piece.marks d)) ∨ ∃ t ∈ s.negated, t.isSigned d) ∧
      ((∃ piece ∈ s.pieces d, Twice dash (piece.marks d)) → ∃ word ∈ dialectWords d, Twice '-' word.toList) := by
  obtain ⟨s, written, accepted⟩ := bind_eq_ok.1 accepted
  cases accepted
  refine ⟨s, written, fst_marks d (s.pieces d), ?_, ?_⟩
  · have sound := Statement.sound d s
    simp only [Sound, opens_iff_isSigned quotes] at sound
    exact sound
  · rintro ⟨piece, mem, twice⟩
    by_contra clean
    have plain : WordsPlain d := ⟨quotes, fun word given inside => clean ⟨word, given, inside⟩⟩
    exact neat_statement plain written piece mem twice

/-- The negation of a negation. No word of the dialect has a dash. -/
theorem comment_prepare_iff_negation :
    let scan := Plan.ofTable (Table.named "t" ⟨[⟨"a", .integer, false⟩]⟩)
    let negated (e : Expr) := Expr.call .negate [e] .integer
    let twice := negated (negated (.ref 0 .integer false))
    let p := Plan.calculate scan.head ⟨scan.rowType, [twice], none, scan.rowType⟩ scan
    Dialect.ansi.quote.isSome ∧ ∃ q s, prepare .ansi p = .ok q ∧ statement .ansi p = .ok s ∧
      Twice dash (marks .ansi (s.pieces .ansi)) ∧ ∃ t ∈ s.negated, t.isSigned .ansi := by
  intro scan negated twice p
  obtain ⟨s, written, -, meets, -⟩ := comment_prepare_iff .ansi rfl p _ rfl
  cases written
  have signed : (Term.unary "-" (.column none "a")).isSigned .ansi := rfl
  exact ⟨rfl, _, _, rfl, rfl, meets.2 (.inr ⟨_, List.mem_cons_self, signed⟩), _, List.mem_cons_self, signed⟩

example : ∀ d ∈ Dialect.presets, d.quote.isSome ∧ ∀ word ∈ dialectWords d, ¬Twice '-' word.toList := by decide

end FederatedQuery.Sql
