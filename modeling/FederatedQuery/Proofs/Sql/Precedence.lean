import FederatedQuery.Proofs.Sql.Arithmetic
import FederatedQuery.Proofs.Text.Lexemes
import FederatedQuery.Proofs.Value.Key
import FederatedQuery.Sql.Presets

/-!
Arithmetic in the text of a query, read again with the precedence of its operators, where operators of one precedence
group from the left. The term that is read is the term that was written, regrouped: the brackets that are left out lead
back to the same value exactly where the term is safe.
-/
namespace FederatedQuery.Sql

/-- A column or an integer in arithmetic. -/
inductive Atom where
  | column (qualifier : Option String) (name : String)
  | literal (i : Int64)

inductive Token where
  | opening | closing
  | symbol (op : ArithmeticOp)
  | atom (a : Atom)

namespace Arithmetic

/-! ### From tokens to terms -/

/-- What a reader has seen before the operand it is in. -/
inductive Pending where
  | bracket
  | operand (left : Arithmetic Atom) (op : ArithmeticOp)

/-- Gives an operand to the operators in front of it that bind at least as tightly as the next one. -/
def collapse (next : Nat) : List Pending → Arithmetic Atom → List Pending × Arithmetic Atom
  | .operand left op :: rest, t =>
    if next ≤ op.precedence then collapse next rest (node op left t) else (.operand left op :: rest, t)
  | .bracket :: rest, t => (.bracket :: rest, t)
  | [], t => ([], t)

/-- A reader waits for an operand, or has one and waits for an operator. -/
structure Reading where
  pending : List Pending
  operand : Option (Arithmetic Atom)

namespace Reading

def step : Reading → Token → Option Reading
  | ⟨pending, none⟩, .opening => some ⟨.bracket :: pending, none⟩
  | ⟨pending, none⟩, .atom a => some ⟨pending, some (leaf a)⟩
  | ⟨pending, some t⟩, .symbol op =>
    let (pending, t) := collapse op.precedence pending t
    some ⟨.operand t op :: pending, none⟩
  | ⟨pending, some t⟩, .closing => match collapse 0 pending t with
    | (.bracket :: pending, t) => some ⟨pending, some t⟩
    | _ => none
  | _, _ => none

def result? : Reading → Option (Arithmetic Atom)
  | ⟨_, none⟩ => none
  | ⟨pending, some t⟩ => match collapse 0 pending t with
    | ([], t) => some t
    | _ => none

end Reading

def ofTokens? (tokens : List Token) : Option (Arithmetic Atom) :=
  (tokens.foldlM Reading.step ⟨[], none⟩).bind Reading.result?

/-- A term as an operand, in brackets if it binds more loosely than the place asks for. -/
def operandTokens (least : Nat) (t : Arithmetic Atom) (tokens : List Token) : List Token :=
  if t.precedence < least then .opening :: tokens ++ [.closing] else tokens

/-- The tokens of a term with brackets around every right operand of the same precedence. -/
def strictTokens : Arithmetic Atom → List Token
  | leaf a => [.atom a]
  | node op left right =>
    operandTokens op.precedence left left.strictTokens ++ .symbol op ::
      operandTokens (op.precedence + 1) right right.strictTokens

/-- The tokens of a term with the brackets that the text has. -/
def tokens : Arithmetic Atom → List Token
  | leaf a => [.atom a]
  | node op left right =>
    operandTokens op.precedence left left.tokens ++ .symbol op ::
      operandTokens (if isAssociative op.symbol then op.precedence else op.precedence + 1) right right.tokens

/-- The operator in front binds more loosely than an operand that gets no brackets. -/
def Looser (least : Nat) : List Pending → Prop
  | .operand _ op :: _ => op.precedence < least
  | _ => True

variable {least : Nat} {pending : List Pending}

theorem collapse_of_looser (looser : Looser least pending) (t : Arithmetic Atom) :
    collapse least pending t = (pending, t) := by
  cases pending with
  | nil => rfl
  | cons first rest =>
    cases first with
    | bracket => rfl
    | operand => exact if_neg (Nat.not_le.2 looser)

theorem Looser.mono {tighter : Nat} (looser : Looser least pending) (le : least ≤ tighter) :
    Looser tighter pending := by
  cases pending with
  | nil => trivial
  | cons first rest =>
    cases first with
    | bracket => trivial
    | operand => exact Nat.lt_of_lt_of_le looser le

section Step

variable {pending pending' : List Pending} {t t' : Arithmetic Atom}

theorem step_symbol {op : ArithmeticOp} (ready : collapse op.precedence pending t = (pending', t')) :
    Reading.step ⟨pending, some t⟩ (.symbol op) = some ⟨.operand t' op :: pending', none⟩ := by
  rw [Reading.step, ready]

theorem step_closing (ready : collapse 0 pending t = (.bracket :: pending', t')) :
    Reading.step ⟨pending, some t⟩ .closing = some ⟨pending', some t'⟩ := by
  rw [Reading.step, ready]

end Step

/-- From a state that waits for an operand, the tokens lead to one that has the term, up to operators of at least its
precedence that are still to be given their right operand. -/
def Reads (tokens : List Token) (least : Nat) (t : Arithmetic Atom) : Prop :=
  ∀ pending, Looser least pending → ∃ pending' t',
    tokens.foldlM Reading.step ⟨pending, none⟩ = some ⟨pending', some t'⟩ ∧
      ∀ next ≤ least, collapse next pending' t' = collapse next pending t

variable {t : Arithmetic Atom}

theorem Reads.operand {tokens : List Token} (reads : Reads tokens t.precedence t) (least : Nat) :
    Reads (operandTokens least t tokens) least t := by
  intro pending looser
  rw [operandTokens]
  split
  next loose =>
    obtain ⟨pending', t', run, same⟩ := reads (.bracket :: pending) trivial
    refine ⟨pending, t, ?_, fun _ _ => rfl⟩
    rw [List.foldlM_append]
    change ((tokens.foldlM Reading.step ⟨.bracket :: pending, none⟩).bind _) = _
    rw [run, Option.bind_some, List.foldlM_cons, step_closing (same 0 (Nat.zero_le _))]
    rfl
  next tight =>
    have le := Nat.not_lt.1 tight
    obtain ⟨pending', t', run, same⟩ := reads pending (looser.mono le)
    exact ⟨pending', t', run, fun next below => same next (below.trans le)⟩

theorem reads_strictTokens (t : Arithmetic Atom) : Reads t.strictTokens t.precedence t := by
  induction t with
  | leaf a => exact fun pending _ => ⟨pending, leaf a, rfl, fun _ _ => rfl⟩
  | node op left right first second =>
    intro pending looser
    obtain ⟨pendingLeft, leftRead, runLeft, sameLeft⟩ := first.operand op.precedence pending looser
    have ready := (sameLeft _ (Nat.le_refl _)).trans (collapse_of_looser looser left)
    -- The operator waits for its right operand, which binds more tightly.
    obtain ⟨pendingRight, rightRead, runRight, sameRight⟩ :=
      second.operand (op.precedence + 1) (.operand left op :: pending) (Nat.lt_succ_self _)
    refine ⟨pendingRight, rightRead, ?_, fun next below => ?_⟩
    · rw [strictTokens, List.foldlM_append, runLeft]
      change (List.foldlM Reading.step ⟨pendingLeft, some leftRead⟩ _) = _
      rw [List.foldlM_cons, step_symbol ready]
      exact runRight
    · have level : next ≤ op.precedence := below
      rw [sameRight next (Nat.le_succ_of_le level), collapse, if_pos level]

theorem ofTokens?_strictTokens (t : Arithmetic Atom) : ofTokens? t.strictTokens = some t := by
  obtain ⟨pending, t', run, same⟩ := reads_strictTokens t [] trivial
  rw [ofTokens?, run, Option.bind_some, Reading.result?, same 0 (Nat.zero_le _)]
  rfl

theorem operandTokens_of_le (le : least ≤ t.precedence) (tokens : List Token) :
    operandTokens least t tokens = tokens := if_neg (Nat.not_lt.2 le)

theorem operandTokens_succ (other : t.precedence ≠ least) (tokens : List Token) :
    operandTokens (least + 1) t tokens = operandTokens least t tokens := by
  rw [operandTokens]
  congr 1
  rw [eq_iff_iff]
  omega

theorem strictTokens_node (op : ArithmeticOp) (left right : Arithmetic Atom) :
    (node op left right).strictTokens = operandTokens op.precedence left left.strictTokens ++ .symbol op ::
      operandTokens (op.precedence + 1) right right.strictTokens := rfl

theorem strictTokens_graft (op : ArithmeticOp) (front t : Arithmetic Atom) :
    (graft op front t).strictTokens = operandTokens op.precedence front front.strictTokens ++ .symbol op ::
      operandTokens op.precedence t t.strictTokens := by
  induction t with
  | leaf a =>
    have other : (leaf a).precedence ≠ op.precedence := by cases op <;> exact Nat.ne_of_beq_eq_false rfl
    rw [graft, strictTokens_node, operandTokens_succ other]
  | node op' left right ih _ =>
    rw [graft]
    split
    next level =>
      have grafted : op'.precedence ≤ (graft op front left).precedence := (precedence_graft ..).trans level.symm |>.ge
      have plain : op.precedence ≤ (node op' left right).precedence := level.ge
      rw [strictTokens, operandTokens_of_le grafted, ih, operandTokens_of_le plain, strictTokens, level,
        List.append_assoc, List.cons_append]
    next level =>
      have other : (node op' left right).precedence ≠ op.precedence := level
      rw [strictTokens_node, operandTokens_succ other]

theorem tokens_eq (t : Arithmetic Atom) : t.tokens = t.regrouped.strictTokens := by
  induction t with
  | leaf => rfl
  | node op left right first second =>
    have operand (least : Nat) (t : Arithmetic Atom) : operandTokens least t.regrouped = operandTokens least t := by
      funext tokens
      rw [operandTokens, operandTokens, precedence_regrouped]
    rw [tokens, regrouped, first, second]
    split
    · rw [strictTokens_graft, operand, operand]
    · rw [strictTokens, operand, operand]

end Arithmetic

/-! ### From text to tokens -/

/-- Whether a character can stand in a name without quotes. -/
def isNameChar (c : Char) : Bool := c ∉ [' ', '(', ')', '+', '-', '*', '/', '%', '.']

def isNameStart (c : Char) : Bool := isNameChar c && !c.isDigit

/-- Whether a name can be told from what stands around it without quotes. -/
def isPlainName (name : String) : Bool :=
  match name.toList with
  | [] => false
  | c :: rest => isNameStart c && rest.all isNameChar

section Reader

variable (quote : Option (Char × Char))

def name? (chars : List Char) : Option (String × List Char) :=
  match quote, chars with
  | _, [] => none
  | some (opening, close), c :: rest =>
    if c = opening then (Text.unquote close rest).map fun read => (String.ofList read.1, read.2) else none
  | none, c :: rest =>
    if isNameStart c then
      some (String.ofList (c :: rest.takeWhile isNameChar), rest.dropWhile isNameChar)
    else none

def column? (chars : List Char) : Option (Atom × List Char) :=
  (name? quote chars).bind fun first => match first.2 with
    | '.' :: rest => (name? quote rest).map fun second => (.column (some first.1) second.1, second.2)
    | rest => some (.column none first.1, rest)

def mark? : Char → Option Token
  | '(' => some .opening
  | ')' => some .closing
  | '+' => some (.symbol .plus)
  | '-' => some (.symbol .minus)
  | '*' => some (.symbol .times)
  | '/' => some (.symbol .divide)
  | '%' => some (.symbol .remainder)
  | _ => none

/-- The token at the front of a text. A minus is the sign of a number when a digit follows. -/
def token? (chars : List Char) : Option (Token × List Char) :=
  match Text.numeral? chars with
  | some (i, rest) => (int64? i).map fun i => (.atom (.literal i), rest)
  | none => match chars with
    | [] => none
    | c :: rest => match mark? c with
      | some mark => some (mark, rest)
      | none => (column? quote chars).map fun read => (.atom read.1, read.2)

def tokens? (chars : List Char) : Option (List Token) :=
  match chars with
  | [] => some []
  | c :: rest =>
    if c = ' ' then tokens? rest
    else match token? quote (c :: rest) with
      | none => none
      | some (token, after) => if after.length ≤ rest.length then (tokens? after).map (token :: ·) else none
termination_by chars.length
decreasing_by all_goals simp only [List.length_cons]; omega

/-- Reads an arithmetic term that fills the text. -/
def readArithmetic? (text : String) : Option (Arithmetic Atom) := (tokens? quote text.toList).bind Arithmetic.ofTokens?

end Reader

/-- The dialect's quotes can be told from operators, brackets, blanks and numbers. -/
def HasLegibleQuotes (d : Dialect) : Prop :=
  ∀ quotes, d.quote = some quotes → isNameStart quotes.1 ∧ isNameChar quotes.2

def Atom.toTerm : Atom → Term
  | column qualifier name => .column qualifier name
  | literal i => .literal (.int i)

/-- The names of a column are plain where the dialect has no quotes. -/
def Atom.Legible (d : Dialect) : Atom → Prop
  | column qualifier name => d.quote = none → isPlainName name ∧ ∀ q ∈ qualifier, isPlainName q
  | literal _ => True

def Arithmetic.toTerm : Arithmetic Atom → Term
  | leaf a => a.toTerm
  | node op left right => .binary op.symbol left.toTerm right.toTerm

def Arithmetic.text (d : Dialect) (t : Arithmetic Atom) : String := piecesText d (t.toTerm.pieces d)

def piecesChars (d : Dialect) (pieces : List Piece) : List Char := pieces.flatMap fun p => (p.text d).toList

theorem toList_piecesText (d : Dialect) (pieces : List Piece) :
    (piecesText d pieces).toList = piecesChars d pieces := by
  rw [piecesText, String.toList_join, List.flatMap_map, piecesChars]

/-- What follows does not go on with a name or a number. -/
def Stops (rest : List Char) : Prop := ∀ c ∈ rest.head?, c = ' ' ∨ c = ')'

section Text

variable {d : Dialect} {rest : List Char} {name : String} {c : Char} {qualifier : Option String} {token : Token}

theorem Stops.cons_blank (rest : List Char) : Stops (' ' :: rest) := by
  rintro c ⟨⟩
  exact .inl rfl

theorem Stops.cons_bracket (rest : List Char) : Stops (')' :: rest) := by
  rintro c ⟨⟩
  exact .inr rfl

theorem isNameChar_of_stops (stops : Stops rest) : ∀ c ∈ rest.head?, isNameChar c = false := by
  intro c first
  obtain rfl | rfl := stops c first <;> decide

theorem isDigit_of_stops (stops : Stops rest) : ∀ c ∈ rest.head?, c.isDigit = false := by
  intro c first
  obtain rfl | rfl := stops c first <;> decide

theorem mark?_eq_none (name : isNameChar c) : mark? c = none := by
  unfold mark?
  split
  all_goals first
    | rfl
    | exact absurd name (by decide)

theorem numeral?_eq_none (start : isNameStart c) (tail : List Char) : Text.numeral? (c :: tail) = none := by
  rw [isNameStart, Bool.and_eq_true, Bool.not_eq_true'] at start
  have unsigned : c ≠ '-' := by
    rintro rfl
    exact absurd start.1 (by decide)
  have unread : Text.natural? (c :: tail) = none := Text.natural?_eq_none (by rintro _ ⟨⟩; exact start.2)
  rw [Text.numeral?, if_neg unsigned, unread, Option.map_none]

theorem tokens?_blank (quote : Option (Char × Char)) (rest : List Char) :
    tokens? quote (' ' :: rest) = tokens? quote rest := by
  rw [tokens?, if_pos rfl]

theorem tokens?_token {quote : Option (Char × Char)} {tail : List Char} (front : c ≠ ' ')
    (read : token? quote (c :: (tail ++ rest)) = some (token, rest)) :
    tokens? quote (c :: (tail ++ rest)) = (tokens? quote rest).map (token :: ·) := by
  rw [tokens?, if_neg front, read]
  exact if_pos (by rw [List.length_append]; omega)

theorem tokens?_mark (quote : Option (Char × Char)) (mark : mark? c = some token)
    (unsigned : Text.numeral? (c :: rest) = none) :
    tokens? quote (c :: rest) = (tokens? quote rest).map (token :: ·) := by
  have front : c ≠ ' ' := by
    rintro rfl
    exact Option.some_ne_none token mark.symm
  have read : token? quote (c :: ([] ++ rest)) = some (token, rest) := by
    rw [List.nil_append, token?, unsigned]
    rw [mark]
  exact tokens?_token front read

theorem exists_symbol (op : ArithmeticOp) : ∃ c, op.symbol.toList = [c] ∧ mark? c = some (.symbol op) ∧
    ∀ rest, Text.numeral? (c :: ' ' :: rest) = none := by
  cases op with
  | plus => exact ⟨'+', rfl, rfl, fun _ => rfl⟩
  | minus => exact ⟨'-', rfl, rfl, fun _ => rfl⟩
  | times => exact ⟨'*', rfl, rfl, fun _ => rfl⟩
  | divide => exact ⟨'/', rfl, rfl, fun _ => rfl⟩
  | remainder => exact ⟨'%', rfl, rfl, fun _ => rfl⟩

theorem precedence_toTerm (t : Arithmetic Atom) : t.toTerm.precedence = t.precedence := by
  cases t with
  | leaf a => cases a <;> rfl
  | node => rfl

/-- The text of the term is read as the tokens, whatever follows. -/
def Lexes (d : Dialect) (pieces : List Piece) (tokens : List Token) : Prop :=
  ∀ rest, Stops rest → tokens? d.quote (piecesChars d pieces ++ rest) = (tokens? d.quote rest).map (tokens ++ ·)

theorem Lexes.operand {pieces : List Piece} {tokens : List Token} (lexes : Lexes d pieces tokens) (least : Nat)
    (t : Arithmetic Atom) :
    Lexes d (operandPieces least t.toTerm pieces) (Arithmetic.operandTokens least t tokens) := by
  intro rest stops
  rw [operandPieces, Arithmetic.operandTokens, precedence_toTerm]
  split
  next loose =>
    have chars : piecesChars d (bracketed pieces) ++ rest = '(' :: (piecesChars d pieces ++ ')' :: rest) := by
      simp [bracketed, piecesChars, Piece.text]
    rw [chars, tokens?_mark _ rfl rfl, lexes _ (.cons_bracket rest), tokens?_mark _ rfl rfl, Option.map_map,
      Option.map_map]
    refine congrArg (Option.map · _) (funext fun after => ?_)
    simp
  next => exact lexes rest stops

variable (legible : HasLegibleQuotes d)

include legible

theorem name?_quoteIdentifier (plain : d.quote = none → isPlainName name)
    (apart : ∀ c ∈ rest.head?, isNameChar c = false) :
    name? d.quote ((d.quoteIdentifier name).toList ++ rest) = some (name, rest) := by
  rw [Dialect.quoteIdentifier]
  cases quotes : d.quote with
  | none =>
    have shape := plain quotes
    rw [isPlainName] at shape
    cases chars : name.toList with
    | nil => simp [chars] at shape
    | cons c tail =>
      simp only [chars, Bool.and_eq_true, List.all_eq_true] at shape
      have ended : rest.takeWhile isNameChar = [] ∧ rest.dropWhile isNameChar = rest := by
        cases rest with
        | nil => exact ⟨rfl, rfl⟩
        | cons c rest => simp [apart c rfl]
      rw [List.cons_append, name?, if_pos shape.1, List.takeWhile_append_of_pos shape.2,
        List.dropWhile_append_of_pos shape.2, ended.1, ended.2, List.append_nil, ← chars, String.ofList_toList]
  | some pair =>
    have close : rest.head? ≠ some pair.2 := by
      intro same
      have other := apart pair.2 same
      rw [(legible pair quotes).2] at other
      exact Bool.noConfusion other
    dsimp only
    rw [Text.quote, String.toList_ofList, List.append_assoc, List.cons_append, name?, if_pos rfl]
    change (Text.unquote pair.2 (Text.double pair.2 name.toList ++ pair.2 :: rest)).map _ = _
    rw [Text.unquote_double _ _ _ close, Option.map_some, String.ofList_toList]

theorem column?_pieces (plain : (Atom.column qualifier name).Legible d) (stops : Stops rest) :
    column? d.quote (piecesChars d ((Term.column qualifier name).pieces d) ++ rest) =
      some (.column qualifier name, rest) := by
  have read := name?_quoteIdentifier legible (fun bare => (plain bare).1) (isNameChar_of_stops stops)
  cases qualifier with
  | none =>
    have chars : piecesChars d ((Term.column none name).pieces d) = (d.quoteIdentifier name).toList := by
      exact List.append_nil _
    rw [chars, column?, read]
    cases rest with
    | nil => rfl
    | cons c rest => obtain rfl | rfl := stops c rfl <;> rfl
  | some qualifier =>
    have chars : piecesChars d ((Term.column (some qualifier) name).pieces d) ++ rest =
        (d.quoteIdentifier qualifier).toList ++ '.' :: ((d.quoteIdentifier name).toList ++ rest) := by
      rw [Term.pieces]
      simp [piecesChars, Piece.text]
    have front :
        name? d.quote ((d.quoteIdentifier qualifier).toList ++ '.' :: ((d.quoteIdentifier name).toList ++ rest)) =
          some (qualifier, '.' :: ((d.quoteIdentifier name).toList ++ rest)) := by
      refine name?_quoteIdentifier legible (fun bare => (plain bare).2 qualifier rfl) ?_
      rintro c ⟨⟩
      decide
    rw [chars, column?, front]
    change (name? d.quote ((d.quoteIdentifier name).toList ++ rest)).map _ = _
    rw [read]
    rfl

theorem exists_cons_of_quoteIdentifier (plain : d.quote = none → isPlainName name) :
    ∃ c tail, (d.quoteIdentifier name).toList = c :: tail ∧ isNameStart c := by
  rw [Dialect.quoteIdentifier]
  cases quotes : d.quote with
  | none =>
    have shape := plain quotes
    rw [isPlainName] at shape
    cases chars : name.toList with
    | nil => simp [chars] at shape
    | cons c tail =>
      simp only [chars, Bool.and_eq_true] at shape
      exact ⟨c, tail, rfl, shape.1⟩
  | some pair => exact ⟨pair.1, _, String.toList_ofList, (legible pair quotes).1⟩

theorem exists_cons_pieces (plain : (Atom.column qualifier name).Legible d) :
    ∃ c tail, piecesChars d ((Term.column qualifier name).pieces d) = c :: tail ∧ isNameStart c := by
  cases qualifier with
  | none =>
    obtain ⟨c, tail, chars, start⟩ := exists_cons_of_quoteIdentifier legible fun bare => (plain bare).1
    exact ⟨c, tail, by simp [Term.pieces, piecesChars, Piece.text, chars], start⟩
  | some qualifier =>
    obtain ⟨c, tail, chars, start⟩ := exists_cons_of_quoteIdentifier legible fun bare => (plain bare).2 qualifier rfl
    exact ⟨c, tail ++ '.' :: (d.quoteIdentifier name).toList,
      by simp [Term.pieces, piecesChars, Piece.text, chars], start⟩

theorem tokens?_atom {a : Atom} (plain : a.Legible d) (stops : Stops rest) :
    tokens? d.quote (piecesChars d (a.toTerm.pieces d) ++ rest) = (tokens? d.quote rest).map (.atom a :: ·) := by
  cases a with
  | literal i =>
    have chars : piecesChars d ((Atom.literal i).toTerm.pieces d) = (toString i.toInt).toList := by
      simp [Atom.toTerm, Term.pieces, literalPieces, piecesChars, Piece.text, Value.text]
    have read : token? d.quote ((toString i.toInt).toList ++ rest) = some (.atom (.literal i), rest) := by
      rw [token?.eq_def, Text.numeral?_toString _ _ (isDigit_of_stops stops)]
      dsimp only
      rw [int64?_toInt, Option.map_some]
    obtain ⟨c, tail, text, start, _⟩ := Text.exists_cons_toString i.toInt
    have front : c ≠ ' ' := by
      rintro rfl
      exact absurd start (by decide)
    rw [chars]
    rw [text] at read ⊢
    exact tokens?_token front read
  | column =>
    obtain ⟨c, tail, chars, start⟩ := exists_cons_pieces legible plain
    have named : isNameChar c := (Bool.and_eq_true .. ▸ start : _ ∧ _).1
    have front : c ≠ ' ' := by
      rintro rfl
      exact absurd named (by decide)
    have column := column?_pieces legible plain stops
    rw [Atom.toTerm]
    rw [chars, List.cons_append] at column ⊢
    refine tokens?_token front ?_
    rw [token?, numeral?_eq_none start]
    rw [mark?_eq_none named, column]
    rfl

theorem lexes_pieces (t : Arithmetic Atom) (plain : ∀ a ∈ t.leaves, a.Legible d) :
    Lexes d (t.toTerm.pieces d) t.tokens := by
  induction t with
  | leaf a => exact fun rest stops => tokens?_atom legible (plain a (.head _)) stops
  | node op left right first second =>
    intro rest stops
    have left' := (first fun a mem => plain a (List.mem_append_left _ mem)).operand op.precedence left
    have right' := (second fun a mem => plain a (List.mem_append_right _ mem)).operand
      (if isAssociative op.symbol then op.precedence else op.precedence + 1) right
    obtain ⟨c, symbol, mark, unsigned⟩ := exists_symbol op
    have comparison : isComparison op.symbol = false := by cases op <;> rfl
    have chars : piecesChars d ((Arithmetic.node op left right).toTerm.pieces d) ++ rest =
        piecesChars d (operandPieces op.precedence left.toTerm (left.toTerm.pieces d)) ++ ' ' :: c :: ' ' ::
          (piecesChars d (operandPieces (if isAssociative op.symbol then op.precedence else op.precedence + 1)
            right.toTerm (right.toTerm.pieces d)) ++ rest) := by
      rw [Arithmetic.toTerm, Term.pieces, comparison]
      simp [piecesChars, Piece.text, symbol, ArithmeticOp.precedence]
    rw [chars, left' _ (.cons_blank _), tokens?_blank, tokens?_mark _ mark (unsigned _), tokens?_blank,
      right' rest stops, Option.map_map, Option.map_map]
    refine congrArg (Option.map · _) (funext fun after => ?_)
    simp [Arithmetic.tokens]

theorem readArithmetic?_text {t : Arithmetic Atom}
    (plain : ∀ a ∈ t.leaves, a.Legible d) : readArithmetic? d.quote (t.text d) = some t.regrouped := by
  have read := lexes_pieces legible t plain [] (by rintro c ⟨⟩)
  rw [List.append_nil] at read
  rw [readArithmetic?, Arithmetic.text, toList_piecesText, read, tokens?, Option.map_some, List.append_nil,
    Option.bind_some, Arithmetic.tokens_eq, Arithmetic.ofTokens?_strictTokens]

end Text

/-! ### Values -/

def Atom.value (columns : Option String → String → Int) : Atom → Int
  | column qualifier name => columns qualifier name
  | literal i => i.toInt

/-- The text of the term is read as a term of the same value, whatever columns it has a value for. -/
def ReadsBack (d : Dialect) (t : Arithmetic Atom) : Prop :=
  ∀ (columns : Option String → String → Int) (v : Int), (t.map (Atom.value columns)).value = some v →
    ∃ u, readArithmetic? d.quote (t.text d) = some u ∧ (u.map (Atom.value columns)).value = some v

/-- A column for every number, and the number of a column. -/
def numbered (n : Nat) : Atom := .column none (String.ofList (List.replicate (n + 1) 'x'))

def columnNumber (_ : Option String) (name : String) : Int := (name.length - 1 : Nat)

theorem legible_numbered (d : Dialect) (n : Nat) : (numbered n).Legible d := by
  refine fun _ => ⟨?_, nofun⟩
  rw [isPlainName, List.replicate_succ]
  have name : isNameChar 'x' := rfl
  have start : isNameStart 'x' := rfl
  simp [start, name]

theorem map_numbered (t : Arithmetic Nat) : (t.map numbered).map (Atom.value columnNumber) = t.numbers := by
  rw [Arithmetic.map_map]
  congr 1
  funext n
  simp [numbered, Atom.value, columnNumber]

/-- The operators alone decide whether arithmetic keeps its value in the text: a shape of operators reads back with
every column and integer for its leaves, unless some multiplication goes on with a division or a remainder. -/
theorem readsBack_iff_isSafe (d : Dialect) (legible : HasLegibleQuotes d) (s : Arithmetic Unit) :
    (∀ t : Arithmetic Atom, t.shape = s → (∀ a ∈ t.leaves, a.Legible d) → ReadsBack d t) ↔ s.isSafe := by
  constructor
  · intro all
    by_contra mixed
    obtain ⟨t, a, b, shape, value, read, above, -, apart⟩ :=
      Arithmetic.diverges_of_not_safe (Bool.eq_false_iff.2 mixed) 0
    have plain : ∀ a ∈ (t.map numbered).leaves, a.Legible d := by
      rw [Arithmetic.leaves_map]
      intro a mem
      obtain ⟨n, -, rfl⟩ := List.mem_map.1 mem
      exact legible_numbered d n
    have same : (t.map numbered).shape = s := (Arithmetic.map_map ..).trans shape
    obtain ⟨u, text, other⟩ := all _ same plain columnNumber a (by rw [map_numbered, value])
    rw [readArithmetic?_text legible plain, Option.some_inj] at text
    rw [← text, Arithmetic.map_regrouped, map_numbered, read, Option.some_inj] at other
    omega
  · rintro safe t rfl plain columns v value
    refine ⟨t.regrouped, readArithmetic?_text legible plain, ?_⟩
    rw [Arithmetic.shape, Arithmetic.isSafe_map] at safe
    rw [Arithmetic.map_regrouped, Arithmetic.value_regrouped ((Arithmetic.isSafe_map t).trans safe), value]

/-- A factor in front of a quotient. -/
theorem readsBack_iff_isSafe_quotient : HasLegibleQuotes Dialect.ansi ∧
    ¬∀ t : Arithmetic Atom, t.shape = .node .times (.leaf ()) (.node .divide (.leaf ()) (.leaf ())) →
      (∀ a ∈ t.leaves, a.Legible Dialect.ansi) → ReadsBack Dialect.ansi t := by
  have legible : HasLegibleQuotes Dialect.ansi := by
    rintro quotes ⟨⟩
    exact ⟨rfl, rfl⟩
  exact ⟨legible, fun all => Bool.noConfusion ((readsBack_iff_isSafe Dialect.ansi legible _).1 all)⟩

end FederatedQuery.Sql
