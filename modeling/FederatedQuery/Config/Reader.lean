import FederatedQuery.Config.Settings
import FederatedQuery.Text.Hex

/-!
Reading settings from text in the TOML format. Headers of lists of tables are left out: no setting is a
list that starts with a table. Each reader takes what it reads from the front of the text and gives the
rest.
-/
namespace FederatedQuery.Config

def isBlank (c : Char) : Bool := c = ' ' || c = '\t'

def skipBlank (text : List Char) : List Char := text.dropWhile isBlank

def takeNewline? : List Char → Option (List Char)
  | '\n' :: rest | '\r' :: '\n' :: rest => some rest
  | _ => none

/-- Whether a character can stand in a text or comment as it is. -/
def isPlain (c : Char) : Bool := c = '\t' || (decide (32 ≤ c.toNat) && decide (c.toNat ≠ 127))

def skipComment : List Char → List Char
  | '#' :: rest => rest.dropWhile isPlain
  | text => text

/-- What follows the rest of a line, which holds a comment at most. -/
def endLine? (text : List Char) : Option (List Char) :=
  match skipComment (skipBlank text) with
  | [] => some []
  | rest => takeNewline? rest

/-- Blanks, comments and ends of lines. -/
def skipSpace : Nat → List Char → List Char
  | 0, text => text
  | fuel + 1, text => match skipComment (skipBlank text) with
    | [] => []
    | rest => match takeNewline? rest with
      | some next => skipSpace fuel next
      | none => rest

/-! Texts. -/

def plainEscapes : List (Char × Char) :=
  [('b', '\x08'), ('t', '\t'), ('n', '\n'), ('f', '\x0c'), ('r', '\r'), ('"', '"'), ('\\', '\\')]

/-- The character with a number of so many hexadecimal digits. -/
def takeNumbered? (digits : Nat) (text : List Char) : Option (Char × List Char) := do
  if text.length < digits then none
  else
    let values ← (text.take digits).mapM Text.hexValue?
    let n := values.foldl (fun n v => 16 * n + v) 0
    if n.isValidChar then return (Char.ofNat n, text.drop digits) else none

/-- What follows a backslash. -/
def takeEscape? : List Char → Option (Char × List Char)
  | 'u' :: rest => takeNumbered? 4 rest
  | 'U' :: rest => takeNumbered? 8 rest
  | c :: rest => (plainEscapes.lookup c).map fun d => (d, rest)
  | [] => none

def consFirst (c : Char) (r : List Char × List Char) : List Char × List Char := (c :: r.1, r.2)

/-- Text on one line up to its closing quote. Only in double quotes has the backslash a meaning. -/
def takeQuoted? (quote : Char) : Nat → List Char → Option (List Char × List Char)
  | 0, _ | _, [] => none
  | fuel + 1, c :: rest =>
    if c = quote then some ([], rest)
    else if c = '\\' ∧ quote = '"' then do
      let (d, rest) ← takeEscape? rest
      return consFirst d (← takeQuoted? quote fuel rest)
    else if isPlain c then do return consFirst c (← takeQuoted? quote fuel rest)
    else none

/-- Blanks and ends of lines. -/
def skipEmpty : Nat → List Char → List Char
  | 0, text => text
  | fuel + 1, text => match takeNewline? (skipBlank text) with
    | some rest => skipEmpty fuel rest
    | none => skipBlank text

/-- What follows when the rest of a line is blank: the next character that is neither a blank nor the
end of a line. -/
def skipFolded? (text : List Char) : Option (List Char) :=
  (takeNewline? (skipBlank text)).map fun rest => skipEmpty rest.length rest

/-- Text over several lines up to three closing quotes, before which there can be one or two more that
belong to it. -/
def takeLines? (quote : Char) : Nat → List Char → Option (List Char × List Char)
  | 0, _ | _, [] => none
  | fuel + 1, c :: rest =>
    if c = quote then
      let quotes := ((c :: rest).takeWhile (· = quote)).length
      if 3 ≤ quotes then
        let used := min quotes 5
        some (List.replicate (used - 3) quote, (c :: rest).drop used)
      else do return consFirst c (← takeLines? quote fuel rest)
    else if c = '\\' ∧ quote = '"' then
      match skipFolded? rest with
      | some rest => takeLines? quote fuel rest
      | none => do
        let (d, rest) ← takeEscape? rest
        return consFirst d (← takeLines? quote fuel rest)
    else match takeNewline? (c :: rest) with
      | some rest => do return consFirst '\n' (← takeLines? quote fuel rest)
      | none => if isPlain c then do return consFirst c (← takeLines? quote fuel rest) else none

/-- A text after its first quote. Three quotes start one of several lines, of which an empty first line
does not count. -/
def takeText? (quote : Char) (text : List Char) : Option (String × List Char) :=
  let read := match text with
    | a :: b :: rest =>
      if a = quote ∧ b = quote then takeLines? quote (rest.length + 1) ((takeNewline? rest).getD rest)
      else takeQuoted? quote text.length text
    | _ => takeQuoted? quote text.length text
  read.map fun (chars, rest) => (String.ofList chars, rest)

/-! Keys. -/

def isBare (c : Char) : Bool := c.isAlphanum || c = '_' || c = '-'

/-- One name, and the blanks around it. -/
def takeName? (text : List Char) : Option (String × List Char) := do
  let (name, rest) ← match skipBlank text with
    | '"' :: rest => (takeQuoted? '"' rest.length rest).map fun (cs, rest) => (String.ofList cs, rest)
    | '\'' :: rest => (takeQuoted? '\'' rest.length rest).map fun (cs, rest) => (String.ofList cs, rest)
    | rest =>
      let bare := rest.takeWhile isBare
      if bare.isEmpty then none else some (String.ofList bare, rest.dropWhile isBare)
  return (name, skipBlank rest)

def takeNames? : Nat → List Char → Option (List String × List Char)
  | 0, _ => none
  | fuel + 1, text => do
    let (name, rest) ← takeName? text
    match rest with
    | '.' :: rest =>
      let (names, rest) ← takeNames? fuel rest
      return (name :: names, rest)
    | rest => return ([name], rest)

/-- How deep values can be inside each other, and how many names a key can have. -/
def maxDepth : Nat := 79

def takeKey? (text : List Char) : Option (List String × List Char) :=
  (takeNames? text.length text).filter fun (names, _) => decide (names.length ≤ maxDepth)

/-! Values. -/

/-- Digits, where an underscore can stand between two. -/
def takeDigits (isDigit : Char → Bool) : List Char → List Char × List Char
  | [] => ([], [])
  | [c] => if isDigit c then ([c], []) else ([], [c])
  | c :: d :: rest =>
    if isDigit c then consFirst c (takeDigits isDigit (d :: rest))
    else if c = '_' ∧ isDigit d then consFirst d (takeDigits isDigit rest)
    else ([], c :: d :: rest)

def digitsIn (base : Nat) (digits : List Char) : Nat :=
  digits.foldl (fun n c => base * n + (Text.hexValue? c).getD 0) 0

/-- Digits of a base. An underscore is not the first of them. -/
def takeNatural? (base : Nat) (text : List Char) : Option (Nat × List Char) :=
  let isDigit (c : Char) : Bool := ((Text.hexValue? c).map fun v => decide (v < base)).getD false
  match text with
  | c :: _ =>
    if isDigit c then
      let (digits, rest) := takeDigits isDigit text
      some (digitsIn base digits, rest)
    else none
  | [] => none

/-- A decimal number, which starts with a zero only if it is zero. -/
def takeDecimal? : List Char → Option (Nat × List Char)
  | '0' :: rest => some (0, rest)
  | text => takeNatural? 10 text

def takeSigned? : List Char → Option (Int × List Char)
  | '0' :: 'x' :: rest => (takeNatural? 16 rest).map fun (n, rest) => ((n : Int), rest)
  | '0' :: 'o' :: rest => (takeNatural? 8 rest).map fun (n, rest) => ((n : Int), rest)
  | '0' :: 'b' :: rest => (takeNatural? 2 rest).map fun (n, rest) => ((n : Int), rest)
  | '-' :: rest => (takeDecimal? rest).map fun (n, rest) => (-(n : Int), rest)
  | '+' :: rest | rest => (takeDecimal? rest).map fun (n, rest) => ((n : Int), rest)

def takeInteger? (text : List Char) : Option (Setting × List Char) := do
  let (i, rest) ← takeSigned? text
  if (int64? i).isSome then return (.integer i, rest) else none

def takeRun? (text : List Char) : Option (List Char × List Char) :=
  match takeDigits Char.isDigit text with
  | ([], _) => none
  | run => if text.head? = some '_' then none else some run

def takeExponent? : List Char → Option (Int × List Char)
  | 'e' :: rest | 'E' :: rest =>
    let (negative, rest) := splitSign rest
    (takeRun? rest).map fun (digits, rest) =>
      (if negative then -(digitsValue digits : Int) else digitsValue digits, rest)
  | _ => none

/-- The digits after a point, and an exponent; one of them can be missing. -/
def takeScale? : List Char → Option (List Char × Int × List Char)
  | '.' :: rest => (takeRun? rest).map fun (digits, rest) =>
    let (exponent, rest) := (takeExponent? rest).getD (0, rest)
    (digits, exponent, rest)
  | rest => (takeExponent? rest).map fun (exponent, rest) => ([], exponent, rest)

/-- A number with a point or an exponent, and the words for what is not a finite number. A number
above the largest finite one is refused, but not one below the smallest. -/
def takeFloat? (text : List Char) : Option (Setting × List Char) := do
  let (negative, body) := splitSign text
  if "inf".toList.isPrefixOf body then return (.float (Double.infinity negative), body.drop 3)
  else if "nan".toList.isPrefixOf body then return (.float (Double.nan negative), body.drop 3)
  else
    let (whole, rest) ← takeDecimal? body
    let (part, exponent, rest) ← takeScale? rest
    let x := Double.ofDecimal negative (whole * Nat.pow 10 part.length + digitsValue part)
      (exponent - part.length)
    if x = Double.infinity false then none else return (.float x, rest)

def takeFlag? (text : List Char) : Option (Setting × List Char) :=
  if "true".toList.isPrefixOf text then some (.flag true, text.drop 4)
  else if "false".toList.isPrefixOf text then some (.flag false, text.drop 5)
  else none

mutual

/-- One value, with others inside it at most `depth` deep. The fuel bounds the values, keys and
separators met, so the length of the text is enough. -/
def takeSetting? : Nat → Nat → List Char → Option (Setting × List Char)
  | 0, _, _ => none
  | fuel + 1, depth, text => match text with
    | '"' :: rest => (takeText? '"' rest).map fun (s, rest) => (.text s, rest)
    | '\'' :: rest => (takeText? '\'' rest).map fun (s, rest) => (.text s, rest)
    | '[' :: rest =>
      if depth = 0 then none
      else (takeItems? fuel (depth - 1) rest).map fun (items, rest) => (.list items, rest)
    | '\x7b' :: rest =>
      if depth = 0 then none
      else match skipBlank rest with
        | '\x7d' :: rest => some (.table .whole [], rest)
        | rest => (takeEntries? fuel (depth - 1) [] rest).map fun (entries, rest) =>
          (.table .whole entries, rest)
    | rest => takeFlag? rest <|> (takeMoment? rest).map (fun (m, rest) => (.moment m, rest)) <|>
      takeFloat? rest <|> takeInteger? rest

/-- Items up to the closing bracket; a comma can follow the last. -/
def takeItems? : Nat → Nat → List Char → Option (List Setting × List Char)
  | 0, _, _ => none
  | fuel + 1, depth, text => match skipSpace text.length text with
    | ']' :: rest => some ([], rest)
    | text => do
      let (item, rest) ← takeSetting? fuel depth text
      match skipSpace rest.length rest with
      | ',' :: rest =>
        let (items, rest) ← takeItems? fuel depth rest
        return (item :: items, rest)
      | ']' :: rest => return ([item], rest)
      | _ => none

/-- Keys and values on one line up to the closing brace, added to those before. -/
def takeEntries? : Nat → Nat → Settings → List Char → Option (Settings × List Char)
  | 0, _, _, _ => none
  | fuel + 1, depth, entries, text => do
    let (names, rest) ← takeKey? text
    match rest with
    | '=' :: rest =>
      let (v, rest) ← takeSetting? fuel depth (skipBlank rest)
      let entries ← entries.add (names.getLast?.getD "") v names.dropLast
      match skipBlank rest with
      | ',' :: rest => takeEntries? fuel depth entries rest
      | '\x7d' :: rest => return (entries, rest)
      | _ => none
    | _ => none

end

/-- Reads line after line. Settings go to the table of the last header. -/
def takeLinesOf? : Nat → List String → Settings → List Char → Option Settings
  | 0, _, _, _ => none
  | fuel + 1, header, settings, text => match skipBlank text with
    | [] => some settings
    | '[' :: rest => do
      let (names, rest) ← takeKey? rest
      match rest with
      | ']' :: rest =>
        let settings ← settings.state names
        takeLinesOf? fuel names settings (← endLine? rest)
      | _ => none
    | c :: rest => match endLine? (c :: rest) with
      | some rest => takeLinesOf? fuel header settings rest
      | none => do
        let (names, rest) ← takeKey? (c :: rest)
        match rest with
        | '=' :: rest =>
          let (v, rest) ← takeSetting? (rest.length + 1) maxDepth (skipBlank rest)
          let settings ← settings.addUnder (names.getLast?.getD "") v names.dropLast header
          takeLinesOf? fuel header settings (← endLine? rest)
        | _ => none

def readSettings? (text : String) : Option Settings :=
  let chars := match text.toList with
    | '\uFEFF' :: rest => rest
    | chars => chars
  takeLinesOf? (chars.length + 1) [] [] chars

end FederatedQuery.Config
