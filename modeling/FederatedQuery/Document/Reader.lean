import FederatedQuery.Document.Basic
import FederatedQuery.Double.Arithmetic
import FederatedQuery.Double.Reading
import FederatedQuery.Text.Hex

/-!
Reading documents from their text. A whole number of sixty-four bits is an integer. Every other number
is a float: its leading digits, as many as sixty-four bits hold, are rounded first and then scaled by a
power of ten, so the result can be off the nearest float by a little.
-/
namespace FederatedQuery.Document

def isSpace (c : Char) : Bool := c = ' ' || c = '\n' || c = '\r' || c = '\t'

def skipSpace (text : List Char) : List Char := text.dropWhile isSpace

/-- Takes digits while their number stays below `2^64`. Gives the number, how many digits were taken
and the rest. -/
def takeWord (n taken : Nat) : List Char → Nat × Nat × List Char
  | [] => (n, taken, [])
  | c :: rest =>
    if c.isDigit ∧ 10 * n + (c.toNat - '0'.toNat) < UInt64.size then
      takeWord (10 * n + (c.toNat - '0'.toNat)) (taken + 1) rest
    else (n, taken, c :: rest)

def powerOfTen (n : Nat) : Double := Double.ofDecimal false 1 n

/-- Scales by a power of ten; powers below `10^-308` in several steps. -/
def scale : Nat → Double → Int → Option Double
  | 0, x, _ => some x
  | steps + 1, x, exponent =>
    if exponent.natAbs ≤ 308 then
      if 0 ≤ exponent then
        let y := x.mul (powerOfTen exponent.toNat)
        if y.isInfinite then none else some y
      else some (x.div (powerOfTen exponent.natAbs))
    else if x.count = 0 then some x
    else if 0 ≤ exponent then none
    else scale steps (x.div (powerOfTen 308)) (exponent + 308)

/-- The float of a number's leading digits and its power of ten. Three steps take every such number
below the smallest float. -/
def floatOf (negative : Bool) (digits : Nat) (exponent : Int) : Option Document :=
  (scale 4 (Double.ofInt digits) exponent).map fun x => float (if negative then x.negate else x)

/-- Reads an exponent of at least one digit behind its mark. -/
def takeExponent? (text : List Char) : Option (Int × List Char) :=
  let (negative, text) := splitSign text
  let digits := text.takeWhile Char.isDigit
  if digits.isEmpty then none
  else
    let size : Int := digitsValue digits
    some (if negative then -size else size, text.dropWhile Char.isDigit)

def takeScaled? (negative : Bool) (digits : Nat) (exponent : Int) (text : List Char) :
    Option (Document × List Char) :=
  match text with
  | c :: rest =>
    if c = 'e' ∨ c = 'E' then do
      let (scale, rest) ← takeExponent? rest
      return (← floatOf negative digits (exponent + scale), rest)
    else do return (← floatOf negative digits exponent, text)
  | [] => do return (← floatOf negative digits exponent, [])

def integerOf (negative : Bool) (n : Nat) : Document :=
  if negative then
    if 0 < n ∧ n ≤ Int64.minValue.toInt.natAbs then int (-(n : Int)) else float (Double.ofInt n).negate
  else int n

/-- A number behind its sign: digits without a leading zero, then a point and digits, then an
exponent, the last two optional. -/
def takeNumber? (negative : Bool) (text : List Char) : Option (Document × List Char) := do
  let whole := text.takeWhile Char.isDigit
  if whole.isEmpty ∨ (whole.head? = some '0' ∧ 1 < whole.length) then none
  let (n, taken, _) := takeWord 0 0 whole
  let dropped : Int := whole.length - taken
  match text.dropWhile Char.isDigit with
  | '.' :: rest =>
    if (rest.takeWhile Char.isDigit).isEmpty then none
    let (m, more, _) := takeWord n 0 rest
    takeScaled? negative m (dropped - more) (rest.dropWhile Char.isDigit)
  | rest =>
    if dropped = 0 ∧ rest.head? ≠ some 'e' ∧ rest.head? ≠ some 'E' then return (integerOf negative n, rest)
    else takeScaled? negative n dropped rest

def takeUnit? : List Char → Option (Nat × List Char)
  | a :: b :: c :: d :: rest => do
    return ((((← Text.hexValue? a) * 16 + (← Text.hexValue? b)) * 16 + (← Text.hexValue? c)) * 16 +
      (← Text.hexValue? d), rest)
  | _ => none

/-- A character written as one unit, or as a pair of surrogates. -/
def takeEscapedChar? (text : List Char) : Option (Char × List Char) := do
  let (unit, rest) ← takeUnit? text
  if unit < 0xD800 ∨ 0xE000 ≤ unit then return (Char.ofNat unit, rest)
  else match rest with
    | '\\' :: 'u' :: rest =>
      let (low, rest) ← takeUnit? rest
      if unit < 0xDC00 ∧ 0xDC00 ≤ low ∧ low < 0xE000 then
        return (Char.ofNat (0x10000 + (unit - 0xD800) * 1024 + (low - 0xDC00)), rest)
      else none
    | _ => none

def plainEscape? (c : Char) : Option Char :=
  if c = '"' ∨ c = '\\' ∨ c = '/' then some c
  else if c = 'n' then some '\n'
  else if c = 'r' then some '\r'
  else if c = 't' then some '\t'
  else if c = 'b' then some '\x08'
  else if c = 'f' then some '\x0c'
  else none

/-- The characters of a string up to its closing quote, and what follows the quote. -/
def takeChars? : Nat → List Char → Option (List Char × List Char)
  | 0, _ | _, [] => none
  | fuel + 1, c :: rest =>
    if c = '"' then some ([], rest)
    else if c = '\\' then match rest with
      | 'u' :: rest => do
        let (d, rest) ← takeEscapedChar? rest
        let (chars, rest) ← takeChars? fuel rest
        return (d :: chars, rest)
      | e :: rest => do
        let d ← plainEscape? e
        let (chars, rest) ← takeChars? fuel rest
        return (d :: chars, rest)
      | [] => none
    else if c.toNat < 32 then none
    else do
      let (chars, rest) ← takeChars? fuel rest
      return (c :: chars, rest)

def takeString? (text : List Char) : Option (String × List Char) :=
  match text with
  | '"' :: rest => (takeChars? rest.length rest).map fun (chars, rest) => (String.ofList chars, rest)
  | _ => none

def takeWordOf? (word : String) (d : Document) (text : List Char) : Option (Document × List Char) :=
  if word.toList.isPrefixOf text then some (d, text.drop word.length) else none

mutual

/-- Reads one document. The fuel bounds the number of documents and separators met, so the length of
the text is enough. -/
def take? : Nat → List Char → Option (Document × List Char)
  | 0, _ => none
  | fuel + 1, text => match skipSpace text with
    | 'n' :: rest => takeWordOf? "null" null ('n' :: rest)
    | 't' :: rest => takeWordOf? "true" (bool true) ('t' :: rest)
    | 'f' :: rest => takeWordOf? "false" (bool false) ('f' :: rest)
    | '"' :: rest => (takeString? ('"' :: rest)).map fun (s, rest) => (string s, rest)
    | '-' :: rest => takeNumber? true rest
    | '[' :: rest => match skipSpace rest with
      | ']' :: rest => some (array [], rest)
      | rest => (takeItems? fuel rest).map fun (items, rest) => (array items, rest)
    | '\x7b' :: rest => match skipSpace rest with
      | '\x7d' :: rest => some (object [], rest)
      | rest => (takeEntries? fuel rest).map fun (pairs, rest) => (object (Entries.ofPairs pairs), rest)
    | rest => takeNumber? false rest

def takeItems? : Nat → List Char → Option (List Document × List Char)
  | 0, _ => none
  | fuel + 1, text => do
    let (d, rest) ← take? fuel text
    match skipSpace rest with
    | ',' :: rest =>
      let (items, rest) ← takeItems? fuel rest
      return (d :: items, rest)
    | ']' :: rest => return ([d], rest)
    | _ => none

def takeEntries? : Nat → List Char → Option (List (String × Document) × List Char)
  | 0, _ => none
  | fuel + 1, text => do
    let (key, rest) ← takeString? (skipSpace text)
    match skipSpace rest with
    | ':' :: rest =>
      let (d, rest) ← take? fuel rest
      match skipSpace rest with
      | ',' :: rest =>
        let (pairs, rest) ← takeEntries? fuel rest
        return ((key, d) :: pairs, rest)
      | '\x7d' :: rest => return ([(key, d)], rest)
      | _ => none
    | _ => none

end

def read? (text : String) : Option Document :=
  match take? (text.length + 1) text.toList with
  | some (d, rest) => if (skipSpace rest).isEmpty then some d else none
  | none => none

end FederatedQuery.Document
