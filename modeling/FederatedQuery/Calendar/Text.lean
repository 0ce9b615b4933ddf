import FederatedQuery.Calendar.Civil
import FederatedQuery.Double.Reading

/-!
Text of dates and timestamps: `2020-02-29` and `2020-02-29 23:59:59`. A year before zero has a minus.
Reading takes the same fields, all digits present, and an optional sign in front of the year.
-/
namespace FederatedQuery.Calendar

/-- Decimal digits of a number, at least `width` of them. -/
def padded (width n : Nat) : String :=
  let digits := Nat.toDigits 10 n
  String.ofList (List.replicate (width - digits.length) '0' ++ digits)

def Civil.text (c : Civil) : String :=
  (if c.year < 0 then "-" else "") ++ padded 4 c.year.natAbs ++ "-" ++ padded 2 c.month ++ "-" ++
    padded 2 c.day

def dateText? (days : Int) : Option String :=
  let c := Civil.ofDays days
  if c.inRange then some c.text else none

def millisPerDay : Int := 86400000

def timestampText? (millis : Int) : Option String :=
  let seconds := (millis.fdiv 1000 - millis.fdiv millisPerDay * 86400).toNat
  (dateText? (millis.fdiv millisPerDay)).map fun date =>
    date ++ " " ++ padded 2 (seconds / 3600) ++ ":" ++ padded 2 (seconds / 60 % 60) ++ ":" ++
      padded 2 (seconds % 60)

def takeDigits? (count : Nat) (text : List Char) : Option (Nat × List Char) :=
  let digits := text.take count
  if digits.length = count ∧ digits.all Char.isDigit then some (digitsValue digits, text.drop count)
  else none

def takeChar? (c : Char) : List Char → Option (List Char)
  | d :: rest => if d = c then some rest else none
  | [] => none

def takeDate? (text : List Char) : Option (Int × List Char) := do
  let (negative, text) := splitSign text
  let (year, text) ← takeDigits? 4 text
  let text ← takeChar? '-' text
  let (month, text) ← takeDigits? 2 text
  let text ← takeChar? '-' text
  let (day, text) ← takeDigits? 2 text
  let c : Civil := ⟨if negative then -(year : Int) else year, month, day⟩
  if c.valid then some (c.days, text) else none

def readDate? (text : List Char) : Option Int := do
  let (days, rest) ← takeDate? text
  if rest.isEmpty then some days else none

def readTimestamp? (text : List Char) : Option Int := do
  let (days, text) ← takeDate? text
  let text ← takeChar? ' ' text
  let (hour, text) ← takeDigits? 2 text
  let text ← takeChar? ':' text
  let (minute, text) ← takeDigits? 2 text
  let text ← takeChar? ':' text
  let (second, text) ← takeDigits? 2 text
  if text.isEmpty ∧ hour < 24 ∧ minute < 60 ∧ second < 60 then
    some (days * millisPerDay + (hour * 3600 + minute * 60 + second) * 1000)
  else none

end FederatedQuery.Calendar
