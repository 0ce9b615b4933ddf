import FederatedQuery.Calendar.Text

/-!
Dates and times of day in a configuration, alone or together. Those that stand together can have an
offset from universal time. Each has one text, however it was written.
-/
namespace FederatedQuery.Config

open Calendar (Civil padded)

structure Clock where
  hour : Nat
  minute : Nat
  /-- Up to sixty, for a leap second. -/
  second : Nat
  nanos : Nat

inductive Offset where
  | universal
  | minutes (n : Int)

inductive Moment where
  | date (date : Civil)
  | time (time : Clock)
  | both (date : Civil) (time : Clock) (offset : Option Offset)

/-! Texts. -/

/-- The digits after a point, without zeros at their end; nothing when there are no others. -/
def fractionText (nanos : Nat) : String :=
  if nanos = 0 then ""
  else "." ++ String.ofList ((padded 9 nanos).toList.reverse.dropWhile (· = '0')).reverse

def Clock.text (t : Clock) : String :=
  padded 2 t.hour ++ ":" ++ padded 2 t.minute ++ ":" ++ padded 2 t.second ++ fractionText t.nanos

def Offset.text : Offset → String
  | universal => "Z"
  | minutes n =>
    (if n < 0 then "-" else "+") ++ padded 2 (n.natAbs / 60) ++ ":" ++ padded 2 (n.natAbs % 60)

def Moment.text : Moment → String
  | date d => d.text
  | time t => t.text
  | both d t offset => d.text ++ "T" ++ t.text ++ (offset.map Offset.text).getD ""

/-! Reading. Each reader takes what it reads from the front of the text and gives the rest. -/

def takeDate? (text : List Char) : Option (Civil × List Char) := do
  let (year, text) ← Calendar.takeDigits? 4 text
  let text ← Calendar.takeChar? '-' text
  let (month, text) ← Calendar.takeDigits? 2 text
  let text ← Calendar.takeChar? '-' text
  let (day, text) ← Calendar.takeDigits? 2 text
  let date : Civil := ⟨year, month, day⟩
  if date.valid then some (date, text) else none

/-- Billionths from the digits after a point, of which those after the ninth do not count. -/
def takeNanos? : List Char → Option (Nat × List Char)
  | '.' :: text =>
    let digits := text.takeWhile Char.isDigit
    if digits.isEmpty then none
    else some (digitsValue (digits.take 9) * Nat.pow 10 (9 - digits.length), text.dropWhile Char.isDigit)
  | _ => none

def takeHourMinute? (text : List Char) : Option (Nat × Nat × List Char) := do
  let (hour, text) ← Calendar.takeDigits? 2 text
  let text ← Calendar.takeChar? ':' text
  let (minute, text) ← Calendar.takeDigits? 2 text
  if hour < 24 ∧ minute < 60 then some (hour, minute, text) else none

def takeClock? (text : List Char) : Option (Clock × List Char) := do
  let (hour, minute, text) ← takeHourMinute? text
  let text ← Calendar.takeChar? ':' text
  let (second, text) ← Calendar.takeDigits? 2 text
  let (nanos, text) := (takeNanos? text).getD (0, text)
  if second ≤ 60 then some (⟨hour, minute, second, nanos⟩, text) else none

def takeOffset? : List Char → Option (Offset × List Char)
  | 'Z' :: text | 'z' :: text => some (.universal, text)
  | '+' :: text => (takeHourMinute? text).map fun (hour, minute, text) =>
    (.minutes (60 * hour + minute), text)
  | '-' :: text => (takeHourMinute? text).map fun (hour, minute, text) =>
    (.minutes (-(60 * hour + minute)), text)
  | _ => none

/-- What follows the mark between a date and a time. -/
def afterMark? : List Char → Option (List Char)
  | 'T' :: text | 't' :: text | ' ' :: text => some text
  | _ => none

def takeMoment? (text : List Char) : Option (Moment × List Char) :=
  match takeDate? text with
  | none => (takeClock? text).map fun (time, text) => (.time time, text)
  | some (date, text) => match (afterMark? text).bind takeClock? with
    | none => some (.date date, text)
    | some (time, text) => match takeOffset? text with
      | none => some (.both date time none, text)
      | some (offset, text) => some (.both date time (some offset), text)

end FederatedQuery.Config
