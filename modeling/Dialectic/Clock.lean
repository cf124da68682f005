import Dialectic.Json.Misuse
import Dialectic.Number.Shortest

/-!
# Points in time

A point in time in coordinated universal time, and its text. A clock is read off a list of numbers,
from the year down to the microsecond; what is left out at the end of the time of day is zero, and
numbers that are no date or no time of day are refused, the first one first.
-/

namespace Dialectic

/-- A point in time by its calendar date and its time of day. -/
structure Instant where
  year : Nat
  month : Nat
  day : Nat
  hour : Nat
  minute : Nat
  second : Nat
  microsecond : Nat
  deriving DecidableEq, Repr

namespace Instant

/-- The text of a point in time: date, time of day, the microseconds unless they are zero, and the
offset of universal time. -/
def text (t : Instant) : String :=
  let two n := paddedDigits 2 n
  let date := paddedDigits 4 t.year ++ '-' :: two t.month ++ '-' :: two t.day
  let time := two t.hour ++ ':' :: two t.minute ++ ':' :: two t.second
  let fraction := if t.microsecond = 0 then [] else '.' :: paddedDigits 6 t.microsecond
  String.ofList (date ++ 'T' :: time ++ fraction ++ ['+', '0', '0', ':', '0', '0'])

/-! ## The calendar -/

/-- Whether a year has a day more than others. -/
def isLeapYear (year : Nat) : Bool := year % 4 == 0 && (year % 100 != 0 || year % 400 == 0)

/-- The number of days of a month. -/
def daysOfMonth (year month : Nat) : Nat :=
  if month = 2 then if isLeapYear year then 29 else 28
  else if month = 4 ∨ month = 6 ∨ month = 9 ∨ month = 11 then 30
  else 31

/-- A year has a day in February exactly every fourth year, but not every hundredth that is no four
hundredth. -/
example :
    (daysOfMonth 2023 2, daysOfMonth 2024 2, daysOfMonth 1900 2, daysOfMonth 2000 2) =
      (28, 29, 28, 29) := by
  decide

/-! ## Reading a clock -/

/-- The names of the numbers of a clock that cannot be left out. -/
def neededParts : List String := ["year", "month", "day"]

/-- Why a clock shows no time. -/
inductive ClockError where
  /-- There are no numbers to go through. -/
  | noList (kind : String)
  /-- A part is left out that cannot be. -/
  | missing (name : String) (position : Nat)
  /-- There is one part too many, in the place of the offset. -/
  | offsetTwice
  /-- There are many parts too many. -/
  | tooMany (count : Nat)
  /-- A part is no integer. -/
  | misuse (e : Json.Misuse)
  /-- A part has more than sixty-four bits. -/
  | tooWide
  /-- A part is greater than any number of thirty-two bits. -/
  | tooGreat
  /-- A part is less than any number of thirty-two bits. -/
  | tooSmall
  /-- There is no such year. -/
  | year (n : Int)
  /-- A month has no such day. -/
  | day
  /-- A part is out of range. -/
  | range (name : String) (low high : Nat)
  deriving DecidableEq, Repr

/-- What the error says. -/
def ClockError.message : ClockError → String
  | .noList kind => "datetime.datetime() argument after * must be an iterable, not " ++ kind
  | .missing name position =>
    "function missing required argument '" ++ name ++ "' (pos " ++ toString position ++ ")"
  | .offsetTwice => "argument for function given by name ('tzinfo') and position (8)"
  | .tooMany count => "function takes at most 9 arguments (" ++ toString count ++ " given)"
  | .misuse e => e.message
  | .tooWide => "Python int too large to convert to C long"
  | .tooGreat => "signed integer is greater than maximum"
  | .tooSmall => "signed integer is less than minimum"
  | .year n => "year " ++ toString n ++ " is out of range"
  | .day => "day is out of range for month"
  | .range name low high => name ++ " must be in " ++ toString low ++ ".." ++ toString high

/-- The number of thirty-two bits with a sign that a value is. -/
def word (v : Json) : Except ClockError Int := do
  let n ← v.count.mapError .misuse
  if n < -9223372036854775808 ∨ 9223372036854775807 < n then throw .tooWide
  if 2147483647 < n then throw .tooGreat
  if n < -2147483648 then throw .tooSmall
  return n

/-- A number that must lie between two others. -/
def inRange (name : String) (low high : Nat) (n : Int) : Except ClockError Nat :=
  if (low : Int) ≤ n ∧ n ≤ high then .ok n.toNat else .error (.range name low high)

/-- The point in time of seven numbers. -/
def ofNumbers (year month day hour minute second microsecond : Int) :
    Except ClockError Instant := do
  if year < 1 ∨ 9999 < year then throw (.year year)
  let month ← inRange "month" 1 12 month
  if day < 1 ∨ (daysOfMonth year.toNat month : Int) < day then throw .day
  let hour ← inRange "hour" 0 23 hour
  let minute ← inRange "minute" 0 59 minute
  let second ← inRange "second" 0 59 second
  let microsecond ← inRange "microsecond" 0 999999 microsecond
  return ⟨year.toNat, month, day.toNat, hour, minute, second, microsecond⟩

/-- The point in time that a clock shows which has the given parts. -/
def ofParts (parts : List Json) : Except ClockError Instant := do
  if 8 < parts.length then throw (.tooMany (parts.length + 1))
  let numbers ← (parts.take 7).mapM word
  if 7 < parts.length then throw .offsetTwice
  match numbers with
  | year :: month :: day :: time =>
    ofNumbers year month day (time.getD 0 0) (time.getD 1 0) (time.getD 2 0) (time.getD 3 0)
  | _ => throw (.missing (neededParts.getD parts.length "") (parts.length + 1))

/-- The point in time that a clock shows. -/
def ofJson (clock : Json) : Except ClockError Instant :=
  match clock.parts? with
  | some parts => ofParts parts
  | none => .error (.noList clock.kind)

end Instant

end Dialectic
