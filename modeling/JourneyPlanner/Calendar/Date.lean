import JourneyPlanner.Text.Blank
import JourneyPlanner.Text.Padded
/-!
# Calendar dates

Dates of the Gregorian calendar, continued to all years before it. A `Date` is always a day that
exists. Its distance from the first of January 1970 (`Date.epochDay`) is counted in whole days, and
the written form is year, month and day with hyphens between them.
-/

namespace JourneyPlanner

namespace Calendar

/-- Every fourth year is a leap year, except centuries that four hundred does not divide. -/
def isLeap (year : Int) : Bool := (year % 4 == 0 && year % 100 != 0) || year % 400 == 0

/-- How many days a month has; none for a month that does not exist. -/
def monthLength (year : Int) (month : Nat) : Nat :=
  if month == 2 then if isLeap year then 29 else 28
  else if [4, 6, 9, 11].contains month then 30
  else if 1 ≤ month ∧ month ≤ 12 then 31
  else 0

/-- The years a date may lie in. -/
def hasYear (year : Int) : Bool := decide (-262143 ≤ year ∧ year ≤ 262142)

/-- The days of a year before the given month begins. -/
def daysBeforeMonth (year : Int) (month : Nat) : Nat :=
  (List.range (month - 1)).foldl (fun days m => days + monthLength year (m + 1)) 0

/-- The days from the first of January of year 1 to the first of January of `year`. -/
def daysBeforeYear (year : Int) : Int :=
  let past := year - 1
  365 * past + past / 4 - past / 100 + past / 400

end Calendar

/-- A day of the calendar. -/
structure Date where
  year : Int
  month : Nat
  day : Nat
  hasYear : Calendar.hasYear year = true
  isDay : 1 ≤ day ∧ day ≤ Calendar.monthLength year month
  deriving DecidableEq

namespace Date

open Calendar Text

/-- The date with the given numbers, if there is one. -/
def ofNumbers? (year : Int) (month day : Nat) : Option Date :=
  if hasYear : Calendar.hasYear year = true then
    if isDay : 1 ≤ day ∧ day ≤ monthLength year month then
      some { year, month, day, hasYear, isDay }
    else none
  else none

/-- Whole days since the first of January 1970. -/
def epochDay (date : Date) : Int :=
  daysBeforeYear date.year + daysBeforeMonth date.year date.month + (date.day - 1) - 719162

/-- Seconds from the start of 1970 to midnight of the date. -/
def midnight (date : Date) : Int := date.epochDay * 86400

/-- A year of four digits stands alone; any other year has its sign. -/
def renderYear (year : Int) : String :=
  if 0 ≤ year ∧ year ≤ 9999 then padded 4 year.toNat
  else (if year < 0 then "-" else "+") ++ padded 4 year.natAbs

/-- The date in writing. -/
def render (date : Date) : String :=
  renderYear date.year ++ "-" ++ padded 2 date.month ++ "-" ++ padded 2 date.day

/-- The number that at most `width` decimal digits at the front write, and the text after them. -/
def readNumber? (width : Nat) (cs : List Char) : Option (Nat × List Char) :=
  match (cs.take width).takeWhile (·.isDigit) with
  | [] => none
  | digits => some (digits.foldl (fun n c => n * 10 + (c.toNat - 48)) 0, cs.drop digits.length)

/-- A year: up to four digits, or a sign and any number of digits. -/
def readYear? (cs : List Char) : Option (Int × List Char) :=
  match cs with
  | '-' :: rest => (readNumber? rest.length rest).map fun (n, rest) => (-(n : Int), rest)
  | '+' :: rest => (readNumber? rest.length rest).map fun (n, rest) => ((n : Int), rest)
  | cs => (readNumber? 4 cs).map fun (n, rest) => ((n : Int), rest)

/-- The text after a hyphen and the blanks around it. -/
def skipHyphen? (cs : List Char) : Option (List Char) :=
  match skipBlanks cs with
  | '-' :: rest => some (skipBlanks rest)
  | _ => none

/-- The date that a text writes: year, month and day, with blanks allowed around each. -/
def parse? (text : String) : Option Date := do
  let (year, cs) ← readYear? (skipBlanks text.toList)
  let (month, cs) ← readNumber? 2 (← skipHyphen? cs)
  let (day, cs) ← readNumber? 2 (← skipHyphen? cs)
  if (skipBlanks cs).isEmpty then ofNumbers? year month day else none

theorem epochDay_1970 : epochDay ⟨1970, 1, 1, by decide, by decide⟩ = 0 := by decide

end Date

end JourneyPlanner
