import JourneyPlanner.Bounded
import JourneyPlanner.Text.Padded
/-!
# Schedule time

A schedule counts time in whole minutes from midnight of its first day. A minute has a day and a
minute of that day; together they give the minute back (`Time.ofDay_day_minuteOfDay`). Times are
written as hours and minutes of the day, and read as hours and minutes from the start of a day, where
hours run on to 47 so that events of the following night belong to the day they started on.
-/

namespace JourneyPlanner

/-- A point in schedule time: minutes since midnight of the schedule's first day. -/
abbrev Time := Nat

/-- Why a text is no time of day. -/
inductive ClockFault where
  | shape
  | colon
  | hourDigits
  | hourRange
  | minuteDigits
  | minuteRange
  deriving DecidableEq, Repr

/-- What is wrong with the text. -/
def ClockFault.reason : ClockFault → String
  | shape => "expected HH:MM format"
  | colon => "expected colon at position 2"
  | hourDigits => "invalid hour digits"
  | hourRange => "hour must be 0-47"
  | minuteDigits => "invalid minute digits"
  | minuteRange => "minute must be 0-59"

/-- The message for a text that is no time of day. -/
def ClockFault.message (fault : ClockFault) : String := "invalid time: " ++ fault.reason

namespace Time

/-- Minutes in a day. -/
def perDay : Nat := 1440

/-- The minute `offset` minutes after midnight of `day`; the offset may reach into later days. -/
def ofDay (day offset : Nat) : Time := day * perDay + offset

/-- The day a time falls on. -/
def day (time : Time) : Nat := time / perDay

/-- The minute of its day, below `perDay`. -/
def minuteOfDay (time : Time) : Nat := time % perDay

/-- Hours and minutes of the day. -/
def renderClock (time : Time) : String :=
  let minute := Time.minuteOfDay time
  Text.padded 2 (minute / 60) ++ ":" ++ Text.padded 2 (minute % 60)

/-- Hours and minutes of the day, and the day unless it is the first. -/
def render (time : Time) : String :=
  Time.renderClock time ++ (if 0 < Time.day time then "+" ++ toString (Time.day time) else "")

/-- The day and the time of day in full. -/
def renderFull (time : Time) : String :=
  "Time(day " ++ toString (Time.day time) ++ " " ++ Time.renderClock time ++ ")"

/-- The value of a decimal digit. -/
def digit? (byte : UInt8) : Option Nat :=
  if 48 ≤ byte.toNat ∧ byte.toNat ≤ 57 then some (byte.toNat - 48) else none

/-- The value of two decimal digits. -/
def twoDigits? (tens ones : UInt8) : Option Nat := do
  return (← digit? tens) * 10 + (← digit? ones)

/-- Reads hours and minutes from the start of `day`. A text of five bytes with a colon in the middle
is required before any digit is looked at, and the hour is judged before the minute. -/
def parse (text : String) (day : Nat) : Except ClockFault Time :=
  match text.toUTF8.toList with
  | [h₁, h₂, separator, m₁, m₂] =>
    if separator.toNat ≠ 58 then .error .colon
    else
      match twoDigits? h₁ h₂ with
      | none => .error .hourDigits
      | some hour =>
        if 47 < hour then .error .hourRange
        else
          match twoDigits? m₁ m₂ with
          | none => .error .minuteDigits
          | some minute =>
            if 59 < minute then .error .minuteRange else .ok (ofDay day (hour * 60 + minute))
  | _ => .error .shape

theorem minuteOfDay_lt (time : Time) : minuteOfDay time < perDay := Nat.mod_lt _ (by decide)

theorem ofDay_day_minuteOfDay (time : Time) : ofDay (day time) (minuteOfDay time) = time := by
  unfold ofDay day minuteOfDay
  rw [Nat.mul_comm]
  exact Nat.div_add_mod time perDay

end Time

end JourneyPlanner
