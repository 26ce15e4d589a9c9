import JourneyPlanner.Calendar.Clock
import JourneyPlanner.Calendar.Date
/-!
# The period of a schedule

A schedule covers some days from a first day on. Within the period instants and schedule times map to
each other: `Period.toInstant` of a time is the start of its minute, and `Period.toTime?` of any
instant of that minute is the time again. Instants before the period or past its end have no time.
-/

namespace JourneyPlanner

/-- The calendar days that a schedule covers. -/
structure Period where
  firstDay : Date
  days : Nat
  deriving DecidableEq

namespace Period

open Bounded

/-- The instant at which the period begins. -/
def beginning (period : Period) : Instant := period.firstDay.midnight

/-- The first time after the last day. -/
def finish (period : Period) : Time := Time.ofDay period.days 0

/-- The instant at which a minute starts. -/
def toInstant (period : Period) (time : Time) : Instant := period.beginning + time * 60

/-- The minute that an instant falls into. -/
def toTime? (period : Period) (instant : Instant) : Option Time := do
  let offset ← Instant.check? (instant - period.beginning)
  if offset < 0 then none
  else
    let minutes := offset.toNat / 60
    if minutes ≤ ceiling ∧ minutes ≤ period.finish then some minutes else none

/-- The first minute that starts at the instant or later. -/
def toTimeUp? (period : Period) (instant : Instant) : Option Time := do
  let into := (← Instant.check? (instant - period.beginning)) % 60
  if into = 0 then period.toTime? instant
  else period.toTime? (← Instant.check? (instant + (60 - into)))

end Period

end JourneyPlanner
