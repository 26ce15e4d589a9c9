import JourneyPlanner.Proofs.Calendar.Minutes
import JourneyPlanner.Proofs.Router

/-!
# The interval of a request in minutes

A request gives its interval in seconds, at any instants. The main result of this file,
`clipping_exact`:

> an interval is refused exactly if it has no second in common with the period, and otherwise it
> comes to two minutes between which lie the minutes of the period that start within it, and no
> others.

Its begin is rounded up and its end down (`Period.toTimeUp?_le_iff`, `Period.le_toTime?_iff`), both
after they have been cut to the period. So an interval within one minute comes to minutes in the
wrong order, with nothing in between. The period ends where a minute starts, hence rounding up leads
no further, and all numbers on the way stay within their bits (`Interval.fits_of_mem_reckoned`).
-/

namespace JourneyPlanner

namespace Interval

/-- The interval and the period, both with their ends, have a second in common. -/
def Meets (interval : Interval) (period : Period) : Prop :=
  ∃ second : Int, (interval.begin ≤ second ∧ second ≤ interval.finish) ∧
    period.toInstant 0 ≤ second ∧ second ≤ period.toInstant period.finish

/-- The numbers of sixty-four bits that come up while an interval is cut to a period: the ends of the
period, and if the interval meets it, what rounding its own ends up and down takes. -/
def reckoned (interval : Interval) (period : Period) : List Int :=
  let first := period.toInstant 0
  let last := period.toInstant period.finish
  [period.beginning, period.finish * 60, first, last] ++
    if interval.finish < first ∨ last < interval.begin then []
    else
      let begin := max interval.begin first
      let into := (begin - period.beginning) % 60
      let full := if into = 0 then begin else begin + (60 - into)
      let finish := min interval.finish last
      [begin - period.beginning, into, 60 - into, full, full - period.beginning,
        (full - period.beginning) / 60, finish - period.beginning, (finish - period.beginning) / 60]

variable {interval : Interval} {period : Period}

/-- Of an interval that begins before it ends, each end has to be on its side of the period. -/
theorem meets_iff (horder : interval.begin ≤ interval.finish) : interval.Meets period ↔
    period.toInstant 0 ≤ interval.finish ∧ interval.begin ≤ period.toInstant period.finish := by
  constructor
  · rintro ⟨second, ⟨hbegin, hfinish⟩, hfirst, hlast⟩
    exact ⟨Int.le_trans hfirst hfinish, Int.le_trans hbegin hlast⟩
  · rintro ⟨hfinish, hbegin⟩
    have hperiod : (period.toInstant 0 : Int) ≤ period.toInstant period.finish :=
      Period.toInstant_mono (Nat.zero_le _)
    exact ⟨max interval.begin (period.toInstant 0),
      ⟨Int.le_max_left _ _, Int.max_le.2 ⟨horder, hfinish⟩⟩,
      Int.le_max_right _ _, Int.max_le.2 ⟨hbegin, hperiod⟩⟩

/-- No number on the way passes sixty-four bits. -/
theorem fits_of_mem_reckoned (hceiling : period.finish ≤ Bounded.ceiling) :
    ∀ x ∈ interval.reckoned period, Bounded.Instant.Fits x := by
  obtain ⟨hearly, hlate⟩ : -8400000000000 ≤ period.beginning ∧ period.beginning ≤ 8400000000000 :=
    Date.midnight_bounds period.firstDay
  have hend : (period.finish : Int) ≤ 4294967295 := Int.ofNat_le.2 hceiling
  have hzero := Period.toInstant_eq period 0
  have hfinish := Period.toInstant_eq period period.finish
  unfold reckoned
  intro x hx
  rcases List.mem_append.1 hx with hends | hrest
  · simp only [List.mem_cons, List.not_mem_nil, or_false] at hends
    exact Bounded.Instant.fits_of_bounds (by simp only [Bounded.Instant] at *; omega)
      (by simp only [Bounded.Instant] at *; omega)
  · split at hrest
    · cases hrest
    · next hmeets =>
      -- both ends have been cut to the period, and it ends on a full minute
      simp only [List.mem_cons, List.not_mem_nil, or_false] at hrest
      exact Bounded.Instant.fits_of_bounds (by simp only [Bounded.Instant] at *; omega)
        (by simp only [Bounded.Instant] at *; omega)

end Interval

namespace Request

/-- An interval that meets the period comes to minutes. -/
theorem exists_scheduleInterval {period : Period} (hceiling : period.finish ≤ Bounded.ceiling)
    {interval : Interval} (hfinish : period.toInstant 0 ≤ interval.finish)
    (hbegin : interval.begin ≤ period.toInstant period.finish) :
    ∃ begin finish, scheduleInterval period interval = .ok (begin, finish) ∧
      period.toTimeUp? (max interval.begin (period.toInstant 0)) = some begin ∧
      period.toTime? (min interval.finish (period.toInstant period.finish)) = some finish := by
  have hperiod : (period.toInstant 0 : Int) ≤ period.toInstant period.finish :=
    Period.toInstant_mono (Nat.zero_le _)
  obtain ⟨begin, hup⟩ := Period.exists_toTimeUp? hceiling
    (Int.le_max_right interval.begin (period.toInstant 0)) (Int.max_le.2 ⟨hbegin, hperiod⟩)
  obtain ⟨finish, hdown⟩ := Period.exists_toTime? hceiling (Int.le_min.2 ⟨hfinish, hperiod⟩)
    (Int.min_le_right interval.finish (period.toInstant period.finish))
  refine ⟨begin, finish, ?_, hup, hdown⟩
  unfold scheduleInterval
  dsimp only
  rw [if_neg (not_or.2 ⟨Int.not_lt.2 hfinish, Int.not_lt.2 hbegin⟩), hup, hdown]

/-- An interval is refused exactly if it does not meet the period, and otherwise the minutes of the
period that start within it are those between two minutes. -/
theorem clipping_exact {period : Period} (hdays : period.days ≤ DayMask.maxDays)
    {interval : Interval} (horder : interval.begin ≤ interval.finish) :
    (scheduleInterval period interval = .error .outsideSchedule ↔ ¬ interval.Meets period) ∧
    (interval.Meets period → ∃ begin finish,
      scheduleInterval period interval = .ok (begin, finish) ∧
      ∀ minute ≤ period.finish, begin ≤ minute ∧ minute ≤ finish ↔
        interval.begin ≤ period.toInstant minute ∧
          period.toInstant minute ≤ interval.finish) ∧
    period.finish ≤ Bounded.ceiling ∧ ∀ x ∈ interval.reckoned period, Bounded.Instant.Fits x := by
  have hceiling : period.finish ≤ Bounded.ceiling := by
    have hdays : period.days ≤ 64 := hdays
    simp only [Period.finish, Time.ofDay, Time.perDay, Bounded.ceiling, Time] at *
    omega
  rw [Interval.meets_iff horder]
  refine ⟨⟨fun herror hmeets => ?_, fun hapart => ?_⟩, fun hmeets => ?_, hceiling,
    Interval.fits_of_mem_reckoned hceiling⟩
  · obtain ⟨begin, finish, hok, -⟩ := exists_scheduleInterval hceiling hmeets.1 hmeets.2
    rw [herror] at hok
    cases hok
  · unfold scheduleInterval
    dsimp only
    rw [if_pos (by rw [not_and_or, Int.not_le, Int.not_le] at hapart; exact hapart)]
  · obtain ⟨begin, finish, hok, hup, hdown⟩ :=
      exists_scheduleInterval hceiling hmeets.1 hmeets.2
    refine ⟨begin, finish, hok, fun minute hminute => ?_⟩
    -- within the period the cut makes no difference
    have hafter : (period.toInstant 0 : Int) ≤ period.toInstant minute :=
      Period.toInstant_mono (Nat.zero_le _)
    have hbefore : (period.toInstant minute : Int) ≤ period.toInstant period.finish :=
      Period.toInstant_mono hminute
    rw [Period.toTimeUp?_le_iff hup, Period.le_toTime?_iff hdown, Int.max_le, Int.le_min]
    exact ⟨fun h => ⟨h.1.1, h.2.1⟩, fun h => ⟨⟨h.1, hafter⟩, h.2, hbefore⟩⟩

/-- From half a minute past midnight to half a minute past one minute after, the minute in between
is what there is. -/
theorem clipping_exact_halfMinutes :
    let period : Period := { firstDay := Fixture.firstMonday, days := 1 }
    let interval : Interval :=
      { begin := period.toInstant 0 + 30, finish := period.toInstant 1 + 30 }
    period.days ≤ DayMask.maxDays ∧ interval.begin ≤ interval.finish ∧ interval.Meets period ∧
      ∃ begin finish, scheduleInterval period interval = .ok (begin, finish) ∧
        (begin ≤ 1 ∧ 1 ≤ finish) ∧ ¬ (begin ≤ 0 ∧ 0 ≤ finish) ∧ ¬ (begin ≤ 2 ∧ 2 ≤ finish) := by
  intro period interval
  have hdays : period.days ≤ DayMask.maxDays := by decide
  have horder : interval.begin ≤ interval.finish := by decide
  have hmeets : interval.Meets period := (Interval.meets_iff horder).2 (by decide)
  obtain ⟨begin, finish, hok, hminutes⟩ := (clipping_exact hdays horder).2.1 hmeets
  refine ⟨hdays, horder, hmeets, begin, finish, hok, (hminutes 1 (by decide)).2 (by decide),
    fun h => ?_, fun h => ?_⟩
  · exact absurd ((hminutes 0 (by decide)).1 h) (by decide)
  · exact absurd ((hminutes 2 (by decide)).1 h) (by decide)

end Request

end JourneyPlanner
