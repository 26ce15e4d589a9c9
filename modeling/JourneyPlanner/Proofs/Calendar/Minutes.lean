import JourneyPlanner.Calendar.Period

/-!
# Minutes and instants

A schedule counts minutes and a calendar counts seconds. An instant comes to a minute by rounding
down or up, and each of the two is told by the instants at which minutes start:

> a minute is at most the one that an instant falls into if and only if it starts by that instant
> (`Period.le_toTime?_iff`); and the first one from the instant on is at most a minute if and only
> if that minute does not start before the instant (`Period.toTimeUp?_le_iff`).

Every instant of a period comes to a minute in both ways (`Period.exists_toTime?`,
`Period.exists_toTimeUp?`), as long as the end of the period is a time. That nothing passes
sixty-four bits on the way is a matter of the calendar: its years are so few that all midnights lie
far within (`Date.midnight_bounds`).
-/

namespace JourneyPlanner

/-! ## Midnights -/

namespace Calendar

/-- No month has more than 31 days. -/
theorem monthLength_le (year : Int) (month : Nat) : monthLength year month ≤ 31 := by
  unfold monthLength
  split
  · split <;> omega
  · split
    · omega
    · split <;> omega

/-- Only the twelve months have days at all. -/
theorem le_twelve_of_monthLength {year : Int} {month : Nat} (h : 1 ≤ monthLength year month) :
    month ≤ 12 := by
  unfold monthLength at h
  split at h
  · next htwo =>
    rw [beq_iff_eq.1 htwo]
    omega
  · split at h
    · next hshort =>
      have hmem : month ∈ [4, 6, 9, 11] := List.contains_iff_mem.1 hshort
      simp only [List.mem_cons, List.not_mem_nil, or_false] at hmem
      omega
    · split at h <;> omega

/-- Counted month by month, the days are at most 31 for each. -/
theorem foldl_monthLength_le (year : Int) (months : List Nat) (days : Nat) :
    months.foldl (fun days m => days + monthLength year (m + 1)) days ≤
      days + 31 * months.length := by
  induction months generalizing days with
  | nil => exact Nat.le_refl _
  | cons m months ih =>
    rw [List.foldl_cons, List.length_cons]
    have hmonth := monthLength_le year (m + 1)
    have hrest := ih (days + monthLength year (m + 1))
    omega

/-- Before a month lie at most 31 days for each month before it. -/
theorem daysBeforeMonth_le (year : Int) (month : Nat) :
    daysBeforeMonth year month ≤ 31 * (month - 1) := by
  have h := foldl_monthLength_le year (List.range (month - 1)) 0
  rw [List.length_range, Nat.zero_add] at h
  exact h

end Calendar

/-- No midnight is further from 1970 than about two hundred and sixty-six thousand years. -/
theorem Date.midnight_bounds (date : Date) :
    -8400000000000 ≤ date.midnight ∧ date.midnight ≤ 8400000000000 := by
  obtain ⟨hearly, hlate⟩ := of_decide_eq_true date.hasYear
  obtain ⟨hday, hlast⟩ := date.isDay
  have hlength := Calendar.monthLength_le date.year date.month
  have hmonth := Calendar.le_twelve_of_monthLength (Nat.le_trans hday hlast)
  have hbefore := Calendar.daysBeforeMonth_le date.year date.month
  unfold Date.midnight Date.epochDay Calendar.daysBeforeYear
  dsimp only
  omega

/-! ## Sixty-four bits -/

namespace Bounded.Instant

/-- A number of sixty-four bits. -/
def Fits (x : Int) : Prop := least ≤ x ∧ x ≤ greatest

/-- A checked number is the number itself, and it fits. -/
theorem check?_eq_some_iff {x y : Int} : check? x = some y ↔ y = x ∧ Fits x := by
  unfold check? Fits
  split
  · next h =>
    rw [Option.some.injEq]
    exact ⟨fun heq => ⟨heq.symm, h⟩, fun heq => heq.1.symm⟩
  · next h =>
    constructor
    · intro heq
      cases heq
    · exact fun heq => absurd heq.2 h

/-- Everything within some eighteen thousand milliards fits. -/
theorem fits_of_bounds {x : Int} (hlow : -18000000000000 ≤ x) (hhigh : x ≤ 18000000000000) :
    Fits x := by
  unfold Fits least greatest
  simp only [Bounded.Instant]
  omega

end Bounded.Instant

/-! ## Rounding -/

namespace Period

open Bounded

variable {period : Period} {instant : Int} {time : Time} {minute : Nat}

/-- A time is the beginning of the period and sixty seconds for each of its minutes. -/
theorem toInstant_eq (period : Period) (time : Nat) :
    (period.toInstant time : Int) = (period.beginning : Int) + 60 * (time : Int) := by
  rw [Int.mul_comm]
  rfl

/-- Later minutes are later instants. -/
theorem toInstant_mono {a b : Nat} (h : a ≤ b) :
    (period.toInstant a : Int) ≤ (period.toInstant b : Int) := by
  rw [toInstant_eq, toInstant_eq]
  simp only [Bounded.Instant]
  omega

/-- The minute that an instant falls into. -/
theorem toTime?_eq_some_iff : period.toTime? instant = some time ↔
    Instant.Fits (instant - period.beginning) ∧ period.toInstant time ≤ instant ∧
      instant < period.toInstant time + 60 ∧ time ≤ ceiling ∧ time ≤ period.finish := by
  rw [toInstant_eq]
  unfold toTime?
  rw [Option.bind_eq_bind, Option.bind_eq_some_iff]
  constructor
  · rintro ⟨offset, hoffset, h⟩
    obtain ⟨rfl, hfits⟩ := Instant.check?_eq_some_iff.1 hoffset
    dsimp only at h
    split at h
    · cases h
    · split at h
      · next hneg hle =>
        cases h
        simp only [Bounded.Instant] at hneg ⊢
        exact ⟨hfits, by omega, by omega, hle⟩
      · cases h
  · rintro ⟨hfits, hstart, hlast, hle⟩
    refine ⟨_, Instant.check?_eq_some_iff.2 ⟨rfl, hfits⟩, ?_⟩
    simp only [Bounded.Instant] at hstart hlast ⊢
    have hminute : (instant - period.beginning).toNat / 60 = time := by
      simp only [Bounded.Instant, Time] at *
      omega
    rw [if_neg (by simp only [Time] at *; omega), hminute, if_pos hle]

/-- Rounding down: a minute is at most the one that an instant falls into if and only if it starts
by then. -/
theorem le_toTime?_iff (h : period.toTime? instant = some time) :
    minute ≤ time ↔ period.toInstant minute ≤ instant := by
  obtain ⟨-, hstart, hlast, -⟩ := toTime?_eq_some_iff.1 h
  rw [toInstant_eq] at *
  simp only [Bounded.Instant, Time] at *
  omega

/-- The first minute from an instant on. -/
theorem toTimeUp?_spec (h : period.toTimeUp? instant = some time) :
    instant ≤ period.toInstant time ∧ period.toInstant time < instant + 60 := by
  unfold toTimeUp? at h
  obtain ⟨offset, hoffset, h⟩ := Option.bind_eq_some_iff.1 h
  obtain ⟨rfl, -⟩ := Instant.check?_eq_some_iff.1 hoffset
  dsimp only at h
  split at h
  · next hfull =>
    obtain ⟨-, hstart, hlast, -⟩ := toTime?_eq_some_iff.1 h
    rw [toInstant_eq] at *
    simp only [Bounded.Instant] at *
    omega
  · obtain ⟨next, hnext, h⟩ := Option.bind_eq_some_iff.1 h
    obtain ⟨rfl, -⟩ := Instant.check?_eq_some_iff.1 hnext
    obtain ⟨-, hstart, hlast, -⟩ := toTime?_eq_some_iff.1 h
    rw [toInstant_eq] at *
    simp only [Bounded.Instant] at *
    omega

/-- Rounding up: the first minute from an instant on is at most some minute if and only if that
minute does not start before. -/
theorem toTimeUp?_le_iff (h : period.toTimeUp? instant = some time) :
    time ≤ minute ↔ instant ≤ period.toInstant minute := by
  obtain ⟨hle, hlt⟩ := toTimeUp?_spec h
  rw [toInstant_eq] at *
  simp only [Bounded.Instant, Time] at *
  omega

/-! ## Instants of the period -/

section Within

variable (hceiling : period.finish ≤ ceiling) (hfirst : period.toInstant 0 ≤ instant)
  (hlast : instant ≤ period.toInstant period.finish)

include hceiling hfirst hlast

/-- An instant within the period has a minute of the schedule. -/
theorem exists_toTime? : ∃ time, period.toTime? instant = some time := by
  have hminute : ∃ time : Nat, (period.toInstant time : Int) ≤ instant ∧
      instant < period.toInstant time + 60 ∧ time ≤ period.finish := by
    refine ⟨((instant - period.beginning) / 60).toNat, ?_⟩
    rw [toInstant_eq] at *
    simp only [Bounded.Instant, Time] at *
    omega
  obtain ⟨time, hstart, hend, hle⟩ := hminute
  refine ⟨time, toTime?_eq_some_iff.2 ⟨Instant.fits_of_bounds ?_ ?_, hstart, hend,
    Nat.le_trans hle hceiling, hle⟩⟩
  · rw [toInstant_eq] at hfirst
    simp only [Bounded.Instant] at *
    omega
  · rw [toInstant_eq] at hlast
    simp only [Bounded.Instant, ceiling, Time] at *
    omega

/-- An instant within the period has a minute of the schedule when rounded up as well. -/
theorem exists_toTimeUp? : ∃ time, period.toTimeUp? instant = some time := by
  obtain ⟨hearly, hlate⟩ : -8400000000000 ≤ period.beginning ∧ period.beginning ≤ 8400000000000 :=
    Date.midnight_bounds period.firstDay
  have hend : (period.finish : Int) ≤ 4294967295 := Int.ofNat_le.2 hceiling
  have hzero := toInstant_eq period 0
  have hfinish := toInstant_eq period period.finish
  have hoffset : Instant.check? (instant - period.beginning) = some _ :=
    Instant.check?_eq_some_iff.2 ⟨rfl, Instant.fits_of_bounds
      (by simp only [Bounded.Instant] at *; omega) (by simp only [Bounded.Instant] at *; omega)⟩
  unfold toTimeUp?
  simp only [hoffset, Option.bind_eq_bind, Option.bind_some]
  split
  · exact exists_toTime? hceiling hfirst hlast
  · next hpart =>
    -- the period ends on a full minute, so the next full minute is still within
    have hsum : Instant.check? (instant + (60 - (instant - period.beginning) % 60)) = some _ :=
      Instant.check?_eq_some_iff.2 ⟨rfl, Instant.fits_of_bounds
        (by simp only [Bounded.Instant] at *; omega) (by simp only [Bounded.Instant] at *; omega)⟩
    simp only [hsum, Option.bind_some]
    exact exists_toTime? hceiling (by simp only [Bounded.Instant] at *; omega)
      (by simp only [Bounded.Instant] at *; omega)

end Within

end Period

end JourneyPlanner
