import JourneyPlanner.Proofs.Search.Waiting
import Mathlib.Order.Bounds.Basic

/-!
# The time that a ride takes

An unscheduled ride waits until its window is open, and going backward one sets out early enough for
the window. The main result of this file, `Mumo.ride_time_exact`:

> the time of a ride is its duration and the least number of minutes after which it may set out, or
> going backward, by which it may set out early and not before the first time of all; and it is
> missing exactly if no number of minutes will do. Only for a ride without a window that would have to
> begin before the first time of all, it is the duration all the same.

What a window covers is told without a clock (`RideWindow.Covers`): a window of some minutes each day
is a row of spans, and the span of a day lasts until the finish comes round next, which is past
midnight or a whole day later if it has to be. The test that a search makes of the minute of the day
comes to the same (`RideWindow.covers_iff`).

A ride without a window is not asked whether it would begin before the first time of all
(`Mumo.anytime_too_early`). It takes its duration in any case, and it is left to the search to see that
no time is so early: going backward, a search follows a ride exactly if there is a time to set out, and
comes to the latest one.
-/

namespace JourneyPlanner

/-- The times that a window covers. A daily one has a span from each day on, the days before the
schedule included, which lasts until its finish comes round next. -/
def RideWindow.Covers : RideWindow → Nat → Prop
  | .absolute begin finish, time => begin ≤ time ∧ time < finish
  | .daily begin finish, time => ∃ day : Int, begin + Time.perDay * day ≤ time ∧
      time < (if begin < finish then finish else finish + Time.perDay) + Time.perDay * day

/-- A window that ends where it begins is never shut, and one that ends before it begins runs over
midnight. -/
theorem inDailyWindow_iff {minute begin finish : Nat} : inDailyWindow minute begin finish = true ↔
    begin = finish ∨ begin < finish ∧ begin ≤ minute ∧ minute < finish ∨
      finish < begin ∧ (begin ≤ minute ∨ minute < finish) := by
  unfold inDailyWindow
  split
  · next heq => exact ⟨fun _ => Or.inl heq, fun _ => rfl⟩
  · split
    · rw [Bool.and_eq_true, decide_eq_true_eq, decide_eq_true_eq]
      omega
    · rw [Bool.or_eq_true, decide_eq_true_eq, decide_eq_true_eq]
      omega

/-- Whether the minute of the day lies in a window is whether a day's span covers the time. -/
theorem RideWindow.covers_iff {ride : Mumo} (hday : ride.InDay) {window : RideWindow}
    (hw : ride.window = some window) {time : Nat} :
    window.Covers time ↔ Mumo.IsOpen window time := by
  cases window with
  | absolute begin finish => exact Iff.rfl
  | daily begin finish =>
    obtain ⟨hbegin, hfinish⟩ := hday begin finish hw
    simp only [Covers, Mumo.IsOpen, inDailyWindow_iff]
    unfold Time.minuteOfDay Time.perDay at *
    constructor
    · rintro ⟨day, hfrom, huntil⟩
      split at huntil <;> omega
    · intro hopen
      -- the span that is under way began today, or it began yesterday
      by_cases htoday : begin ≤ time % 1440
      · exact ⟨time / 1440, by omega, by split <;> omega⟩
      · exact ⟨time / 1440 - 1, by omega, by split <;> omega⟩

namespace Mumo

/-- One may set out on a ride at a time. -/
def MayLeave (ride : Mumo) (time : Nat) : Prop :=
  ∀ window, ride.window = some window → window.Covers time

/-- The numbers of minutes after which one may set out from a time on; going backward, those by which
one can be early for it and set out no earlier than there are times. -/
def waits (ride : Mumo) (now : Nat) : Direction → Set Nat
  | .forward => {wait | ride.MayLeave (now + wait)}
  | .backward =>
    {wait | ride.duration + wait ≤ now ∧ ride.MayLeave (now - (ride.duration + wait))}

/-- The minutes up to the end of a ride can be counted. -/
def Countable (ride : Mumo) (now : Nat) : Prop :=
  ∀ wait, IsLeast (ride.waits now .forward) wait → ride.duration + wait ≤ Bounded.ceiling

/-- A ride takes its duration and the least wait, and no time at all exactly if no wait will do. -/
structure TimeExact (ride : Mumo) (now : Nat) (direction : Direction) : Prop where
  some_iff : ∀ time, ride.time? now direction = some time ↔
    ∃ wait, IsLeast (ride.waits now direction) wait ∧ time = ride.duration + wait
  none_iff : ride.time? now direction = none ↔ ride.waits now direction = ∅

variable {ride : Mumo} {window : RideWindow} {now wait time : Nat} {direction : Direction}

theorem mayLeave_iff (hday : ride.InDay) (hw : ride.window = some window) :
    ride.MayLeave time ↔ IsOpen window time := by
  unfold MayLeave
  rw [hw]
  simp only [Option.some.injEq, forall_eq']
  exact RideWindow.covers_iff hday hw

/-- A ride without a window sets out at once, unless it would begin before the first time. -/
theorem isLeast_zero (hw : ride.window = none) (hearly : direction = .backward → ride.duration ≤ now) :
    IsLeast (ride.waits now direction) 0 := by
  have hleave : ∀ time, ride.MayLeave time := fun time window h => by
    rw [hw] at h
    cases h
  refine ⟨?_, fun _ _ => Nat.zero_le _⟩
  cases direction with
  | forward => exact hleave _
  | backward => exact ⟨hearly rfl, hleave _⟩

/-- The wait for a window is the least one. -/
theorem isLeast_wait? (hday : ride.InDay) (hw : ride.window = some window)
    (h : wait? window now = some wait) : IsLeast (ride.waits now .forward) wait := by
  refine ⟨(mayLeave_iff hday hw).2 (isOpen_wait? hday hw h), fun other hother => ?_⟩
  obtain ⟨wait', hwait', hle⟩ :=
    wait?_le hday hw ((mayLeave_iff hday hw).1 hother) (Nat.le_add_right _ _)
  rw [h] at hwait'
  cases hwait'
  exact Nat.le_of_add_le_add_left hle

/-- So is the lead, if there is a time at which one would set out. -/
theorem isLeast_lead? (hday : ride.InDay) (hw : ride.window = some window)
    (h : lead? window (now - ride.duration) = some wait) (hle : ride.duration + wait ≤ now) :
    IsLeast (ride.waits now .backward) wait := by
  refine ⟨⟨hle, ?_⟩, fun other hother => ?_⟩
  · rw [mayLeave_iff hday hw, Nat.sub_add_eq]
    exact isOpen_lead? hday hw h (by omega)
  · obtain ⟨hfirst, hleave⟩ := hother
    obtain ⟨lead, hlead, hlast⟩ := lead?_le hday hw ((mayLeave_iff hday hw).1 hleave)
      (show now - (ride.duration + other) ≤ now - ride.duration by omega)
    rw [h] at hlead
    cases hlead
    omega

/-- What a ride takes is its duration and the least wait. -/
theorem exists_isLeast_of_time? (hday : ride.InDay)
    (hearly : ride.window = none → direction = .backward → ride.duration ≤ now)
    (h : ride.time? now direction = some time) :
    ∃ wait, IsLeast (ride.waits now direction) wait ∧ time = ride.duration + wait := by
  unfold time? at h
  cases hw : ride.window with
  | none =>
    rw [hw] at h
    cases h
    exact ⟨0, isLeast_zero hw (hearly hw), rfl⟩
  | some window =>
    rw [hw] at h
    cases direction with
    | forward =>
      obtain ⟨wait, hwait, h⟩ := Option.bind_eq_some_iff.1 h
      obtain ⟨rfl, -⟩ := Bounded.add?_eq_some_iff.1 h
      exact ⟨wait, isLeast_wait? hday hw hwait, Nat.add_comm _ _⟩
    | backward =>
      obtain ⟨departure, hdeparture, h⟩ := Option.bind_eq_some_iff.1 h
      obtain ⟨lead, hlead, h⟩ := Option.bind_eq_some_iff.1 h
      have hdep := Bounded.sub?_eq_some_iff.1 hdeparture
      dsimp only at h
      split at h
      · next hle =>
        cases h
        rw [show departure = now - ride.duration by omega] at hlead
        exact ⟨lead, isLeast_lead? hday hw hlead hle, rfl⟩
      · cases h

/-- A ride for which one can wait takes some time. -/
theorem exists_time?_of_mem_waits (hday : ride.InDay)
    (hcount : direction = .forward → ride.Countable now) (h : wait ∈ ride.waits now direction) :
    ∃ time, ride.time? now direction = some time := by
  unfold time?
  cases hw : ride.window with
  | none => exact ⟨_, rfl⟩
  | some window =>
    cases direction with
    | forward =>
      obtain ⟨least, hleast, -⟩ :=
        wait?_le hday hw ((mayLeave_iff hday hw).1 h) (Nat.le_add_right _ _)
      have hcount := hcount rfl least (isLeast_wait? hday hw hleast)
      refine ⟨least + ride.duration, ?_⟩
      simp only [hleast, Option.bind_eq_bind, Option.bind_some]
      exact Bounded.add?_eq_some_iff.2 ⟨rfl, by omega⟩
    | backward =>
      obtain ⟨hfirst, hleave⟩ := h
      obtain ⟨lead, hlead, hlast⟩ := lead?_le hday hw ((mayLeave_iff hday hw).1 hleave)
        (show now - (ride.duration + wait) ≤ now - ride.duration by omega)
      have hsub : Bounded.sub? now ride.duration = some (now - ride.duration) :=
        Bounded.sub?_eq_some_iff.2 (by omega)
      refine ⟨ride.duration + lead, ?_⟩
      simp only [hsub, hlead, Option.bind_eq_bind, Option.bind_some]
      rw [if_pos (by omega)]

/-- The time of a ride is exact, if it can be counted and the ride does not begin too early. -/
theorem timeExact (hday : ride.InDay) (hcount : direction = .forward → ride.Countable now)
    (hearly : ride.window = none → direction = .backward → ride.duration ≤ now) :
    ride.TimeExact now direction := by
  refine ⟨fun time => ⟨exists_isLeast_of_time? hday hearly, ?_⟩, ?_, ?_⟩
  · rintro ⟨wait, hleast, rfl⟩
    obtain ⟨time, htime⟩ := exists_time?_of_mem_waits hday hcount hleast.1
    obtain ⟨wait', hleast', rfl⟩ := exists_isLeast_of_time? hday hearly htime
    rw [htime, hleast.unique hleast']
  · intro hnone
    refine Set.eq_empty_of_forall_notMem fun wait hwait => ?_
    obtain ⟨time, htime⟩ := exists_time?_of_mem_waits hday hcount hwait
    rw [hnone] at htime
    cases htime
  · intro hempty
    refine Option.eq_none_iff_forall_ne_some.2 fun time htime => ?_
    obtain ⟨wait, hleast, -⟩ := exists_isLeast_of_time? hday hearly htime
    rw [hempty] at hleast
    exact hleast.1

/-- No wait will do for a ride that would have to begin before the first time. -/
theorem waits_backward_of_lt (hlt : now < ride.duration) : ride.waits now .backward = ∅ :=
  Set.eq_empty_of_forall_notMem fun _ hwait =>
    absurd hwait.1 (Nat.not_le_of_lt (Nat.lt_of_lt_of_le hlt (Nat.le_add_right _ _)))

/-- Going backward, a search follows a ride exactly if one can set out for it, at the latest time at
which one can. -/
theorem exists_timeAfter?_iff (hday : ride.InDay) {after : Time} :
    (∃ time, ride.time? now .backward = some time ∧
      Run.timeAfter? now time .backward = some after) ↔
      ∃ wait, IsLeast (ride.waits now .backward) wait ∧ now = after + (ride.duration + wait) := by
  constructor
  · rintro ⟨time, htime, hafter⟩
    have hsum : now = after + time := Bounded.sub?_eq_some_iff.1 hafter
    have hearly : ride.window = none → Direction.backward = .backward → ride.duration ≤ now := by
      intro hw _
      unfold time? at htime
      rw [hw] at htime
      cases htime
      rw [hsum]
      exact Nat.le_add_left _ _
    obtain ⟨wait, hleast, rfl⟩ := exists_isLeast_of_time? hday hearly htime
    exact ⟨wait, hleast, hsum⟩
  · rintro ⟨wait, hleast, hsum⟩
    have hexact : ride.TimeExact now .backward :=
      timeExact hday nofun fun _ _ => Nat.le_trans (Nat.le_add_right _ _) hleast.1.1
    exact ⟨_, (hexact.some_iff _).2 ⟨wait, hleast, rfl⟩, Bounded.sub?_eq_some_iff.2 hsum⟩

/-- The time of a ride is exact going forward, and going backward unless the ride has no window and
would begin before the first time. It then takes its duration, and the search goes no further. -/
theorem ride_time_exact (hday : ride.InDay) (now : Nat) :
    (ride.Countable now → ride.TimeExact now .forward) ∧
    (ride.TimeExact now .backward ↔ (ride.window = none → ride.duration ≤ now)) ∧
    (ride.window = none → ride.time? now .backward = some ride.duration) ∧
    ∀ after, (∃ time, ride.time? now .backward = some time ∧
      Run.timeAfter? now time .backward = some after) ↔
      ∃ wait, IsLeast (ride.waits now .backward) wait ∧ now = after + (ride.duration + wait) := by
  have hduration : ride.window = none → ride.time? now .backward = some ride.duration := by
    intro hw
    unfold time?
    rw [hw]
  refine ⟨fun hcount => timeExact hday (fun _ => hcount) nofun, ⟨fun hexact hw => ?_, fun hearly => ?_⟩,
    hduration, fun after => exists_timeAfter?_iff hday⟩
  · refine Nat.le_of_not_lt fun hlt => ?_
    have hnone := hexact.none_iff.2 (waits_backward_of_lt hlt)
    rw [hduration hw] at hnone
    cases hnone
  · exact timeExact hday nofun fun hw _ => hearly hw

/-- A ride of twenty minutes from six in the morning to ten in the evening. -/
def daytime : Mumo :=
  { id := 0, name := "cab", duration := 20, price := 0, window := some (.daily 360 1320) }

/-- The same ride at any time. -/
def anytime : Mumo := { daytime with window := none }

theorem inDay_daytime : daytime.InDay := by
  rintro begin finish ⟨⟩
  decide

theorem inDay_anytime : anytime.InDay := by
  rintro begin finish ⟨⟩

/-- At five in the morning one waits for an hour; and to be there at twenty past five on the next
day, one takes the ride of the evening before, seven hours and a minute early. Without a window one
sets out at once, but nobody gets there ten minutes after the first time. -/
theorem ride_time_exact_daytime : daytime.InDay ∧ daytime.Countable 300 ∧
    IsLeast (daytime.waits 300 .forward) 60 ∧ IsLeast (daytime.waits 1760 .backward) 421 ∧
    anytime.InDay ∧ IsLeast (anytime.waits 30 .backward) 0 ∧ ¬ anytime.TimeExact 10 .backward := by
  have hsix : 60 ∈ daytime.waits 300 .forward := by
    rintro window ⟨⟩
    exact ⟨0, by decide, by decide⟩
  have hcount : daytime.Countable 300 := fun wait hleast =>
    Nat.le_trans (Nat.add_le_add_left (hleast.2 hsix) _) (by decide)
  obtain ⟨wait, hleast, htime⟩ :=
    (((ride_time_exact inDay_daytime 300).1 hcount).some_iff 80).1 (by decide)
  obtain ⟨lead, hlead, htime'⟩ :=
    (((ride_time_exact inDay_daytime 1760).2.1.2 nofun).some_iff 441).1 (by decide)
  obtain ⟨delay, hdelay, hsum⟩ :=
    (((ride_time_exact inDay_anytime 30).2.1.2 fun _ => by decide).some_iff 20).1 (by decide)
  have hwait : wait = 60 := Nat.add_left_cancel htime.symm
  have hevening : lead = 421 := Nat.add_left_cancel htime'.symm
  have hatonce : delay = 0 := Nat.add_left_cancel hsum.symm
  refine ⟨inDay_daytime, hcount, hwait ▸ hleast, hevening ▸ hlead, inDay_anytime, hatonce ▸ hdelay,
    fun hexact => ?_⟩
  exact absurd ((ride_time_exact inDay_anytime 10).2.1.1 hexact rfl) (by decide)

/-- Ten minutes after the first time nobody arrives who has ridden for twenty, and still the ride takes
its time. -/
theorem anytime_too_early : anytime.InDay ∧ anytime.time? 10 .backward = some 20 ∧
    anytime.waits 10 .backward = ∅ :=
  ⟨inDay_anytime, rfl, waits_backward_of_lt (by decide)⟩

end Mumo

end JourneyPlanner
