import JourneyPlanner.Proofs.Search.Trail

/-!
# Nobody gains by coming late

A ride waits until its window is open and a night lasts until guests leave, so
what they take depends on when one comes there. But as the search goes, who comes
to a walk, a ride or a night no later than another is through no later:
`timeAfter?_mono`, `Mumo.time?_mono` and `Hotel.stay_mono`.

For a ride the reason is that it sets out at the first minute from now on at
which its window is open, or going backward at the last one up to now; and the
minutes that are still to come for someone who is late are still to come for
someone who is not.
-/

namespace JourneyPlanner

/-- The first time is no later than the second, as the search goes. -/
def Direction.NoLater : Direction → Nat → Nat → Prop
  | forward, a, b => a ≤ b
  | backward, a, b => b ≤ a

theorem Direction.NoLater.refl (direction : Direction) (a : Nat) : direction.NoLater a a := by
  cases direction <;> exact Nat.le_refl a

theorem Direction.NoLater.trans {direction : Direction} {a b c : Nat}
    (h : direction.NoLater a b) (h' : direction.NoLater b c) : direction.NoLater a c := by
  cases direction
  · exact Nat.le_trans h h'
  · exact Nat.le_trans h' h

theorem Label.InOrder.noLater {label : Label} {direction : Direction}
    (h : label.InOrder direction) : direction.NoLater label.start label.now := by
  cases direction <;> exact h

theorem timeAfter?_mono {direction : Direction} {now later minutes : Nat} {after : Time}
    (h : direction.NoLater now later)
    (hafter : Run.timeAfter? later minutes direction = some after) :
    ∃ sooner, Run.timeAfter? now minutes direction = some sooner ∧
      direction.NoLater sooner after := by
  cases direction with
  | forward =>
    simp only [Direction.NoLater] at h
    obtain ⟨hsum, hle⟩ := Bounded.add?_eq_some_iff.1 hafter
    exact ⟨now + minutes, Bounded.add?_eq_some_iff.2 ⟨rfl, by omega⟩, by
      simp only [Direction.NoLater]
      omega⟩
  | backward =>
    simp only [Direction.NoLater] at h
    have hdiff := Bounded.sub?_eq_some_iff.1 hafter
    exact ⟨now - minutes, Bounded.sub?_eq_some_iff.2 (by omega), by
      simp only [Direction.NoLater]
      omega⟩

namespace Mumo

/-! ## Windows of unscheduled rides -/

/-- A ride may set out at a time. -/
def IsOpen : RideWindow → Time → Prop
  | .absolute begin finish, t => begin ≤ t ∧ t < finish
  | .daily begin finish, t => inDailyWindow (Time.minuteOfDay t) begin finish = true

variable {ride : Mumo} {window : RideWindow} {now departure t wait lead : Nat}

/-- After the wait the window is open. -/
theorem isOpen_wait? (hday : ride.InDay) (hw : ride.window = some window)
    (h : wait? window now = some wait) : IsOpen window (now + wait) := by
  cases window with
  | absolute begin finish =>
    unfold wait? at h
    dsimp only at h
    split at h
    · cases h
    · cases h
      simp only [IsOpen, Time] at *
      omega
  | daily begin finish =>
    obtain ⟨hb, hf⟩ := hday begin finish hw
    unfold wait? at h
    dsimp only at h
    simp only [IsOpen]
    split at h
    · next hin =>
      cases h
      exact hin
    · -- whoever has to wait sets out as the window begins
      cases h
      have hbegin : Time.minuteOfDay (now + (begin + Time.perDay - Time.minuteOfDay now) %
          Time.perDay) = begin := by
        unfold Time.minuteOfDay Time.perDay at *
        omega
      rw [hbegin]
      unfold inDailyWindow
      split
      · rfl
      · split <;> simp
        omega

/-- No minute from now on at which the window is open comes before the wait ends. -/
theorem wait?_le (hday : ride.InDay) (hw : ride.window = some window)
    (hopen : IsOpen window t) (hle : now ≤ t) :
    ∃ wait, wait? window now = some wait ∧ now + wait ≤ t := by
  cases window with
  | absolute begin finish =>
    simp only [IsOpen, Time] at hopen hle
    have hlt : ¬ finish ≤ max now begin := by
      simp only [Time]
      omega
    unfold wait?
    dsimp only
    rw [if_neg hlt]
    refine ⟨_, rfl, ?_⟩
    simp only [Time]
    omega
  | daily begin finish =>
    obtain ⟨hb, hf⟩ := hday begin finish hw
    simp only [IsOpen] at hopen
    unfold wait?
    dsimp only
    split
    · exact ⟨0, rfl, hle⟩
    · next hout =>
      refine ⟨_, rfl, ?_⟩
      -- a window that lasts a whole day is never shut; others may go past midnight
      unfold inDailyWindow Time.minuteOfDay Time.perDay at *
      by_cases heq : begin = finish
      · simp [heq] at hout
      · by_cases hlt : begin < finish <;>
          simp only [heq, hlt, if_false, if_true, Bool.and_eq_true, Bool.or_eq_true,
            decide_eq_true_eq, not_and, not_or] at hopen hout <;> omega

/-- Before the lead the window is open, if there is time for it. -/
theorem isOpen_lead? (hday : ride.InDay) (hw : ride.window = some window)
    (h : lead? window departure = some lead) (hle : lead ≤ departure) :
    IsOpen window (departure - lead) := by
  cases window with
  | absolute begin finish =>
    unfold lead? at h
    obtain ⟨last, hlast, h⟩ := Option.bind_eq_some_iff.1 h
    have hfinish := Bounded.sub?_eq_some_iff.1 hlast
    dsimp only at h
    split at h
    · cases h
    · cases h
      simp only [IsOpen, Time] at *
      omega
  | daily begin finish =>
    obtain ⟨hb, hf⟩ := hday begin finish hw
    unfold lead? at h
    dsimp only at h
    simp only [IsOpen]
    split at h
    · next hin =>
      cases h
      exact hin
    · -- whoever has to set out earlier does so at the last minute of the window
      rw [← Option.some.inj h] at hle ⊢
      have hlast : Time.minuteOfDay (departure - (Time.minuteOfDay departure + Time.perDay -
          (finish + Time.perDay - 1) % Time.perDay) % Time.perDay) =
            (finish + Time.perDay - 1) % Time.perDay := by
        unfold Time.minuteOfDay Time.perDay at *
        omega
      rw [hlast]
      unfold inDailyWindow Time.perDay at *
      split
      · rfl
      · split <;> simp <;> omega

/-- No minute up to now at which the window is open comes after the lead begins. -/
theorem lead?_le (hday : ride.InDay) (hw : ride.window = some window)
    (hopen : IsOpen window t) (hle : t ≤ departure) :
    ∃ lead, lead? window departure = some lead ∧ t + lead ≤ departure := by
  cases window with
  | absolute begin finish =>
    simp only [IsOpen, Time] at hopen hle
    have hsub : Bounded.sub? finish 1 = some (finish - 1) :=
      Bounded.sub?_eq_some_iff.2 (by simp only [Time]; omega)
    have hlt : ¬ min departure (finish - 1) < begin := by
      simp only [Time]
      omega
    unfold lead?
    simp only [hsub, Option.bind_eq_bind, Option.bind_some]
    rw [if_neg hlt]
    refine ⟨_, rfl, ?_⟩
    simp only [Time]
    omega
  | daily begin finish =>
    obtain ⟨hb, hf⟩ := hday begin finish hw
    simp only [IsOpen] at hopen
    unfold lead?
    dsimp only
    split
    · exact ⟨0, rfl, hle⟩
    · next hout =>
      refine ⟨_, rfl, ?_⟩
      unfold inDailyWindow Time.minuteOfDay Time.perDay at *
      by_cases heq : begin = finish
      · simp [heq] at hout
      · by_cases hlt : begin < finish <;>
          simp only [heq, hlt, if_false, if_true, Bool.and_eq_true, Bool.or_eq_true,
            decide_eq_true_eq, not_and, not_or] at hopen hout <;> omega

/-- Who comes to a ride no later is through no later. -/
theorem time?_mono (hday : ride.InDay) {direction : Direction} {now later time : Nat}
    {after : Time} (h : direction.NoLater now later)
    (htime : ride.time? later direction = some time)
    (hafter : Run.timeAfter? later time direction = some after) :
    ∃ time' sooner, ride.time? now direction = some time' ∧
      Run.timeAfter? now time' direction = some sooner ∧ direction.NoLater sooner after := by
  cases hw : ride.window with
  | none =>
    unfold time? at htime ⊢
    rw [hw] at htime ⊢
    cases htime
    obtain ⟨sooner, hsooner, hno⟩ := timeAfter?_mono h hafter
    exact ⟨_, sooner, rfl, hsooner, hno⟩
  | some window =>
    cases direction with
    | forward =>
      simp only [Direction.NoLater] at h ⊢
      unfold time? at htime ⊢
      rw [hw] at htime ⊢
      obtain ⟨wait, hwait, htime⟩ := Option.bind_eq_some_iff.1 htime
      obtain ⟨rfl, -⟩ := Bounded.add?_eq_some_iff.1 htime
      obtain ⟨hsum, hle⟩ := Bounded.add?_eq_some_iff.1 hafter
      -- the late one's departure is open for the other, who therefore waits no longer
      obtain ⟨wait', hwait', hle'⟩ :=
        wait?_le hday hw (isOpen_wait? hday hw hwait) (Nat.le_trans h (Nat.le_add_right _ _))
      refine ⟨wait' + ride.duration, now + (wait' + ride.duration), ?_, ?_, by omega⟩
      · simp only [hwait', Option.bind_eq_bind, Option.bind_some]
        exact Bounded.add?_eq_some_iff.2 ⟨rfl, by omega⟩
      · exact Bounded.add?_eq_some_iff.2 ⟨rfl, by omega⟩
    | backward =>
      simp only [Direction.NoLater] at h ⊢
      unfold time? at htime ⊢
      rw [hw] at htime ⊢
      obtain ⟨departure, hdeparture, htime⟩ := Option.bind_eq_some_iff.1 htime
      obtain ⟨lead, hlead, htime⟩ := Option.bind_eq_some_iff.1 htime
      have hdep := Bounded.sub?_eq_some_iff.1 hdeparture
      have hdiff := Bounded.sub?_eq_some_iff.1 hafter
      dsimp only at htime
      split at htime
      · cases htime
        obtain ⟨lead', hlead', hle'⟩ := lead?_le hday hw
          (isOpen_lead? hday hw hlead (by omega)) (show departure - lead ≤ now - ride.duration by
            omega)
        have hsub : Bounded.sub? now ride.duration = some (now - ride.duration) :=
          Bounded.sub?_eq_some_iff.2 (by omega)
        refine ⟨ride.duration + lead', now - (ride.duration + lead'), ?_, ?_, by omega⟩
        · simp only [hsub, hlead', Option.bind_eq_bind, Option.bind_some]
          rw [if_pos (by omega)]
        · exact Bounded.sub?_eq_some_iff.2 (by omega)
      · cases htime

end Mumo

/-- Who comes to a night no later is through no later. -/
theorem Hotel.stay_mono {hotel : Hotel} (hday : hotel.checkout < Time.perDay)
    {direction : Direction} {now later : Nat} {after : Time} (h : direction.NoLater now later)
    (hafter : Run.timeAfter? later (hotel.stay later direction) direction = some after) :
    ∃ sooner, Run.timeAfter? now (hotel.stay now direction) direction = some sooner ∧
      direction.NoLater sooner after := by
  cases direction with
  | forward =>
    simp only [Direction.NoLater] at h ⊢
    obtain ⟨hsum, hle⟩ := Bounded.add?_eq_some_iff.1 hafter
    have hmono : now + hotel.stay now .forward ≤ later + hotel.stay later .forward := by
      unfold Hotel.stay Time.minuteOfDay Time.perDay at *
      dsimp only
      omega
    exact ⟨_, Bounded.add?_eq_some_iff.2 ⟨rfl, by omega⟩, by omega⟩
  | backward =>
    simp only [Direction.NoLater] at h ⊢
    have hdiff := Bounded.sub?_eq_some_iff.1 hafter
    have hmono : later + hotel.stay now .backward ≤ now + hotel.stay later .backward := by
      unfold Hotel.stay Time.minuteOfDay Time.perDay at *
      dsimp only
      omega
    exact ⟨now - hotel.stay now .backward, Bounded.sub?_eq_some_iff.2 (by omega), by omega⟩

end JourneyPlanner
