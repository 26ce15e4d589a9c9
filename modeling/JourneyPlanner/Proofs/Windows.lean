import JourneyPlanner.Proofs.Network.Window
import Mathlib.Data.List.Nodup

/-!
# Windows against a scan of all days

The main result of this file, `window_eq_scan`:

> the events of a window are those that a scan of all legs on all days comes upon, each
> of them once, sorted by time, then by day, then by the position of the leg; backward
> the later time and the higher position go first.

The scan knows nothing of candidate days, of the stretches of a day or of their merge.
It finds the same events (`Window.mem_scan`) and none of them twice. Two events of one
edge of which neither comes before the other are one event (`Event.eq_of_not_before`),
so that there is one way only to sort them (`List.Perm.eq_of_pairwise`).
-/

namespace JourneyPlanner

/-- The run of a trip on a day, if it runs then at a time in `[begin, finish)`. -/
def Window.inspect? (legs : Array Leg) (begin finish : Time) (direction : Direction)
    (day trip : Nat) : Option Event :=
  (Event.at? legs trip day).filter fun event =>
    event.leg.days.runsOn day && decide (begin ≤ event.key direction) &&
      decide (event.key direction < finish)

/-- The events in `[begin, finish)` on the first `dayCount` days, looked up day by day and leg by
leg. -/
def Window.scan (legs : Array Leg) (begin finish : Time) (direction : Direction)
    (dayCount : Nat) : List Event :=
  (List.range dayCount).flatMap fun day =>
    (List.range legs.size).filterMap (Window.inspect? legs begin finish direction day)

/-- Whether a search may meet `a` ahead of `b`. -/
def Event.inOrder (direction : Direction) (a b : Event) : Bool := decide ¬ b.Before direction a

/-! ## The order of events -/

section Order

variable {direction : Direction} {a b c : Event}

/-- The order of an agenda is transitive, in either direction. -/
theorem Event.inOrder_trans (hab : a.inOrder direction b = true)
    (hbc : b.inOrder direction c = true) : a.inOrder direction c = true := by
  unfold inOrder at *
  rw [decide_eq_true_eq] at *
  cases direction <;>
    simp only [Event.Before, Window.sooner, Direction.MeetsPosition, decide_eq_true_eq, Time]
      at hab hbc ⊢ <;>
    omega

/-- The order of an agenda compares any two instances. -/
theorem Event.inOrder_total (a b : Event) :
    (a.inOrder direction b || b.inOrder direction a) = true := by
  unfold inOrder
  rw [Bool.or_eq_true, decide_eq_true_eq, decide_eq_true_eq]
  by_cases h : b.Before direction a
  · exact Or.inr h.asymm
  · exact Or.inl h

/-- Of two runs of the legs of one edge one comes before the other. -/
theorem Event.eq_of_not_before {legs : Array Leg}
    (ha : Event.at? legs a.trip a.day = some a) (hb : Event.at? legs b.trip b.day = some b)
    (hab : ¬ a.Before direction b) (hba : ¬ b.Before direction a) : a = b := by
  have hsame : a.trip = b.trip ∧ a.day = b.day := by
    cases direction <;>
      simp only [Event.Before, Window.sooner, Direction.MeetsPosition, decide_eq_true_eq, Time]
        at hab hba <;>
      omega
  rw [hsame.1, hsame.2, hb] at ha
  exact (Option.some.inj ha).symm

end Order

/-! ## The scan -/

namespace Window

variable {legs : Array Leg} {begin finish : Time} {direction : Direction} {dayCount : Nat}

/-- An instance is inspected into the agenda exactly when its trip has it, its day runs it and its
key lies in the window. -/
theorem inspect?_eq_some_iff {day trip : Nat} {event : Event} :
    inspect? legs begin finish direction day trip = some event ↔
      Event.at? legs trip day = some event ∧ event.leg.days.runsOn day = true ∧
        begin ≤ event.key direction ∧ event.key direction < finish := by
  unfold inspect?
  rw [Option.filter_eq_some_iff, Bool.and_eq_true, Bool.and_eq_true, decide_eq_true_eq,
    decide_eq_true_eq, and_assoc]

/-- The plain scan finds every instance of the days counted that runs in the window, and nothing
else. -/
theorem mem_scan {event : Event} : event ∈ scan legs begin finish direction dayCount ↔
    Event.at? legs event.trip event.day = some event ∧
      event.leg.days.runsOn event.day = true ∧ event.day < dayCount ∧
      begin ≤ event.key direction ∧ event.key direction < finish := by
  unfold scan
  simp only [List.mem_flatMap, List.mem_filterMap, List.mem_range, inspect?_eq_some_iff]
  constructor
  · rintro ⟨day, hday, trip, -, hat, hruns, hbounds⟩
    obtain ⟨-, rfl, -⟩ := Event.eq_of_at? hat
    exact ⟨Event.at?_self hat, hruns, hday, hbounds⟩
  · rintro ⟨hat, hruns, hday, hbounds⟩
    obtain ⟨-, -, hleg, -⟩ := Event.eq_of_at? hat
    exact ⟨event.day, hday, event.trip, (Array.getElem?_eq_some_iff.1 hleg).1, hat, hruns,
      hbounds⟩

/-- No event is met twice, since its day and its trip say where it is met. -/
theorem nodup_scan : (scan legs begin finish direction dayCount).Nodup := by
  unfold scan
  rw [List.nodup_flatMap]
  constructor
  · intro day _
    refine List.Nodup.filterMap (fun trip trip' event h h' => ?_) List.nodup_range
    obtain ⟨rfl, -⟩ := Event.eq_of_at? (inspect?_eq_some_iff.1 h).1
    obtain ⟨rfl, -⟩ := Event.eq_of_at? (inspect?_eq_some_iff.1 h').1
    rfl
  · refine List.nodup_range.imp fun {day day'} hne event h h' => hne ?_
    obtain ⟨trip, -, h⟩ := List.mem_filterMap.1 h
    obtain ⟨trip', -, h'⟩ := List.mem_filterMap.1 h'
    obtain ⟨-, rfl, -⟩ := Event.eq_of_at? (inspect?_eq_some_iff.1 h).1
    obtain ⟨-, rfl, -⟩ := Event.eq_of_at? (inspect?_eq_some_iff.1 h').1
    rfl

end Window

/-- A window gives what a scan comes upon, in order. -/
theorem window_eq_scan {legs : Array Leg} (h : legs.toList.Pairwise Leg.NoLater)
    (begin finish : Time) (direction : Direction) (dayCount : Nat) :
    let events := (Window.make legs begin finish direction dayCount).events
    events = (Window.scan legs begin finish direction dayCount).mergeSort
        (Event.inOrder direction) ∧
      events.Pairwise (Event.Before direction) ∧
      ∀ event, event ∈ events ↔
        Event.at? legs event.trip event.day = some event ∧
          event.leg.days.runsOn event.day = true ∧ event.day < dayCount ∧
          begin ≤ event.key direction ∧ event.key direction < finish := by
  have hbefore := Window.pairwise_events_make h begin finish direction dayCount
  refine ⟨?_, hbefore, fun event => Window.mem_events_make h⟩
  have hnodup : (Window.make legs begin finish direction dayCount).events.Nodup :=
    hbefore.imp fun hab heq => (heq ▸ hab).asymm (heq ▸ hab)
  have hsame : (Window.make legs begin finish direction dayCount).events.Perm
      (Window.scan legs begin finish direction dayCount) :=
    (List.perm_ext_iff_of_nodup hnodup Window.nodup_scan).2 fun event =>
      (Window.mem_events_make h).trans Window.mem_scan.symm
  have hsorted : ((Window.scan legs begin finish direction dayCount).mergeSort
      (Event.inOrder direction)).Pairwise fun a b => a.inOrder direction b = true := by
    refine List.pairwise_mergeSort ?_ ?_ _
    · exact fun _ _ _ => Event.inOrder_trans
    · exact Event.inOrder_total
  refine List.Perm.eq_of_pairwise (fun a b ha hb hab hba => ?_)
    (hbefore.imp fun hab => decide_eq_true hab.asymm) hsorted
    (hsame.trans (List.mergeSort_perm _ _).symm)
  have ha := (Window.mem_events_make h).1 ha
  have hb := Window.mem_scan.1 (List.mem_mergeSort.1 hb)
  exact Event.eq_of_not_before ha.1 hb.1 (of_decide_eq_true hba) (of_decide_eq_true hab)

/-- Two trains that arrive at midnight, the later of which runs on the first day only, and one that
arrives a day after them. -/
def overnight : Array Leg :=
  #[⟨1410, 1440, 0, DayMask.all, none, none⟩,
    ⟨1420, 1440, 0, DayMask.none.insert 0, none, none⟩,
    ⟨2860, 2880, 0, DayMask.all, none, none⟩]

/-- At the second midnight the train of the day before comes first. -/
theorem window_eq_scan_overnight : overnight.toList.Pairwise Leg.NoLater ∧
    ((Window.scan overnight 1440 2881 .backward 2).mergeSort (Event.inOrder .backward)).map
        (fun event => (event.key .backward, event.day, event.trip)) =
      [(2880, 0, 2), (2880, 1, 0), (1440, 0, 1), (1440, 0, 0)] := by
  have hordered : overnight.toList.Pairwise fun a b =>
      a.departure ≤ b.departure ∧ a.arrival ≤ b.arrival := by decide
  have hsorted : overnight.toList.Pairwise Leg.NoLater := hordered.imp fun h => ⟨h.1, h.2⟩
  refine ⟨hsorted, ?_⟩
  rw [← (window_eq_scan hsorted 1440 2881 .backward 2).1]
  decide +kernel

end JourneyPlanner
