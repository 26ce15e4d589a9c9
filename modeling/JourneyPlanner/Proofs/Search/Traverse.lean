import JourneyPlanner.Proofs.Network.Window
import JourneyPlanner.Proofs.Query.Graph
import JourneyPlanner.Search.Run

/-!
# The ways of taking an edge

There are eight ways in which a label goes on along an edge, and `Takes` lists
them with the guard and the cost of each. Every cost that `edgeCost` yields is
one of these (`takes_of_edgeCost`), so what holds of a step of a search is shown
case by case over `Takes`, and no later proof opens `edgeCost` again.

Seen from the search the two directions differ in which end of an edge is left
and in which edge leads into a vehicle (`Direction.access`): going backward one
gets on where the traveller gets off.
-/

namespace JourneyPlanner

/-- The kind of edge that leads from a station to a vehicle, as the search goes. -/
def Direction.access : Direction → EdgeKind
  | forward => .enter
  | backward => .exit

/-- The kind of edge that leads from a vehicle to a station, as the search goes. -/
def Direction.egress : Direction → EdgeKind
  | forward => .exit
  | backward => .enter

/-- The trip in which a trip goes on over a through edge, as the search goes. -/
def Direction.next? (direction : Direction) (trips : List (Option Nat)) (trip : Nat) : Option Nat :=
  match direction with
  | forward => EdgeKind.continuation? trips trip
  | backward => EdgeKind.origin? trips trip

/-- On no vehicle and not about to board one. -/
def Label.OnFoot (label : Label) : Prop := label.ride = none ∧ label.boarding = false

/-- The events that a label may board on a route edge. -/
def Label.boardable (tt : Timetable) (label : Label) (legs : Array Leg) (direction : Direction)
    (horizon : Nat) : Window :=
  tt.window legs (Timetable.boardingWindow label direction horizon).1
    (Timetable.boardingWindow label direction horizon).2 direction

/-- Whether an event leaves a label the time for the change. -/
def Label.inTime (tt : Timetable) (label : Label) (direction : Direction) (event : Event) : Bool :=
  event.leaves label.now
    (tt.changeTime label direction (tt.info event.leg.info).category) direction

/-- The ways of taking an edge from a label, with what it costs. -/
inductive Takes (graph : QueryGraph) (direction : Direction) (horizon : Nat) (label : Label)
    (ref : EdgeRef) : EdgeCost → Prop
  | access (hkind : (graph.edge ref).kind = direction.access) (hfoot : label.OnFoot) :
      Takes graph direction horizon label ref { boarding := true }
  | egress (ride : Ride) (hkind : (graph.edge ref).kind = direction.egress)
      (hride : label.ride = some ride) : Takes graph direction horizon label ref {}
  | stay (id : EdgeId) (legs : Array Leg) (ride : Ride) (event : Event)
      (href : ref = .timetable id) (hkind : (graph.edge ref).kind = .route legs)
      (hride : label.ride = some ride) (hat : Event.at? legs ride.trip ride.day = some event)
      (hahead : event.isAhead label.now direction = true) :
      Takes graph direction horizon label ref
        (graph.timetable.rideCost id event label.now false direction)
  | board (id : EdgeId) (legs : Array Leg) (event : Event)
      (href : ref = .timetable id) (hkind : (graph.edge ref).kind = .route legs)
      (hride : label.ride = none) (hboarding : label.boarding = true)
      (hfind : (label.boardable graph.timetable legs direction horizon).find?
        (label.inTime graph.timetable direction) = some event) :
      Takes graph direction horizon label ref
        (graph.timetable.rideCost id event label.now label.lastConnection.isSome direction)
  | through (trips : List (Option Nat)) (ride : Ride) (trip : Nat)
      (hkind : (graph.edge ref).kind = .through trips) (hride : label.ride = some ride)
      (htrip : direction.next? trips ride.trip = some trip) :
      Takes graph direction horizon label ref { ride := some { trip, day := ride.day } }
  | foot (duration price : Nat) (hkind : (graph.edge ref).kind = .foot duration price)
      (hfoot : label.OnFoot) :
      Takes graph direction horizon label ref { time := duration, price }
  | mumo (ride : Mumo) (time : Nat) (hkind : (graph.edge ref).kind = .mumo ride)
      (hfoot : label.OnFoot) (htime : ride.time? label.now direction = some time)
      (hpinned : label.pinned = true → time = ride.duration) :
      Takes graph direction horizon label ref { time, price := ride.price }
  | hotel (stay : Hotel) (hkind : (graph.edge ref).kind = .hotel stay)
      (hfoot : label.OnFoot) (hfirst : label.hotel = false) (hpinned : label.pinned = false) :
      Takes graph direction horizon label ref
        { time := stay.stay label.now direction, price := stay.price, hotel := true }

theorem Label.not_onFoot {label : Label} {ride : Ride} (h : label.ride = some ride) :
    ¬ label.OnFoot := by
  rintro ⟨hnone, -⟩
  rw [h] at hnone
  cases hnone

theorem onFoot_iff (label : Label) :
    (label.ride.isNone && !label.boarding) = true ↔ label.OnFoot := by
  unfold Label.OnFoot
  rw [Bool.and_eq_true, Option.isNone_iff_eq_none, Bool.not_eq_true']

theorem stayAboard_eq_ok_iff {tt : Timetable} {label : Label} {ride : Ride} {id : EdgeId}
    {legs : Array Leg} {direction : Direction} {cost : EdgeCost} :
    tt.stayAboard label ride id legs direction = .ok cost ↔
      ∃ event, Event.at? legs ride.trip ride.day = some event ∧
        event.isAhead label.now direction = true ∧
        cost = tt.rideCost id event label.now false direction := by
  unfold Timetable.stayAboard
  constructor
  · intro h
    split at h
    · next event hevent =>
      cases h
      obtain ⟨hat, hahead⟩ := Option.filter_eq_some_iff.1 hevent
      exact ⟨event, hat, hahead, rfl⟩
    · cases h
  · rintro ⟨event, hat, hahead, rfl⟩
    rw [Option.filter_eq_some_iff.2 ⟨hat, hahead⟩]

theorem board?_eq_some_iff {tt : Timetable} {label : Label} {id : EdgeId} {legs : Array Leg}
    {direction : Direction} {horizon : Nat} {cost : EdgeCost} :
    tt.board? label id legs direction horizon = some cost ↔
      ∃ event, (label.boardable tt legs direction horizon).find? (label.inTime tt direction) =
          some event ∧
        cost = tt.rideCost id event label.now label.lastConnection.isSome direction := by
  unfold Timetable.board?
  rw [Option.map_eq_some_iff]
  constructor
  · rintro ⟨event, hfind, rfl⟩
    exact ⟨event, hfind, rfl⟩
  · rintro ⟨event, hfind, rfl⟩
    exact ⟨event, hfind, rfl⟩

/-- No wait makes an unscheduled ride shorter. -/
theorem Mumo.duration_le_time {ride : Mumo} {now time : Nat} {direction : Direction}
    (h : ride.time? now direction = some time) : ride.duration ≤ time := by
  unfold Mumo.time? at h
  split at h
  · cases h
    exact Nat.le_refl _
  · obtain ⟨wait, -, h⟩ := Option.bind_eq_some_iff.1 h
    rw [← (Bounded.add?_eq_some_iff.1 h).1]
    exact Nat.le_add_left _ _
  · obtain ⟨departure, -, h⟩ := Option.bind_eq_some_iff.1 h
    obtain ⟨lead, -, h⟩ := Option.bind_eq_some_iff.1 h
    dsimp only at h
    split at h
    · cases h
      exact Nat.le_add_right _ _
    · cases h

/-- Only sections and walks take time. -/
theorem Takes.time_eq_zero {graph : QueryGraph} {direction : Direction} {horizon : Nat}
    {label : Label} {ref : EdgeRef} {cost : EdgeCost}
    (ht : Takes graph direction horizon label ref cost) (hnone : cost.connection = none)
    (hwalk : (graph.edge ref).kind.isWalk = false) : cost.time = 0 := by
  cases ht with
  | access | egress | through => rfl
  | stay | board => cases hnone
  | foot duration price hkind hfoot => rw [hkind] at hwalk; cases hwalk
  | mumo ride time hkind hfoot htime hpinned => rw [hkind] at hwalk; cases hwalk
  | hotel stay hkind hfoot hfirst hpinned => rw [hkind] at hwalk; cases hwalk

/-- Whoever rides gets off, stays on the trip, or goes on in the next one. -/
theorem Takes.of_riding {graph : QueryGraph} {direction : Direction} {horizon : Nat} {label : Label}
    {ref : EdgeRef} {cost : EdgeCost} {ride : Ride}
    (ht : Takes graph direction horizon label ref cost) (hride : label.ride = some ride) :
    ((graph.edge ref).kind = direction.egress ∧ cost = {}) ∨
      (∃ id legs event, ref = .timetable id ∧ (graph.edge ref).kind = .route legs ∧
        Event.at? legs ride.trip ride.day = some event ∧
        event.isAhead label.now direction = true ∧
        cost = graph.timetable.rideCost id event label.now false direction) ∨
      ∃ trips trip, (graph.edge ref).kind = .through trips ∧
        direction.next? trips ride.trip = some trip ∧
        cost = { ride := some { trip, day := ride.day } } := by
  have hfoot := Label.not_onFoot hride
  cases ht with
  | egress ride' hkind hride' => exact Or.inl ⟨hkind, rfl⟩
  | stay id legs ride' event href hkind hride' hat hahead =>
    rw [hride] at hride'
    cases hride'
    exact Or.inr (Or.inl ⟨id, legs, event, href, hkind, hat, hahead, rfl⟩)
  | through trips ride' trip hkind hride' htrip =>
    rw [hride] at hride'
    cases hride'
    exact Or.inr (Or.inr ⟨trips, trip, hkind, htrip, rfl⟩)
  | board id legs event href hkind hnone hboarding hfind =>
    rw [hride] at hnone
    cases hnone
  | access hkind hf => exact absurd hf hfoot
  | foot duration price hkind hf => exact absurd hf hfoot
  | mumo ride' time hkind hf htime hpinned => exact absurd hf hfoot
  | hotel stay hkind hf hfirst hpinned => exact absurd hf hfoot

/-- Whoever is about to board goes on with the first run in time. -/
theorem Takes.of_boarding {graph : QueryGraph} {direction : Direction} {horizon : Nat}
    {label : Label} {ref : EdgeRef} {cost : EdgeCost}
    (ht : Takes graph direction horizon label ref cost) (hride : label.ride = none)
    (hboarding : label.boarding = true) :
    ∃ id legs event, ref = .timetable id ∧ (graph.edge ref).kind = .route legs ∧
      (label.boardable graph.timetable legs direction horizon).find?
        (label.inTime graph.timetable direction) = some event ∧
      cost = graph.timetable.rideCost id event label.now label.lastConnection.isSome direction := by
  have hfoot : ¬ label.OnFoot := by
    rintro ⟨-, hnot⟩
    rw [hboarding] at hnot
    cases hnot
  cases ht with
  | board id legs event href hkind _ _ hfind => exact ⟨id, legs, event, href, hkind, hfind, rfl⟩
  | egress ride hkind hride' =>
    rw [hride] at hride'
    cases hride'
  | stay id legs ride event href hkind hride' hat hahead =>
    rw [hride] at hride'
    cases hride'
  | through trips ride trip hkind hride' htrip =>
    rw [hride] at hride'
    cases hride'
  | access hkind hf => exact absurd hf hfoot
  | foot duration price hkind hf => exact absurd hf hfoot
  | mumo ride time hkind hf htime hpinned => exact absurd hf hfoot
  | hotel stay hkind hf hfirst hpinned => exact absurd hf hfoot

/-- Every cost of an edge is one of these. -/
theorem takes_of_edgeCost {graph : QueryGraph} {direction : Direction} {horizon : Nat}
    {label : Label} {ref : EdgeRef} {cost : EdgeCost}
    (h : edgeCost graph label ref direction horizon = .ok (some cost)) :
    Takes graph direction horizon label ref cost := by
  unfold edgeCost at h
  dsimp only at h
  split at h
  · cases h
  · next hwalk =>
    -- walks are refused to all others before the kinds are told apart
    have hfoot : (graph.edge ref).kind.isWalk = true → label.OnFoot := by
      intro hw
      rw [← onFoot_iff]
      simpa [hw] using hwalk
    split at h
    · -- an enter edge, going forward
      next hkind =>
      split at h
      · next hf =>
        cases h
        exact .access hkind ((onFoot_iff label).1 hf)
      · cases h
    · -- an exit edge, going backward
      next hkind =>
      split at h
      · next hf =>
        cases h
        exact .access hkind ((onFoot_iff label).1 hf)
      · cases h
    · -- an exit edge, going forward
      next hkind =>
      obtain ⟨ride, hride, rfl⟩ := Option.map_eq_some_iff.1 (Except.ok.inj h)
      exact .egress ride hkind hride
    · -- an enter edge, going backward
      next hkind =>
      obtain ⟨ride, hride, rfl⟩ := Option.map_eq_some_iff.1 (Except.ok.inj h)
      exact .egress ride hkind hride
    · -- a route edge: no one takes one that is not of the timetable
      next hkind =>
      split at h
      · cases h
      · next id ride hride =>
        obtain ⟨c, hc, hcost⟩ := Fallible.map_eq_ok.1 h
        cases hcost
        obtain ⟨event, hat, hahead, rfl⟩ := stayAboard_eq_ok_iff.1 hc
        exact .stay id _ ride event rfl hkind hride hat hahead
      · next id hride =>
        split at h
        · next hboarding =>
          obtain ⟨event, hfind, rfl⟩ := board?_eq_some_iff.1 (Except.ok.inj h)
          exact .board id _ event rfl hkind hride hboarding hfind
        · cases h
    · next hkind =>
      obtain ⟨ride, hride, h⟩ := Option.bind_eq_some_iff.1 (Except.ok.inj h)
      -- the two directions look the trip up in opposite ways
      split at h
      · obtain ⟨trip, htrip, h⟩ := Option.bind_eq_some_iff.1 h
        cases h
        exact .through _ ride trip hkind hride htrip
      · obtain ⟨trip, htrip, h⟩ := Option.bind_eq_some_iff.1 h
        cases h
        exact .through _ ride trip hkind hride htrip
    · next hkind =>
      cases h
      exact .foot _ _ hkind (hfoot (by rw [hkind]; rfl))
    · next hkind =>
      obtain ⟨time, htime, h⟩ := Option.bind_eq_some_iff.1 (Except.ok.inj h)
      split at h
      · cases h
      · next hpin =>
        cases h
        refine .mumo _ time hkind (hfoot (by rw [hkind]; rfl)) htime fun hp => ?_
        simpa [hp] using hpin
    · next hkind =>
      split at h
      · cases h
      · next hfree =>
        cases h
        simp only [Bool.or_eq_true, not_or, Bool.not_eq_true] at hfree
        exact .hotel _ hkind (hfoot (by rw [hkind]; rfl)) hfree.1 hfree.2

/-- Each of them is the cost of its edge. -/
theorem edgeCost_of_takes {graph : QueryGraph} {direction : Direction} {horizon : Nat}
    {label : Label} {ref : EdgeRef} {cost : EdgeCost}
    (h : Takes graph direction horizon label ref cost) :
    edgeCost graph label ref direction horizon = .ok (some cost) := by
  unfold edgeCost
  dsimp only
  cases h with
  | access hkind hfoot =>
    have hf := (onFoot_iff label).2 hfoot
    cases direction <;> simp only [Direction.access] at hkind <;> rw [hkind] <;>
      simp [EdgeKind.isWalk, hf]
  | egress ride hkind hride =>
    cases direction <;> simp only [Direction.egress] at hkind <;> rw [hkind] <;>
      simp [EdgeKind.isWalk, hride]
  | stay id legs ride event href hkind hride hat hahead =>
    rw [hkind, href, hride]
    have hstay : graph.timetable.stayAboard label ride id legs direction = .ok _ :=
      stayAboard_eq_ok_iff.2 ⟨event, hat, hahead, rfl⟩
    simp only [EdgeKind.isWalk, Bool.false_and, Bool.false_eq_true, if_false, hstay]
    rfl
  | board id legs event href hkind hride hboarding hfind =>
    rw [hkind, href, hride, hboarding]
    have hboard : graph.timetable.board? label id legs direction horizon = some _ :=
      board?_eq_some_iff.2 ⟨event, hfind, rfl⟩
    simp only [EdgeKind.isWalk, Bool.false_and, Bool.false_eq_true, if_false, if_true, hboard]
  | through trips ride trip hkind hride htrip =>
    rw [hkind, hride]
    cases direction <;> simp only [Direction.next?] at htrip <;>
      simp [EdgeKind.isWalk, htrip]
  | foot duration price hkind hfoot =>
    have hf := (onFoot_iff label).2 hfoot
    rw [hkind]
    simp [EdgeKind.isWalk, hf]
  | mumo ride time hkind hfoot htime hpinned =>
    have hf := (onFoot_iff label).2 hfoot
    rw [hkind]
    simp only [EdgeKind.isWalk, hf, Bool.not_true, Bool.and_false, Bool.false_eq_true, if_false,
      htime]
    cases hp : label.pinned with
    | false => rfl
    | true => rw [hpinned hp]; simp
  | hotel stay hkind hfoot hfirst hpinned =>
    have hf := (onFoot_iff label).2 hfoot
    rw [hkind]
    simp [EdgeKind.isWalk, hf, hfirst, hpinned]

end JourneyPlanner
