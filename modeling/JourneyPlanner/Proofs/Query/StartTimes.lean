import JourneyPlanner.Proofs.Calendar.Minutes
import JourneyPlanner.Proofs.Query.Graph
import JourneyPlanner.Proofs.Network.Window
import Mathlib.Data.List.Sort

/-!
# When a search before a trip starts

The interval of a request is cut to the schedule and to full minutes, inwards at both ends
(`Request.instants_of_scheduleInterval`). Before a trip each start time is that of a vehicle
that can be boarded at a station (`Timetable.Sound.mem_stationTimes`), or such a time set
back by a walk (`QueryGraph.mem_walkTimes`), and the window in which vehicles are looked for
is moved by that walk first. So every start time lies in the interval that was asked for
(`Request.instant_mem_interval`).

As long as the interval lies in the schedule, no vehicle is missed by moving it
(`QueryGraph.mem_walkTimes_of_servesWalk`).
-/

namespace JourneyPlanner

/-! ## Vehicles at a station -/

namespace Timetable

/-- The vehicles of a stop can be boarded at a station, or backward be left there. -/
def Opens (tt : Timetable) (station stop : NodeId) : Direction → Prop
  | .forward => { tail := station, head := stop, kind := .enter } ∈ tt.edges
  | .backward => { tail := stop, head := station, kind := .exit } ∈ tt.edges

/-- A vehicle that can be boarded at a station leaves there at a time; backward, one that can be
left there arrives. -/
def Serves (tt : Timetable) (station : NodeId) (direction : Direction) (time : Time) : Prop :=
  ∃ stop, tt.Opens station stop direction ∧ ∃ edge ∈ tt.edges, edge.source direction = stop ∧
    ∃ legs, edge.kind = .route legs ∧ ∃ event : Event,
      Event.at? legs event.trip event.day = some event ∧
      event.leg.days.runsOn event.day = true ∧ event.day < tt.period.days ∧
      event.key direction = time

/-- A walk of so many minutes that sets out at a time ends when a vehicle leaves a station;
backward, one that ends at a time sets out when a vehicle arrives there. -/
def ServesWalk (tt : Timetable) (station : NodeId) (minutes : Nat) (time : Time) :
    Direction → Prop
  | .forward => tt.Serves station .forward (time + minutes)
  | .backward => ∃ met : Time, met + minutes = time ∧ tt.Serves station .backward met

variable {tt : Timetable}

/-- The stops that a station opens are those that its edges lead to. -/
theorem Sound.opens_iff (h : tt.Sound) {station stop : NodeId} {direction : Direction} :
    tt.Opens station stop direction ↔
      ∃ id ∈ tt.edgesAt station direction, boardedNode? (tt.edge id) direction = some stop := by
  rw [h.exists_mem_edgesAt (P := fun edge => boardedNode? edge direction = some stop)]
  unfold Opens boardedNode?
  constructor
  · intro hopens
    cases direction
    · exact ⟨_, hopens, rfl, rfl⟩
    · exact ⟨_, hopens, rfl, rfl⟩
  · rintro ⟨⟨tail, head, kind⟩, hmem, hsource, hstop⟩
    cases direction <;> cases kind <;> cases hstop <;> cases hsource <;> exact hmem

theorem Sound.mem_ridesAt (h : tt.Sound) {node : NodeId} {direction : Direction}
    {legs : Array Leg} : legs ∈ tt.ridesAt node direction ↔
      ∃ edge ∈ tt.edges, edge.source direction = node ∧ edge.kind = .route legs := by
  unfold ridesAt
  rw [List.mem_filterMap, ← h.exists_mem_edgesAt]
  refine exists_congr fun id => and_congr_right fun _ => ?_
  cases (tt.edge id).kind <;> simp

/-- No vehicle is met later than in the second day after the schedule. -/
theorem Sound.lt_of_serves (h : tt.Sound) {station : NodeId} {direction : Direction}
    {time : Time} (hs : tt.Serves station direction time) :
    time < (DayMask.maxDays + 1) * Time.perDay := by
  obtain ⟨stop, -, edge, hedge, -, legs, hkind, event, hat, -, hday, rfl⟩ := hs
  obtain ⟨-, hle, hlast⟩ := h.event_spec hedge hkind hat
  cases direction
  · exact Nat.lt_of_le_of_lt hle (hlast hday)
  · exact hlast hday

/-- The times in a window are those of the runs of its legs. That it ends a minute after the last
time, if there is such a minute, makes no difference to vehicles that are all met before. -/
theorem Sound.mem_windowTimes (h : tt.Sound) {edge : Edge} (hedge : edge ∈ tt.edges)
    {legs : Array Leg} (hkind : edge.kind = .route legs) {begin finish time : Time}
    {direction : Direction} :
    time ∈ (tt.window legs begin (Bounded.add finish 1) direction).events.map
        (fun event => event.key direction) ↔
      begin ≤ time ∧ time ≤ finish ∧ ∃ event : Event,
        Event.at? legs event.trip event.day = some event ∧
        event.leg.days.runsOn event.day = true ∧ event.day < tt.period.days ∧
        event.key direction = time := by
  have hsorted := h.parts.sorted edge hedge legs hkind
  rw [List.mem_map]
  constructor
  · rintro ⟨event, hevent, rfl⟩
    obtain ⟨hat, hruns, hday, hlo, hhi⟩ := (Window.mem_events_make hsorted).1 hevent
    exact ⟨hlo, Nat.le_of_lt_succ (Nat.lt_of_lt_of_le hhi (Nat.min_le_left _ _)), event, hat,
      hruns, hday, rfl⟩
  · rintro ⟨hlo, hhi, event, hat, hruns, hday, rfl⟩
    obtain ⟨-, hle, hlast⟩ := h.event_spec hedge hkind hat
    have hlast := hlast hday
    refine ⟨event, (Window.mem_events_make hsorted).2 ⟨hat, hruns, hday, hlo, ?_⟩, rfl⟩
    cases direction <;>
      simp only [Event.key, Bounded.add, Bounded.ceiling, DayMask.maxDays, Time.perDay, Time]
        at * <;>
      omega

/-- The times at a station are those at which it is served. -/
theorem Sound.mem_stationTimes (h : tt.Sound) {station : NodeId} {begin finish time : Time}
    {direction : Direction} : time ∈ tt.stationTimes station begin finish direction ↔
      begin ≤ time ∧ time ≤ finish ∧ tt.Serves station direction time := by
  unfold stationTimes Serves
  rw [List.mem_flatMap]
  constructor
  · rintro ⟨id, hid, htime⟩
    split at htime
    · cases htime
    · next stop hstop =>
      obtain ⟨legs, hlegs, htime⟩ := List.mem_flatMap.1 htime
      obtain ⟨edge, hedge, hsource, hkind⟩ := h.mem_ridesAt.1 hlegs
      obtain ⟨hlo, hhi, hevent⟩ := (h.mem_windowTimes hedge hkind).1 htime
      exact ⟨hlo, hhi, stop, h.opens_iff.2 ⟨id, hid, hstop⟩, edge, hedge, hsource, legs, hkind,
        hevent⟩
  · rintro ⟨hlo, hhi, stop, hopens, edge, hedge, hsource, legs, hkind, hevent⟩
    obtain ⟨id, hid, hstop⟩ := h.opens_iff.1 hopens
    refine ⟨id, hid, ?_⟩
    rw [hstop]
    exact List.mem_flatMap.2 ⟨legs, h.mem_ridesAt.2 ⟨edge, hedge, hsource, hkind⟩,
      (h.mem_windowTimes hedge hkind).2 ⟨hlo, hhi, hevent⟩⟩

end Timetable

/-! ## Start times -/

namespace QueryGraph

variable {graph : QueryGraph} {begin finish time : Time} {direction : Direction}

/-- Whoever sets out on a walk to a vehicle does so between the bounds. -/
theorem mem_walkTimes (h : graph.timetable.Sound) {other : NodeId} {minutes : Nat}
    (ht : time ∈ graph.walkTimes other minutes begin finish direction) :
    begin ≤ time ∧ time ≤ finish ∧ graph.timetable.ServesWalk other minutes time direction := by
  unfold walkTimes at ht
  cases direction with
  | forward =>
    dsimp only at ht
    split at ht
    · next first last hfirst hlast =>
      obtain ⟨met, hmet, htime⟩ := List.mem_filterMap.1 ht
      obtain ⟨hle, hge, hserves⟩ := h.mem_stationTimes.1 hmet
      have hfirst := (Bounded.add?_eq_some_iff.1 hfirst).1
      have hlast := (Bounded.add?_eq_some_iff.1 hlast).1
      have htime := Bounded.sub?_eq_some_iff.1 htime
      rw [htime] at hserves
      simp only [Time] at *
      exact ⟨by omega, by omega, hserves⟩
    · cases ht
  | backward =>
    dsimp only at ht
    split at ht
    · next last hlast =>
      obtain ⟨met, hmet, htime⟩ := List.mem_filterMap.1 ht
      obtain ⟨hle, hge, hserves⟩ := h.mem_stationTimes.1 hmet
      have hlast := Bounded.sub?_eq_some_iff.1 hlast
      have htime := (Bounded.add?_eq_some_iff.1 htime).1
      simp only [Time] at *
      exact ⟨by omega, by omega, met, htime, hserves⟩
    · cases ht

/-- No vehicle is missed at the end of a walk, if the bounds lie in the schedule: a walk that would
take them past the ceiling leads beyond all vehicles. -/
theorem mem_walkTimes_of_servesWalk (h : graph.timetable.Sound)
    (hfinish : finish ≤ graph.timetable.period.finish) {other : NodeId} {minutes : Nat}
    (hle : begin ≤ time) (hge : time ≤ finish)
    (hwalk : graph.timetable.ServesWalk other minutes time direction) :
    time ∈ graph.walkTimes other minutes begin finish direction := by
  have hdays := h.days_le
  unfold Timetable.ServesWalk at hwalk
  unfold walkTimes
  cases direction with
  | forward =>
    have hlt := h.lt_of_serves hwalk
    have hroom : finish + minutes ≤ Bounded.ceiling := by
      simp only [Period.finish, Time.ofDay, DayMask.maxDays, Time.perDay, Bounded.ceiling, Time]
        at *
      omega
    have hfirst := Bounded.add?_eq_some_iff.2
      ⟨rfl, Nat.le_trans (Nat.add_le_add_right (Nat.le_trans hle hge) minutes) hroom⟩
    have hlast := Bounded.add?_eq_some_iff.2 ⟨rfl, hroom⟩
    dsimp only
    rw [hfirst, hlast]
    exact List.mem_filterMap.2 ⟨time + minutes, h.mem_stationTimes.2
      ⟨Nat.add_le_add_right hle _, Nat.add_le_add_right hge _, hwalk⟩,
      Bounded.sub?_eq_some_iff.2 rfl⟩
  | backward =>
    obtain ⟨met, hmet, hserves⟩ := hwalk
    have hlast : Bounded.sub? finish minutes = some (finish - minutes) := by
      refine Bounded.sub?_eq_some_iff.2 ?_
      simp only [Time] at *
      omega
    have hroom : time ≤ Bounded.ceiling := by
      simp only [Period.finish, Time.ofDay, DayMask.maxDays, Time.perDay, Bounded.ceiling, Time]
        at *
      omega
    dsimp only
    rw [hlast]
    refine List.mem_filterMap.2 ⟨met, h.mem_stationTimes.2 ⟨?_, ?_, hserves⟩,
      Bounded.add?_eq_some_iff.2 ⟨hmet, hroom⟩⟩
    · simp only [Time] at *
      omega
    · simp only [Time] at *
      omega

theorem mem_dropRepeats {times : List Time} : time ∈ dropRepeats times ↔ time ∈ times := by
  fun_induction dropRepeats times with
  | case1 second rest ih =>
    rw [ih]
    simp
  | case2 first second rest hne ih => rw [List.mem_cons, ih, ← List.mem_cons]
  | case3 times hnot => exact Iff.rfl

/-- Of ascending times no two are the same once repetitions have been removed. -/
theorem pairwise_dropRepeats {times : List Time} (h : times.Pairwise (· ≤ ·)) :
    (dropRepeats times).Pairwise (· < ·) := by
  fun_induction dropRepeats times with
  | case1 second rest ih => exact ih (List.pairwise_cons.1 h).2
  | case2 first second rest hne ih =>
    obtain ⟨hfirst, hrest⟩ := List.pairwise_cons.1 h
    refine List.pairwise_cons.2 ⟨fun time htime => ?_, ih hrest⟩
    have hlt : first < second := Nat.lt_of_le_of_ne (hfirst second List.mem_cons_self) hne
    rcases List.mem_cons.1 (mem_dropRepeats.1 htime) with rfl | hmem
    · exact hlt
    · exact Nat.lt_of_lt_of_le hlt ((List.pairwise_cons.1 hrest).1 time hmem)
  | case3 times hnot =>
    -- there are no two times
    match times with
    | [] => exact List.Pairwise.nil
    | [time] => exact List.pairwise_singleton _ _
    | first :: second :: rest => exact absurd rfl (hnot first second rest)

/-- Before a trip the start times are those found at the origin and at the end of its walks. -/
theorem mem_startTimes_iff {origin : NodeId} :
    time ∈ graph.startTimes origin begin finish .preTrip direction ↔
      time ∈ graph.timetable.stationTimes origin begin finish direction ∨
        ∃ ref ∈ graph.edgesAt origin direction, ∃ minutes,
          (graph.edge ref).kind.anytimeWalk? = some minutes ∧
          time ∈ graph.walkTimes (graph.target ref direction) minutes begin finish direction := by
  have hedge : ∀ ref, time ∈ graph.edgeTimes begin finish direction ref ↔ ∃ minutes,
      (graph.edge ref).kind.anytimeWalk? = some minutes ∧
      time ∈ graph.walkTimes (graph.target ref direction) minutes begin finish direction := by
    intro ref
    unfold edgeTimes
    cases (graph.edge ref).kind.anytimeWalk? <;> simp
  have hmem : time ∈ graph.startTimes origin begin finish .preTrip direction ↔
      time ∈ graph.timetable.stationTimes origin begin finish direction ++
        (graph.edgesAt origin direction).flatMap (graph.edgeTimes begin finish direction) := by
    unfold startTimes
    cases direction <;> exact mem_dropRepeats.trans List.mem_mergeSort
  rw [hmem, List.mem_append, List.mem_flatMap]
  simp only [hedge]

/-- Before a trip no start time comes twice, and the earlier comes first. -/
theorem pairwise_startTimes (origin : NodeId) :
    (graph.startTimes origin begin finish .preTrip direction).Pairwise (· < ·) := by
  unfold startTimes
  cases direction <;> exact pairwise_dropRepeats (List.pairwise_mergeSort' (· ≤ ·) _)

/-- Before a trip all start times lie between the bounds. -/
theorem mem_startTimes (h : graph.timetable.Sound) {origin : NodeId}
    (ht : time ∈ graph.startTimes origin begin finish .preTrip direction) :
    begin ≤ time ∧ time ≤ finish := by
  rcases mem_startTimes_iff.1 ht with hhere | ⟨ref, -, minutes, -, hwalk⟩
  · obtain ⟨hle, hge, -⟩ := h.mem_stationTimes.1 hhere
    exact ⟨hle, hge⟩
  · obtain ⟨hle, hge, -⟩ := mem_walkTimes h hwalk
    exact ⟨hle, hge⟩

end QueryGraph

namespace Request

variable {tt : Timetable} {request : Request} {q : Query}

/-- Minutes of the interval in schedule time start within the interval. -/
theorem instants_of_scheduleInterval {period : Period} {interval : Interval} {begin finish : Time}
    (h : scheduleInterval period interval = .ok (begin, finish)) :
    interval.begin ≤ period.toInstant begin ∧ period.toInstant finish ≤ interval.finish ∧
      finish ≤ Bounded.ceiling := by
  unfold scheduleInterval at h
  dsimp only at h
  split at h
  · cases h
  · split at h
    · next b f hbegin hfinish =>
      cases h
      have hb := (Period.toTimeUp?_spec hbegin).1
      obtain ⟨-, hf, -, hceiling, -⟩ := Period.toTime?_eq_some_iff.1 hfinish
      exact ⟨Int.le_trans (Int.le_max_left _ _) hb, Int.le_trans hf (Int.min_le_left _ _),
        hceiling⟩
    · cases h

theorem tripType_eq (h : request.toQuery tt = .ok q) : q.tripType = request.tripType := by
  obtain ⟨target, begin, finish, -, -, -, rfl⟩ := toQuery_eq_ok.1 h
  rfl

/-- Before a trip every start time lies in the interval of the request. -/
theorem instant_mem_interval (hs : tt.Sound) (h : request.toQuery tt = .ok q)
    (hpre : request.tripType = .preTrip) {time : Time} (ht : time ∈ q.startTimes) :
    request.interval.begin ≤ tt.period.toInstant time ∧
      tt.period.toInstant time ≤ request.interval.finish ∧ time ≤ Bounded.ceiling := by
  obtain ⟨target, begin, finish, -, -, hinterval, rfl⟩ := toQuery_eq_ok.1 h
  dsimp only at ht
  rw [hpre] at ht
  split at ht
  · obtain ⟨hbegin, hfinish⟩ := QueryGraph.mem_startTimes hs ht
    obtain ⟨hb, hf, hceiling⟩ := instants_of_scheduleInterval hinterval
    exact ⟨Int.le_trans hb (Period.toInstant_mono hbegin),
      Int.le_trans (Period.toInstant_mono hfinish) hf, Nat.le_trans hfinish hceiling⟩
  · cases ht

/-- Going backward a search starts within the range of times, on a trip too. -/
theorem le_ceiling_of_backward (hs : tt.Sound) (h : request.toQuery tt = .ok q)
    (hd : q.direction = .backward) : ∀ time ∈ q.startTimes, time ≤ Bounded.ceiling := by
  intro time ht
  obtain ⟨target, begin, finish, -, -, hinterval, rfl⟩ := toQuery_eq_ok.1 h
  obtain ⟨-, -, hceiling⟩ := instants_of_scheduleInterval hinterval
  dsimp only at ht hd
  rw [hd] at ht
  split at ht
  · cases htrip : request.tripType with
    | onTrip =>
      rw [htrip] at ht
      rw [List.mem_singleton.1 ht]
      exact hceiling
    | preTrip =>
      rw [htrip] at ht
      exact Nat.le_trans (QueryGraph.mem_startTimes hs ht).2 hceiling
  · cases ht

end Request

end JourneyPlanner
