import JourneyPlanner.Proofs.Calendar.Minutes
import JourneyPlanner.Proofs.Router
import JourneyPlanner.Proofs.Search.Waiting

/-!
# Rides with a window of instants

A request gives the window of a ride in seconds, from its begin to just before its end, and a query
knows it in minutes. The main result of this file, `absolute_window_iff`:

> at a minute of the schedule the ride may set out if and only if the window has begun by the end of
> that minute and lasts to the end of it. This is to say that the minute starts within the window,
> with two exceptions: the minute in which the window begins is one too many, and the minute in
> which it ends is missing.

Both ends fall back to the minute in which they lie. For the end this is one minute less than there
could be, and for the begin one too many, with up to a minute that the window is not open yet
(`half_minute_early`). Where both ends are the starts of minutes nothing is lost and nothing gained.
-/

namespace JourneyPlanner

/-- An edge is an unscheduled ride that may set out at a minute. -/
def Edge.SetsOut (edge : Edge) (minute : Nat) : Prop :=
  ∃ ride, edge.kind = .mumo ride ∧
    ∀ window, ride.window = some window → Mumo.IsOpen window minute

namespace RequestedWindow

variable {period : Period} {begin finish : Int} {minute : Nat}

/-- A window that is cut to the schedule is open at the minutes that end within it. -/
theorem isOpen_resolve?_iff (hceiling : period.finish ≤ Bounded.ceiling)
    (hminute : minute < period.finish) :
    (∃ window, (RequestedWindow.absolute begin finish).resolve? period = some window ∧
      Mumo.IsOpen window minute) ↔
      begin < period.toInstant (minute + 1) ∧ period.toInstant (minute + 1) ≤ finish := by
  have hfirst : (period.toInstant 0 : Int) < period.toInstant (minute + 1) := by
    rw [Period.toInstant_eq, Period.toInstant_eq]
    simp only [Bounded.Instant]
    omega
  have hlast : (period.toInstant (minute + 1) : Int) ≤ period.toInstant period.finish :=
    Period.toInstant_mono hminute
  rcases resolve?_absolute_cases hceiling with ⟨hnever, hnone⟩ | ⟨-, b, e, hb, he, hsome⟩
  · rw [hnone]
    constructor
    · rintro ⟨window, hwindow, -⟩
      cases hwindow
    · rintro ⟨hbegin, hfinish⟩
      exact absurd ⟨Int.lt_of_lt_of_le hbegin hfinish, Int.lt_of_lt_of_le hbegin hlast,
        Int.lt_of_lt_of_le hfirst hfinish⟩ hnever
  · simp only [hsome, Option.some.injEq, exists_eq_left']
    have hbegin : b ≤ minute ↔ begin < period.toInstant (minute + 1) := by
      rw [← Nat.lt_succ_iff, ← Nat.not_le, Period.le_toTime?_iff hb, Int.not_le, Int.max_lt]
      exact and_iff_left hfirst
    have hfinish : minute < e ↔ period.toInstant (minute + 1) ≤ finish := by
      rw [← Nat.succ_le_iff, Period.le_toTime?_iff he, Int.le_min]
      exact and_iff_left hlast
    exact and_congr hbegin hfinish

end RequestedWindow

namespace QueryGraph

/-- What a request brings along is put in order behind each other. -/
theorem extra_make_append (tt : Timetable) (edges edges' : List AdditionalEdge) :
    (make tt (edges ++ edges')).extra = (make tt edges).extra ++ (make tt edges').extra := by
  unfold make
  rw [List.filterMap_append, List.append_toArray]

end QueryGraph

/-- Of one ride between stations that are known there is an edge that sets out at a minute if and only
if its window is open then. -/
theorem exists_setsOut_iff {tt : Timetable} {source target : String} {tail head : NodeId}
    (hsource : tt.stationNode? source = some tail) (htarget : tt.stationNode? target = some head)
    {duration price id : Nat} {name : String} {window : RequestedWindow} {minute : Nat} :
    (∃ edge ∈ (QueryGraph.make tt
      [.mumo source target duration price id name (some window)]).extra, edge.SetsOut minute) ↔
      ∃ resolved, window.resolve? tt.period = some resolved ∧ Mumo.IsOpen resolved minute := by
  unfold QueryGraph.make
  simp only [List.mem_toArray, List.mem_filterMap, List.mem_singleton, exists_eq_left,
    AdditionalEdge.resolve?, hsource, htarget, Option.bind_eq_bind, Option.bind_some]
  cases hresolved : window.resolve? tt.period with
  | none => simp
  | some resolved =>
    constructor
    · rintro ⟨edge, hedge, ride, hkind, hopen⟩
      cases hedge
      cases hkind
      exact ⟨resolved, rfl, hopen resolved rfl⟩
    · rintro ⟨_, ⟨⟩, hopen⟩
      exact ⟨_, rfl, _, rfl, fun _ h => by cases h; exact hopen⟩

/-- Among the edges of a request, a ride with a window of instants has an edge of its own that sets
out at the minutes that end within the window. They are those that start within it, except for a
minute in which it begins and for one in which it ends. -/
theorem absolute_window_iff {tt : Timetable} (hceiling : tt.period.finish ≤ Bounded.ceiling)
    {source target : String} {tail head : NodeId} (hsource : tt.stationNode? source = some tail)
    (htarget : tt.stationNode? target = some head) (duration price id : Nat) (name : String)
    (begin finish : Int) (before after : List AdditionalEdge) :
    let ride := AdditionalEdge.mumo source target duration price id name
      (some (.absolute begin finish))
    (QueryGraph.make tt (before ++ ride :: after)).extra =
      (QueryGraph.make tt before).extra ++ (QueryGraph.make tt [ride]).extra ++
        (QueryGraph.make tt after).extra ∧
    ∀ minute < tt.period.finish,
      let starts := tt.period.toInstant minute
      let ends := tt.period.toInstant (minute + 1)
      ((∃ edge ∈ (QueryGraph.make tt [ride]).extra, edge.SetsOut minute) ↔
        begin < ends ∧ ends ≤ finish) ∧
      (((∃ edge ∈ (QueryGraph.make tt [ride]).extra, edge.SetsOut minute) ↔
          begin ≤ starts ∧ starts < finish) ↔
        ¬ (starts < begin ∧ begin < ends ∧ ends ≤ finish) ∧
          ¬ (begin ≤ starts ∧ starts < finish ∧ finish < ends)) := by
  intro ride
  refine ⟨?_, fun minute hminute => ?_⟩
  · rw [List.append_cons, QueryGraph.extra_make_append, QueryGraph.extra_make_append]
  · intro starts ends
    have hends : (ends : Int) = starts + 60 := by
      simp only [ends, starts, Period.toInstant_eq, Bounded.Instant]
      omega
    have hopen : (∃ edge ∈ (QueryGraph.make tt [ride]).extra, edge.SetsOut minute) ↔
        begin < ends ∧ ends ≤ finish :=
      (exists_setsOut_iff hsource htarget).trans
        (RequestedWindow.isOpen_resolve?_iff hceiling hminute)
    refine ⟨hopen, ?_⟩
    rw [hopen]
    simp only [Bounded.Instant] at hends ⊢
    omega

/-- Two stations, and nothing that goes between them. -/
def unserved : Fixture :=
  { firstDay := Fixture.firstMonday, days := 1, categories := [],
    stations := [.plain "A" 0, .plain "B" 0], routes := [], footpaths := [], through := [] }

/-- A ride that may set out within some seconds of the first day. -/
def unserved.cab (begin finish : Int) : AdditionalEdge :=
  .mumo "A" "B" 5 0 1 "cab"
    (some (.absolute (Fixture.firstMonday.midnight + begin) (Fixture.firstMonday.midnight + finish)))

/-- The two stations are known, and the period is the first day. -/
theorem unserved_stations : ∃ tt tail head, unserved.build = .ok tt ∧
    tt.stationNode? "A" = some tail ∧ tt.stationNode? "B" = some head ∧
    tt.period = { firstDay := Fixture.firstMonday, days := 1 } := by
  have hfound : (unserved.build.toOption.any fun tt =>
      (tt.stationNode? "A").isSome && (tt.stationNode? "B").isSome &&
        decide (tt.period = { firstDay := Fixture.firstMonday, days := 1 })) = true := by
    decide +kernel
  obtain ⟨tt, hbuild, hmatch⟩ := (Option.any_eq_true _ _).1 hfound
  simp only [Bool.and_eq_true, decide_eq_true_eq, Option.isSome_iff_exists] at hmatch
  obtain ⟨⟨⟨tail, htail⟩, head, hhead⟩, hperiod⟩ := hmatch
  exact ⟨tt, tail, head, Fixture.toOption_eq_some hbuild, htail, hhead, hperiod⟩

/-- From half a minute past midnight to half a minute past ten minutes past midnight: the ride may
set out at midnight, and it may not at ten minutes past. -/
theorem absolute_window_iff_halfMinutes : ∃ tt, unserved.build = .ok tt ∧
    (∃ edge ∈ (QueryGraph.make tt [unserved.cab 30 630]).extra, edge.SetsOut 0) ∧
    ¬ ∃ edge ∈ (QueryGraph.make tt [unserved.cab 30 630]).extra, edge.SetsOut 10 := by
  obtain ⟨tt, tail, head, hbuild, htail, hhead, hperiod⟩ := unserved_stations
  have hiff := (absolute_window_iff (by rw [hperiod]; decide) htail hhead 5 0 1 "cab"
    (Fixture.firstMonday.midnight + 30) (Fixture.firstMonday.midnight + 630) [] []).2
  rw [hperiod] at hiff
  exact ⟨tt, hbuild, (hiff 0 (by decide)).1.2 (by decide),
    fun hlast => absurd ((hiff 10 (by decide)).1.1 hlast) (by decide)⟩

/-- At midnight a ride may set out half a minute before its window begins. -/
theorem half_minute_early : ∃ tt tail head, unserved.build = .ok tt ∧
    tt.stationNode? "A" = some tail ∧ tt.stationNode? "B" = some head ∧
    ¬ ∀ minute < tt.period.finish,
      (∃ edge ∈ (QueryGraph.make tt [unserved.cab 30 90]).extra, edge.SetsOut minute) ↔
        Fixture.firstMonday.midnight + 30 ≤ tt.period.toInstant minute ∧
          tt.period.toInstant minute < Fixture.firstMonday.midnight + 90 := by
  obtain ⟨tt, tail, head, hbuild, htail, hhead, hperiod⟩ := unserved_stations
  refine ⟨tt, tail, head, hbuild, htail, hhead, fun hexact => ?_⟩
  have hmidnight : ∃ edge ∈ (QueryGraph.make tt [unserved.cab 30 90]).extra, edge.SetsOut 0 :=
    (exists_setsOut_iff htail hhead).2 ((RequestedWindow.isOpen_resolve?_iff
      (by rw [hperiod]; decide) (by rw [hperiod]; decide)).2 (by rw [hperiod]; decide))
  have hbegun := ((hexact 0 (by rw [hperiod]; decide)).1 hmidnight).1
  rw [hperiod] at hbegun
  exact absurd hbegun (by decide)

end JourneyPlanner
