import JourneyPlanner.Proofs.Search.View

/-!
# Tighter limits and a nearer horizon

Limits bear on a search in two ways. What they do not allow is not queued; and vehicles
are boarded only within the horizon, which is the limit of minutes. So under tighter
limits fewer runs may be boarded, and which run is boarded might depend on it.

It does not, as far as it matters. A nearer horizon leaves the same run to be boarded or
none, and none only if the ride would end after more minutes than are allowed
(`Takes.of_within`). So what edges lead to under tighter limits is what they lead to
anyway and the tighter limits allow (`Query.nexts_tighter`).
-/

namespace JourneyPlanner

/-- The limits are no greater than others, and buckets are sorted or not alike. Budgets and
block sizes may differ. -/
structure Settings.Tightens (settings looser : Settings) : Prop where
  limit_le : ∀ m, Criterion.limit settings m ≤ Criterion.limit looser m
  sorted_eq : settings.sortedBuckets = looser.sortedBuckets

theorem Settings.Tightens.allowed {settings looser : Settings} (h : settings.Tightens looser)
    {label : Label} (hin : label.allowed settings = true) : label.allowed looser = true := by
  rw [Label.allowed_iff] at hin ⊢
  unfold Criteria.isBeyond at *
  rw [List.any_eq_false] at hin ⊢
  intro c hc
  have hnot := hin c hc
  have hle := h.limit_le c.measure
  unfold Criterion.isBeyond at *
  rw [Bool.or_eq_true, not_or, decide_eq_true_eq] at hnot ⊢
  exact ⟨hnot.1, fun hlt => hnot.2 (Nat.lt_of_le_of_lt hle hlt)⟩

/-! ## The runs that may be boarded -/

section Boardable

variable {tt : Timetable} {label : Label} {legs : Array Leg} {direction : Direction}
  {horizon wider : Nat} {event other : Event}

theorem Timetable.boardingWindow_mono (label : Label) (direction : Direction)
    (h : horizon ≤ wider) :
    (boardingWindow label direction wider).1 ≤ (boardingWindow label direction horizon).1 ∧
      (boardingWindow label direction horizon).2 ≤ (boardingWindow label direction wider).2 := by
  unfold boardingWindow
  cases label.pinned with
  | true => exact ⟨Nat.le_refl _, Nat.le_refl _⟩
  | false =>
    cases direction with
    | forward =>
      simp only [Bounded.add, Time]
      omega
    | backward =>
      simp only [Bounded.add, Time]
      omega

theorem Label.mem_boardable_iff (hsorted : legs.toList.Pairwise Leg.NoLater) :
    event ∈ (label.boardable tt legs direction horizon).events ↔
      Event.at? legs event.trip event.day = some event ∧
        event.leg.days.runsOn event.day = true ∧ event.day < tt.period.days ∧
        (Timetable.boardingWindow label direction horizon).1 ≤ event.key direction ∧
        event.key direction < (Timetable.boardingWindow label direction horizon).2 :=
  Window.mem_events_make hsorted

theorem Label.boardable_mono (hsorted : legs.toList.Pairwise Leg.NoLater) (h : horizon ≤ wider)
    (hmem : event ∈ (label.boardable tt legs direction horizon).events) :
    event ∈ (label.boardable tt legs direction wider).events := by
  obtain ⟨hbegin, hfinish⟩ := Timetable.boardingWindow_mono label direction h
  obtain ⟨hat, hruns, hday, hlo, hhi⟩ := (mem_boardable_iff hsorted).1 hmem
  exact (mem_boardable_iff hsorted).2
    ⟨hat, hruns, hday, Nat.le_trans hbegin hlo, Nat.lt_of_lt_of_le hhi hfinish⟩

/-- A run that is met before one within the horizon is within the horizon. -/
theorem Label.boardable_of_before (hsorted : legs.toList.Pairwise Leg.NoLater)
    (hmem : event ∈ (label.boardable tt legs direction horizon).events)
    (hmem' : other ∈ (label.boardable tt legs direction wider).events)
    (hbefore : other.Before direction event) :
    other ∈ (label.boardable tt legs direction horizon).events := by
  obtain ⟨-, -, -, hlo, hhi⟩ := (mem_boardable_iff hsorted).1 hmem
  obtain ⟨hat, hruns, hday, hlo', hhi'⟩ := (mem_boardable_iff hsorted).1 hmem'
  refine (mem_boardable_iff hsorted).2 ⟨hat, hruns, hday, ?_⟩
  unfold Timetable.boardingWindow at *
  cases hp : label.pinned <;> cases direction <;> rw [hp] at hlo hhi hlo' hhi' <;>
    simp only [Event.Before, Window.sooner, decide_eq_true_eq, Time] at * <;> omega

/-- Whoever is at the end of a ride within the horizon has boarded within the horizon. -/
theorem Label.boardable_of_past (hsorted : legs.toList.Pairwise Leg.NoLater)
    (hmem : event ∈ (label.boardable tt legs direction wider).events)
    (hle : event.departure ≤ event.arrival)
    (hpast : Bounded.distance (event.past direction) label.start ≤ horizon) :
    event ∈ (label.boardable tt legs direction horizon).events := by
  obtain ⟨hat, hruns, hday, hlo, hhi⟩ := (mem_boardable_iff hsorted).1 hmem
  refine (mem_boardable_iff hsorted).2 ⟨hat, hruns, hday, ?_⟩
  unfold Timetable.boardingWindow Bounded.distance at *
  cases hp : label.pinned <;> cases direction <;> rw [hp] at hlo hhi <;>
    simp only [Event.key, Event.past, Bounded.add, Time] at * <;> omega

end Boardable

/-! ## Taking an edge -/

section Takes

variable {graph : QueryGraph} {direction : Direction} {horizon wider : Nat} {label : Label}
  {ref : EdgeRef} {cost : EdgeCost}

/-- Nothing but boarding depends on the horizon. -/
theorem Takes.of_board (ht : Takes graph direction horizon label ref cost)
    (hboard : ∀ id legs event, ref = .timetable id → (graph.edge ref).kind = .route legs →
      cost = graph.timetable.rideCost id event label.now label.lastConnection.isSome direction →
      (label.boardable graph.timetable legs direction horizon).find?
        (label.inTime graph.timetable direction) = some event →
      (label.boardable graph.timetable legs direction wider).find?
        (label.inTime graph.timetable direction) = some event) :
    Takes graph direction wider label ref cost := by
  cases ht with
  | access hkind hfoot => exact .access hkind hfoot
  | egress ride hkind hride => exact .egress ride hkind hride
  | stay id legs ride event hid hkind hride hat hahead =>
    exact .stay id legs ride event hid hkind hride hat hahead
  | board id legs event hid hkind hride hboarding hfind =>
    exact .board id legs event hid hkind hride hboarding (hboard id legs event hid hkind rfl hfind)
  | through trips ride trip hkind hride htrip => exact .through trips ride trip hkind hride htrip
  | foot duration price hkind hfoot => exact .foot duration price hkind hfoot
  | mumo ride time hkind hfoot htime hpinned => exact .mumo ride time hkind hfoot htime hpinned
  | hotel stay hkind hfoot hfirst hpinned => exact .hotel stay hkind hfoot hfirst hpinned

/-- What is boarded within some horizon is boarded within any wider one. -/
theorem Takes.mono (hg : graph.Sound) (href : ref ∈ graph.edgesAt label.node direction)
    (hle : horizon ≤ wider) (ht : Takes graph direction horizon label ref cost) :
    Takes graph direction wider label ref cost := by
  refine ht.of_board fun id legs event hid hkind _ hfind => ?_
  subst hid
  have hsorted := hg.timetable.parts.sorted _ (hg.edge_mem href).1 legs hkind
  have hsub : ∀ e ∈ (label.boardable graph.timetable legs direction horizon).events,
      e ∈ (label.boardable graph.timetable legs direction wider).events :=
    fun e he => Label.boardable_mono hsorted hle he
  obtain ⟨hmem, hserves⟩ := Window.mem_of_find? hfind
  -- something is boarded, and if it were met before the run it would be boarded in either case
  obtain ⟨first, hfirst⟩ := Window.exists_find? (hsub event hmem) hserves
  rcases Window.find?_make_spec hsorted hfirst (hsub event hmem) hserves with rfl | hbefore
  · exact hfirst
  · have hin := Label.boardable_of_before hsorted hmem (Window.mem_of_find? hfirst).1 hbefore
    have hsame : (label.boardable graph.timetable legs direction horizon).find?
        (label.inTime graph.timetable direction) = some first :=
      Window.find?_make_of_subset hsorted hsub hfirst hin
    rw [hfirst, ← hsame, hfind]

/-- What is boarded within a wider horizon is boarded within a nearer one, if the ride ends
there. -/
theorem Takes.of_within (hg : graph.Sound) (href : ref ∈ graph.edgesAt label.node direction)
    (hle : horizon ≤ wider) (ht : Takes graph direction wider label ref cost) {now : Time}
    (hnow : Run.timeAfter? label.now cost.time direction = some now)
    (hin : Bounded.distance now label.start ≤ horizon) :
    Takes graph direction horizon label ref cost := by
  refine ht.of_board fun id legs event hid hkind hcost hfind => ?_
  subst hid hcost
  have hsorted := hg.timetable.parts.sorted _ (hg.edge_mem href).1 legs hkind
  obtain ⟨-, hat, -⟩ := boardable_spec hg href hkind hfind
  have hvalid := (hg.departure_le href hkind hat).2
  have hpast := Event.past_of_timeAfter? hvalid (isAhead_of_boardable hg href hkind hfind) hnow
  rw [hpast] at hin
  have hmem := Label.boardable_of_past hsorted (Window.mem_of_find? hfind).1 hvalid hin
  exact Window.find?_make_of_subset hsorted (fun e he => Label.boardable_mono hsorted hle he)
    hfind hmem

end Takes

/-! ## Where edges lead -/

section Nexts

variable {q : Query} {settings looser : Settings} {label next : Label} {ref : EdgeRef}
  {cost : EdgeCost} {id : LabelId} {now : Time} {before : List Label}

/-- What the labels of trails have in common, whatever slots they come from: they are
proper, and the minutes that they have spent are those since the start. -/
structure Label.Timed (q : Query) (label : Label) : Prop extends label.Proper q where
  inOrder : label.InOrder q.direction
  minutes_eq : label.criteria.current .time = label.travelTime

theorem Trail.timed (hq : q.Sound) (h : Trail q settings Measure.all (label :: before)) :
    label.Timed q :=
  ⟨(h.proper hq).1, h.inOrder, (h.proper hq).2 .time⟩

/-- What limits allow has not been on the way for longer than they say. -/
theorem Label.Timed.travelTime_after_le (hq : q.Sound) (h : label.Timed q)
    (href : ref ∈ q.graph.edgesAt label.node q.direction)
    (ht : Takes q.graph q.direction looser.maxMinutes label ref cost)
    (hnow : Run.timeAfter? label.now cost.time q.direction = some now)
    (hin : (q.after id label ref cost now).allowed settings = true) :
    (q.after id label ref cost now).travelTime ≤ settings.maxMinutes := by
  obtain ⟨hproper, hspent⟩ : (q.after id label ref cost now).Proper q ∧
      ∀ m, (q.after id label ref cost now).criteria.current m =
        Criterion.spend cost m (label.criteria.current m) := h.toProper.after hq href ht
  obtain ⟨hne, hlimit⟩ := hproper.full.isBeyond_eq_false_iff.1 (Label.allowed_iff.1 hin) .time
  rw [hproper.least_eq] at hne hlimit
  -- what has been spent has not been cut, and is no more than the bound
  have hlt := lt_ceiling_of_boundOf hne
  have hle : (q.after id label ref cost now).criteria.current .time ≤
      Criterion.boundOf q.bounds (q.after id label ref cost now).context .time
        ((q.after id label ref cost now).criteria.current .time) :=
    le_boundOf .time (Nat.le_of_lt hlt)
  have hcurrent := hspent .time
  rw [h.minutes_eq] at hcurrent
  have hsum : (q.after id label ref cost now).travelTime = label.travelTime + cost.time :=
    travelTime_after h.inOrder hnow
  simp only [Criterion.spend, Bounded.add, Criterion.limit] at hcurrent hlimit
  omega

theorem Query.next?_eq_some_iff : q.next? settings label ref = some next ↔
    ∃ cost now, Takes q.graph q.direction settings.maxMinutes label ref cost ∧
      Run.timeAfter? label.now cost.time q.direction = some now ∧
      (q.after 0 label ref cost now).allowed settings = true ∧
      next = (q.after 0 label ref cost now).bare := by
  unfold Query.next?
  constructor
  · intro h
    split at h
    · next found hfound =>
      obtain ⟨cost, now, ht, hnow, rfl⟩ := expandEdge_eq_some_iff.1 hfound
      split at h
      · next hin =>
        cases h
        exact ⟨cost, now, ht, hnow, hin, rfl⟩
      · cases h
    · cases h
  · rintro ⟨cost, now, ht, hnow, hin, rfl⟩
    rw [expandEdge_eq_some_iff.2 ⟨cost, now, ht, hnow, rfl⟩]
    dsimp only
    rw [if_pos hin]

theorem Query.next?_tighter (hq : q.Sound) (htight : settings.Tightens looser)
    (h : label.Timed q) (href : ref ∈ q.graph.edgesAt label.node q.direction) :
    q.next? settings label ref =
      (q.next? looser label ref).filter (Label.allowed settings) := by
  have hle : settings.maxMinutes ≤ looser.maxMinutes := htight.limit_le .time
  apply Option.ext
  intro next
  rw [Option.filter_eq_some_iff, Query.next?_eq_some_iff, Query.next?_eq_some_iff]
  constructor
  · rintro ⟨cost, now, ht, hnow, hin, rfl⟩
    exact ⟨⟨cost, now, ht.mono hq.graph href hle, hnow, htight.allowed hin, rfl⟩, hin⟩
  · rintro ⟨⟨cost, now, ht, hnow, -, rfl⟩, hin⟩
    have hminutes := h.travelTime_after_le hq href ht hnow hin
    exact ⟨cost, now, ht.of_within hq.graph href hle hnow hminutes, hnow, hin, rfl⟩

/-- Under tighter limits edges lead to what the limits allow of what they lead to
anyway. -/
theorem Query.nexts_tighter (hq : q.Sound) (htight : settings.Tightens looser)
    (h : label.Timed q) :
    q.nexts settings label = (q.nexts looser label).filter (Label.allowed settings) := by
  unfold Query.nexts
  rw [List.filter_filterMap]
  exact List.filterMap_congr fun ref href => q.next?_tighter hq htight h href

theorem Query.starts_tighter (q : Query) (htight : settings.Tightens looser) :
    q.starts settings = (q.starts looser).filter (Label.allowed settings) := by
  unfold Query.starts
  rw [List.filter_filter]
  refine List.filter_congr fun label _ => ?_
  cases hin : label.allowed settings with
  | false => rfl
  | true => rw [htight.allowed hin, Bool.and_self]

end Nexts

end JourneyPlanner
