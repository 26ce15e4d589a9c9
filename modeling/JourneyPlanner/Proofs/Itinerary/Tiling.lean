import JourneyPlanner.Proofs.Itinerary.Ends
import JourneyPlanner.Proofs.Query.StartTimes

/-!
# Moves end to end, times in order

What a traveller reads off a journey hangs together: the moves follow each other from the first
stop to the last, and the times that are shown never go back. Both hold of a draft after every
step.

A draft is `Tiled` if its moves reach to its tip without a gap. The tip is the present stop, or
the stop at which the ride under way began; what is written down next begins there. That a ride
is never under way when a walk begins is what `Suits` has shown of the labels
(`Trail.tiled_forward`, `Trail.tiled_backward`).

A draft is `Shown` up to a time if the times of its stops are in order and none is later. A step
shows times between those at its two ends only (`Takes.shown`): a section is ridden between
them, and however long somebody waits before a walk or after it, the walk lies between them too.
-/

namespace JourneyPlanner

/-! ## Moves -/

namespace Transport

/-- Moves that follow each other from one stop to another: each begins where the one before it
has ended, and without any move the stops are the same. -/
inductive Tile : Nat → List Transport → Nat → Prop
  | nil (place : Nat) : Tile place [] place
  | cons (t : Transport) (rest : List Transport) (last : Nat) (hrest : Tile t.last rest last) :
      Tile t.first (t :: rest) last

/-- A vehicle leads on by one stop at least, a walk by one at most. -/
structure Spans (t : Transport) : Prop where
  vehicle : t.isConnection = true → t.first < t.last
  walk : t.isConnection = false → t.first ≤ t.last ∧ t.last ≤ t.first + 1

variable {place last : Nat} {moves : List Transport}

theorem Tile.concat (h : Tile place moves last) {t : Transport}
    (hfirst : t.first = last) : Tile place (moves ++ [t]) t.last := by
  induction h with
  | nil place =>
    subst hfirst
    exact .cons t [] t.last (.nil t.last)
  | cons move rest last hrest ih => exact .cons move (rest ++ [t]) t.last (ih hfirst)

theorem Tile.eq_of_nil (h : Tile place [] last) : last = place := by
  cases h
  rfl

theorem Tile.first_eq (h : Tile place moves last) {t : Transport} (ht : moves.head? = some t) :
    t.first = place := by
  cases h with
  | nil => cases ht
  | cons move rest last hrest =>
    cases ht
    rfl

theorem Tile.isChain (h : Tile place moves last) :
    moves.IsChain fun t next => next.first = t.last := by
  induction h with
  | nil place => exact .nil
  | cons move rest last hrest ih =>
    exact List.isChain_cons.2 ⟨fun next hnext => hrest.first_eq hnext, ih⟩

theorem Tile.last_eq (h : Tile place moves last) {t : Transport} (ht : moves.getLast? = some t) :
    t.last = last := by
  induction h with
  | nil place => cases ht
  | cons move rest last hrest ih =>
    cases rest with
    | nil =>
      cases ht
      exact hrest.eq_of_nil.symm
    | cons next rest =>
      rw [List.getLast?_cons_cons] at ht
      exact ih ht

end Transport

namespace Draft

/-- How far the moves reach that have been written down. -/
def tip (d : Draft) : Nat :=
  match d.ride with
  | some ride => ride.stop
  | none => d.position

/-- The moves follow each other from the first stop to the tip. -/
structure Tiled (d : Draft) : Prop where
  tile : Transport.Tile 0 d.transports.reverse d.tip
  spans : ∀ t ∈ d.transports, t.Spans
  /-- A ride has got somewhere since it began. -/
  ridden : ∀ ride, d.ride = some ride → ride.stop < d.position

variable {d d' : Draft} {tt : Timetable}

theorem start_tiled (tt : Timetable) (node : NodeId) : (start tt node).Tiled :=
  ⟨.nil 0, fun t ht => absurd ht List.not_mem_nil, fun ride hride => by cases hride⟩

/-- Moves, place and ride are all that matters. -/
theorem Tiled.congr (h : d.Tiled) (htransports : d'.transports = d.transports)
    (hpast : d'.past.length = d.past.length) (hride : d'.ride = d.ride) : d'.Tiled := by
  have hposition : d'.position = d.position := hpast
  have htip : d'.tip = d.tip := by
    unfold tip
    rw [hride, hposition]
  refine ⟨?_, ?_, ?_⟩
  · rw [htransports, htip]
    exact h.tile
  · rw [htransports]
    exact h.spans
  · rw [hride, hposition]
    exact h.ridden

/-- One more move, from the tip to where no ride is under way. -/
theorem Tiled.add (h : d.Tiled) {t : Transport} (hspans : t.Spans) (hfirst : t.first = d.tip)
    (htransports : d'.transports = t :: d.transports) (hlast : t.last = d'.position)
    (hride : d'.ride = none) : d'.Tiled := by
  have htip : d'.tip = t.last := by
    unfold tip
    rw [hride, hlast]
  refine ⟨?_, ?_, ?_⟩
  · rw [htransports, htip, List.reverse_cons]
    exact h.tile.concat hfirst
  · rw [htransports]
    intro other hother
    rcases List.mem_cons.1 hother with rfl | hother
    · exact hspans
    · exact h.spans other hother
  · intro ride hr
    rw [hride] at hr
    cases hr

theorem Tiled.writeRide (h : d.Tiled) {ride : OpenRide} (hride : d.ride = some ride) :
    (d.writeRide tt ride).Tiled := by
  refine h.add (t := ⟨ride.stop, d.position, _⟩) ?_ ?_ rfl rfl rfl
  · exact ⟨fun _ => h.ridden ride hride, fun hwalk => Bool.noConfusion hwalk⟩
  · unfold tip
    rw [hride]

theorem Tiled.leave (h : d.Tiled) (hleave : d.leave tt = .ok d') : d'.Tiled := by
  obtain ⟨ride, hride, rfl⟩ := leave_eq_ok hleave
  have hwritten : (d.writeRide tt ride).Tiled := h.writeRide hride
  exact hwritten.congr rfl rfl rfl

/-- A section begins at the tip, whether a ride goes on or another begins. -/
theorem Tiled.rideTo (h : d.Tiled) (event : Event) (node : NodeId) :
    (d.rideTo tt event node).Tiled := by
  unfold Draft.rideTo
  extract_lets leg d₁ d₂ place ride info arrival
  have h₁ : d₁.Tiled := by
    unfold d₁
    split
    · next ride hride =>
      split
      · exact h
      · exact h.writeRide hride
    · exact h
  have h₂ : d₂.Tiled := h₁.congr rfl rfl rfl
  have hstop : ride.stop = d₂.tip ∧ ride.stop ≤ place := by
    unfold ride tip
    cases hr : d₂.ride with
    | none => exact ⟨rfl, Nat.le_refl _⟩
    | some old => exact ⟨rfl, Nat.le_of_lt (h₂.ridden old hr)⟩
  refine ⟨?_, h₂.spans, fun r hr => ?_⟩
  · show Transport.Tile 0 d₂.transports.reverse ride.stop
    rw [hstop.1]
    exact h₂.tile
  · cases hr
    exact Nat.lt_succ_of_le hstop.2

/-- A walk begins at the tip if no ride is under way. -/
theorem Tiled.walk (h : d.Tiled) (hride : d.ride = none) (direction : Direction) (step : Step)
    (edge : Edge) (duration price : Nat) (kind : WalkKind) :
    (d.walk tt direction step edge duration price kind).Tiled := by
  have htip : d.tip = d.position := by
    unfold tip
    rw [hride]
  unfold Draft.walk
  rcases walkTimes step duration direction with ⟨departure, arrival⟩
  dsimp only
  by_cases hsame : (tt.node edge.tail).stationIndex = (tt.node edge.head).stationIndex
  · rw [if_pos hsame]
    refine h.add ⟨fun hv => Bool.noConfusion hv, fun _ => ?_⟩ htip.symm rfl rfl hride
    exact ⟨Nat.le_refl _, Nat.le_succ _⟩
  · rw [if_neg hsame]
    refine h.add ⟨fun hv => Bool.noConfusion hv, fun _ => ?_⟩ htip.symm rfl rfl hride
    exact ⟨Nat.le_succ _, Nat.le_refl _⟩

theorem Tiled.sleep (h : d.Tiled) (hride : d.ride = none) (step : Step) (price : Nat) :
    (d.sleep step price).Tiled := by
  refine h.add (t := ⟨d.position, d.position, _⟩)
    ⟨fun hv => Bool.noConfusion hv, fun _ => ⟨Nat.le_refl _, Nat.le_succ _⟩⟩ ?_ rfl rfl hride
  unfold tip
  rw [hride]

/-- The moves go on following each other, if walks are taken on foot. -/
theorem Tiled.take (h : d.Tiled) {graph : QueryGraph} {direction : Direction} {step : Step}
    (hfoot : (graph.edge step.edge).kind.isWalk = true → d.ride = none)
    (htake : d.take graph direction step = .ok d') : d'.Tiled := by
  cases hk : (graph.edge step.edge).kind with
  | enter =>
    rw [take_enter direction step hk] at htake
    cases htake
    exact h.congr rfl rfl rfl
  | exit =>
    rw [take_exit direction step hk] at htake
    exact h.leave htake
  | through trips =>
    rw [take_through direction step hk] at htake
    cases htake
    exact h
  | route legs =>
    obtain ⟨used, event, -, -, rfl⟩ := take_route_eq_ok direction step hk htake
    exact h.rideTo event _
  | foot duration price =>
    rw [take_foot direction step hk] at htake
    cases htake
    exact h.walk (hfoot (congrArg EdgeKind.isWalk hk)) _ _ _ _ _ _
  | mumo ride =>
    rw [take_mumo direction step hk] at htake
    cases htake
    exact h.walk (hfoot (congrArg EdgeKind.isWalk hk)) _ _ _ _ _ _
  | hotel stay =>
    rw [take_hotel direction step hk] at htake
    cases htake
    exact h.sleep (hfoot (congrArg EdgeKind.isWalk hk)) step _

/-- Nothing is finished while a ride is under way. -/
theorem ride_of_finish {duration : Nat} {journey : Journey}
    (h : d.finish duration = .ok journey) : d.ride = none :=
  (finish_eq_ok h).1

end Draft

/-! ## Times -/

/-- The times of a stop, arrival before departure. -/
def Stop.times (stop : Stop) : List Int :=
  (stop.arrival.toList ++ stop.departure.toList).map StopEvent.time

namespace Draft

/-- All times that stops show so far. -/
def times (d : Draft) : List Int := d.stops.flatMap Stop.times

/-- The times are in order, and none is later than `time`. -/
structure Shown (tt : Timetable) (d : Draft) (time : Time) : Prop where
  sorted : d.times.Pairwise (· ≤ ·)
  le : ∀ t ∈ d.times, t ≤ tt.period.toInstant time

variable {d d' : Draft} {tt : Timetable} {time time' : Time}

theorem times_eq (d : Draft) : d.times = d.past.reverse.flatMap Stop.times ++ d.here.times := by
  unfold times
  rw [stops_eq, List.flatMap_append, List.flatMap_singleton]

theorem Shown.mono (h : d.Shown tt time) (hle : time ≤ time') : d.Shown tt time' :=
  ⟨h.sorted, fun t ht => Int.le_trans (h.le t ht) (Period.toInstant_mono hle)⟩

theorem Shown.congr (h : d.Shown tt time) (htimes : d'.times = d.times) : d'.Shown tt time := by
  refine ⟨?_, ?_⟩
  · rw [htimes]
    exact h.sorted
  · rw [htimes]
    exact h.le

/-- One more time is shown, no earlier than all others. -/
theorem Shown.add (h : d.Shown tt time) (hle : time ≤ time')
    (htimes : d'.times = d.times ++ [(tt.period.toInstant time' : Int)]) : d'.Shown tt time' := by
  have hlate := (h.mono hle).le
  refine ⟨?_, ?_⟩
  · rw [htimes]
    refine List.pairwise_append.2 ⟨h.sorted, List.pairwise_singleton _ _, ?_⟩
    intro t ht t' ht'
    rw [List.mem_singleton.1 ht']
    exact hlate t ht
  · intro t ht
    rw [htimes] at ht
    rcases List.mem_append.1 ht with ht | ht
    · exact hlate t ht
    · exact Int.le_of_eq (List.mem_singleton.1 ht)

theorem stopAt_times (tt : Timetable) (node : NodeId) :
    (stopAt tt node).arrival = none ∧ (stopAt tt node).departure = none := by
  unfold stopAt
  split <;> exact ⟨rfl, rfl⟩

theorem start_shown (tt : Timetable) (node : NodeId) (time : Time) :
    (start tt node).Shown tt time := by
  have hnil : (start tt node).times = [] := by
    rw [times_eq]
    show [] ++ ((stopAt tt node).arrival.toList ++ (stopAt tt node).departure.toList).map _ = []
    rw [(stopAt_times tt node).1, (stopAt_times tt node).2]
    rfl
  refine ⟨?_, ?_⟩
  · rw [hnil]
    exact List.Pairwise.nil
  · rw [hnil]
    exact fun t ht => absurd ht List.not_mem_nil

/-- Setting out shows a time, unless one is shown there already. -/
theorem Shown.depart (h : d.Shown tt time) (hle : time ≤ time') (track : Option TrackId) :
    (d.depart (eventAt tt time' track)).Shown tt time' := by
  cases hd : d.here.departure with
  | some event =>
    refine (h.mono hle).congr ?_
    rw [times_eq, times_eq]
    show _ ++ (_ ++ (d.here.departure.or _).toList).map _ =
      _ ++ (_ ++ d.here.departure.toList).map _
    rw [hd]
    rfl
  | none =>
    refine h.add hle ?_
    rw [times_eq, times_eq]
    show _ ++ (_ ++ (d.here.departure.or _).toList).map _ =
      _ ++ (_ ++ d.here.departure.toList).map _ ++ _
    rw [hd]
    simp only [Option.none_or, Option.toList_some, Option.toList_none, List.append_nil,
      List.map_append, List.map_cons, List.map_nil, List.append_assoc]
    rfl

/-- A new stop shows the time of the arrival there. -/
theorem Shown.moveTo (h : d.Shown tt time) (hle : time ≤ time') (node : NodeId)
    (track : Option TrackId) :
    (d.moveTo { stopAt tt node with arrival := some (eventAt tt time' track) }).Shown tt
      time' := by
  refine h.add hle ?_
  rw [times_eq, times_eq]
  show (d.here :: d.past).reverse.flatMap Stop.times ++
    ([eventAt tt time' track] ++ (stopAt tt node).departure.toList).map _ = _
  rw [List.reverse_cons, List.flatMap_append, List.flatMap_singleton, (stopAt_times tt node).2]
  rfl

theorem Shown.board (h : d.Shown tt time) : d.board.Shown tt time := by
  refine h.congr ?_
  rw [times_eq, times_eq]
  rfl

theorem Shown.leave (h : d.Shown tt time) (hleave : d.leave tt = .ok d') : d'.Shown tt time := by
  obtain ⟨ride, -, rfl⟩ := leave_eq_ok hleave
  refine h.congr ?_
  rw [times_eq, times_eq]
  rfl

/-- Getting on or off a vehicle shows no time. -/
theorem Shown.take_change {graph : QueryGraph} {direction : Direction} {step : Step}
    (h : d.Shown graph.timetable time)
    (hkind : (graph.edge step.edge).kind = .enter ∨ (graph.edge step.edge).kind = .exit)
    (htake : d.take graph direction step = .ok d') : d'.Shown graph.timetable time := by
  rcases hkind with hkind | hkind
  · rw [take_enter direction step hkind] at htake
    cases htake
    exact h.board
  · rw [take_exit direction step hkind] at htake
    exact h.leave htake

theorem Shown.rideTo (h : d.Shown tt time) (event : Event) (node : NodeId)
    (hdeparture : time ≤ event.departure) (harrival : event.departure ≤ event.arrival) :
    (d.rideTo tt event node).Shown tt event.arrival := by
  unfold Draft.rideTo
  extract_lets leg d₁ d₂ place ride info arrival
  have h₁ : d₁.Shown tt time := by
    unfold d₁
    split
    · split
      · exact h
      · exact h.congr rfl
    · exact h
  have h₂ : d₂.Shown tt event.departure := h₁.depart hdeparture _
  exact (h₂.moveTo harrival node leg.arrivalTrack).congr rfl

theorem Shown.walk (h : d.Shown tt time) {direction : Direction} {step : Step}
    {duration : Nat} (hdeparture : time ≤ (walkTimes step duration direction).1)
    (harrival : (walkTimes step duration direction).1 ≤ (walkTimes step duration direction).2)
    (edge : Edge) (price : Nat) (kind : WalkKind) :
    (d.walk tt direction step edge duration price kind).Shown tt
      (walkTimes step duration direction).2 := by
  unfold Draft.walk
  generalize walkTimes step duration direction = ends at hdeparture harrival ⊢
  obtain ⟨departure, arrival⟩ := ends
  have h₁ : (d.depart (eventAt tt departure none)).Shown tt departure :=
    h.depart hdeparture none
  dsimp only at harrival ⊢
  by_cases hsame : (tt.node edge.tail).stationIndex = (tt.node edge.head).stationIndex
  · rw [if_pos hsame]
    exact (h₁.mono harrival).congr rfl
  · rw [if_neg hsame]
    exact (h₁.moveTo harrival edge.head none).congr rfl

end Draft

/-! ## Trails -/

section Trail

variable {q : Query} {settings : Settings} {measures : List Measure} {label : Label}
  {before : List Label} {ref : EdgeRef} {cost : EdgeCost} {now : Time} {d d' : Draft}

/-- The minutes of an edge lie between the two ends of its step. -/
theorem Label.atHead_stepTo (id : LabelId) (ref : EdgeRef) (cost : EdgeCost) {minutes : Nat}
    (hpass : q.direction.Passes label.now minutes now) :
    (label.stepTo q.direction (q.after id label ref cost now) ref).atHead =
      (label.stepTo q.direction (q.after id label ref cost now) ref).atTail + minutes := by
  cases hd : q.direction with
  | forward =>
    rw [hd] at hpass
    exact hpass
  | backward =>
    rw [hd] at hpass
    exact hpass

/-- However long somebody waits, a walk lies between the two ends of its step. -/
theorem Draft.walkTimes_within {step : Step} {duration minutes : Nat}
    (hspan : step.atHead = step.atTail + minutes) (hle : duration ≤ minutes)
    {direction : Direction} (hceiling : direction = .backward → step.atTail ≤ Bounded.ceiling) :
    step.atTail ≤ (walkTimes step duration direction).1 ∧
      (walkTimes step duration direction).1 ≤ (walkTimes step duration direction).2 ∧
      (walkTimes step duration direction).2 ≤ step.atHead := by
  cases direction with
  | forward =>
    simp only [walkTimes, Time] at hspan ⊢
    omega
  | backward =>
    have htail := Bounded.le_add (b := duration) (hceiling rfl)
    simp only [walkTimes, Bounded.add, Time] at hspan htail ⊢
    omega

/-- A walk shows when it sets out and when it arrives. -/
theorem Draft.Shown.take_walk {graph : QueryGraph} {direction : Direction} {step : Step}
    {duration minutes : Nat} (h : d.Shown graph.timetable step.atTail)
    (hwalks : graph.Walks step.edge duration) (hspan : step.atHead = step.atTail + minutes)
    (hle : duration ≤ minutes) (hceiling : direction = .backward → step.atTail ≤ Bounded.ceiling)
    (htake : d.take graph direction step = .ok d') : d'.Shown graph.timetable step.atHead := by
  obtain ⟨price, kind, hwalk⟩ := hwalks.take
  rw [hwalk d direction step rfl] at htake
  cases htake
  obtain ⟨hfirst, hbetween, hlast⟩ := Draft.walkTimes_within hspan hle hceiling
  exact (h.walk hfirst hbetween _ price kind).mono hlast

/-- An event that is used lies between the two ends of its step. -/
theorem Label.event_within_stepTo (id : LabelId) (ref : EdgeRef) (cost : EdgeCost)
    {event : Event} (hahead : event.isAhead label.now q.direction = true)
    (hpast : now = event.past q.direction) :
    (label.stepTo q.direction (q.after id label ref cost now) ref).atTail ≤ event.departure ∧
      event.arrival ≤ (label.stepTo q.direction (q.after id label ref cost now) ref).atHead := by
  subst hpast
  cases hd : q.direction with
  | forward =>
    rw [hd] at hahead
    exact ⟨of_decide_eq_true hahead, Nat.le_refl _⟩
  | backward =>
    rw [hd] at hahead
    exact ⟨Nat.le_refl _, of_decide_eq_true hahead⟩

/-- A step shows no time but such as lie between its two ends. -/
theorem Takes.shown (hq : q.graph.Sound) (id : LabelId)
    (href : ref ∈ q.graph.edgesAt label.node q.direction)
    (ht : Takes q.graph q.direction settings.maxMinutes label ref cost)
    (hnow : Run.timeAfter? label.now cost.time q.direction = some now)
    (hceiling : q.direction = .backward → now ≤ Bounded.ceiling) (d d' : Draft)
    (htake : d.take q.graph q.direction
      (label.stepTo q.direction (q.after id label ref cost now) ref) = .ok d')
    (h : d.Shown q.graph.timetable
      (label.stepTo q.direction (q.after id label ref cost now) ref).atTail) :
    d'.Shown q.graph.timetable
      (label.stepTo q.direction (q.after id label ref cost now) ref).atHead := by
  have hspan := Label.atHead_stepTo id ref cost (passes_of_timeAfter? hnow)
  have hevent : ∀ event : Event, event.isAhead label.now q.direction = true →
      now = event.past q.direction → _ := fun _ => Label.event_within_stepTo id ref cost
  have hedge : (label.stepTo q.direction (q.after id label ref cost now) ref).edge = ref :=
    Label.edge_stepTo
  have hused : (label.stepTo q.direction (q.after id label ref cost now) ref).connection =
      cost.connection := by
    cases q.direction <;> rfl
  have htail : q.direction = .backward →
      (label.stepTo q.direction (q.after id label ref cost now) ref).atTail ≤
        Bounded.ceiling := by
    intro hd
    have hle := hceiling hd
    rw [hd]
    exact hle
  generalize label.stepTo q.direction (q.after id label ref cost now) ref = step at *
  subst hedge
  have hle : step.atTail ≤ step.atHead := Nat.le.intro hspan.symm
  -- a ride is the only step that uses an event
  have hride : ∀ eid legs event transfer, step.edge = .timetable eid →
      (q.graph.edge step.edge).kind = .route legs →
      Event.at? legs event.trip event.day = some event →
      event.isAhead label.now q.direction = true →
      cost = q.graph.timetable.rideCost eid event label.now transfer q.direction →
      d'.Shown q.graph.timetable step.atHead := by
    intro eid legs event transfer hid hkind hat hahead hcost
    subst hcost
    rw [Draft.take_route _ _ hkind hused hat] at htake
    cases htake
    rw [hid] at href hkind
    have horder := (hq.departure_le href hkind hat).2
    obtain ⟨hfirst, hlast⟩ := hevent event hahead (Event.past_of_timeAfter? horder hahead hnow)
    exact (h.rideTo event _ hfirst horder).mono hlast
  cases ht with
  | access hkind hfoot =>
    refine (h.mono hle).take_change ?_ htake
    rw [hkind]
    cases q.direction
    · exact Or.inl rfl
    · exact Or.inr rfl
  | egress ride hkind hride =>
    refine (h.mono hle).take_change ?_ htake
    rw [hkind]
    cases q.direction
    · exact Or.inr rfl
    · exact Or.inl rfl
  | stay eid legs ride event hid hkind hsome hat hahead =>
    exact hride eid legs event false hid hkind (Event.at?_self hat) hahead rfl
  | board eid legs event hid hkind hnone hboarding hfind =>
    rw [hid] at href hkind
    refine hride eid legs event _ hid (by rw [hid]; exact hkind)
      (boardable_spec hq href hkind hfind).2.1 (isAhead_of_boardable hq href hkind hfind) rfl
  | through trips ride trip hkind hsome htrip =>
    rw [Draft.take_through _ _ hkind] at htake
    cases htake
    exact h.mono hle
  | foot duration price hkind hfoot =>
    exact h.take_walk (QueryGraph.walks_of_foot hkind) hspan (Nat.le_refl _) htail htake
  | mumo ride time hkind hfoot htime hpinned =>
    exact h.take_walk (QueryGraph.walks_of_mumo hkind) hspan (Mumo.duration_le_time htime) htail
      htake
  | hotel stay hkind hfoot hfirst hpinned =>
    rw [Draft.take_hotel _ _ hkind] at htake
    cases htake
    exact (h.mono hle).congr rfl

/-- Walks are taken on foot and lead to somebody on foot. -/
theorem Takes.onFoot_of_isWalk (id : LabelId) (now : Time)
    (ht : Takes q.graph q.direction settings.maxMinutes label ref cost)
    (hwalk : (q.graph.edge ref).kind.isWalk = true) :
    label.OnFoot ∧ (q.after id label ref cost now).OnFoot := by
  cases ht with
  | access hkind => cases hd : q.direction <;> rw [hkind, hd] at hwalk <;> cases hwalk
  | egress ride hkind => cases hd : q.direction <;> rw [hkind, hd] at hwalk <;> cases hwalk
  | stay eid legs ride event hid hkind | board eid legs event hid hkind
  | through trips ride trip hkind =>
    rw [hkind] at hwalk
    cases hwalk
  | foot duration price hkind hfoot => exact ⟨hfoot, rfl, rfl⟩
  | mumo ride time hkind hfoot => exact ⟨hfoot, rfl, rfl⟩
  | hotel stay hkind hfoot => exact ⟨hfoot, rfl, rfl⟩

/-- Going forward, a draft comes to the time of its label. -/
theorem Trail.tiled_forward (hq : q.Sound) (hd : q.direction = .forward)
    (h : Trail q settings measures (label :: before)) (node : NodeId) : ∀ d,
    (stepsBack .forward (label :: before)).reverse.foldlM (Draft.take q.graph .forward)
      (Draft.start q.graph.timetable node) = .ok d →
    d.Tiled ∧ d.Shown q.graph.timetable label.now := by
  refine Trail.along (P := fun label before => ∀ d,
    (stepsBack .forward (label :: before)).reverse.foldlM (Draft.take q.graph .forward)
      (Draft.start q.graph.timetable node) = .ok d →
    d.Tiled ∧ d.Shown q.graph.timetable label.now) ?_ ?_ h
  · intro time htime d hfold
    cases hfold
    exact ⟨Draft.start_tiled _ _, Draft.start_shown _ _ _⟩
  · intro id ref label before cost now trail href ht hnow hin ih d hfold
    obtain ⟨d₁, hfold₁, htake⟩ := Draft.foldlM_forward rfl hfold
    obtain ⟨htiled, hshown⟩ := ih d₁ hfold₁
    -- no ride is under way where the older label is on foot
    obtain ⟨d₂, hfold₂, -, hsuits⟩ := trail.draft_forward hq hd node
    rw [hfold₁] at hfold₂
    cases hfold₂
    have hnone : (q.graph.edge ref).kind.isWalk = true → d₁.ride = none :=
      fun hwalk => (hsuits.onFoot (ht.onFoot_of_isWalk id now hwalk).1).1
    have hback : q.direction = .backward → now ≤ Bounded.ceiling := by
      rw [hd]
      intro hne
      cases hne
    have hstep := ht.shown hq.graph id href hnow hback d₁ d
    rw [hd] at hstep
    exact ⟨htiled.take hnone htake, hstep htake hshown⟩

/-- Going backward, what is written from a label on follows what has been written up to it. -/
theorem Trail.tiled_backward (hq : q.Sound) (hd : q.direction = .backward)
    (hceiling : ∀ time ∈ q.startTimes, time ≤ Bounded.ceiling)
    (h : Trail q settings measures (label :: before)) : ∀ d d' : Draft, d.Tidy →
    d.Suits .backward label → d.Tiled → d.Shown q.graph.timetable label.now →
    (stepsBack .backward (label :: before)).foldlM (Draft.take q.graph .backward) d = .ok d' →
    d'.Tiled ∧ d'.Shown q.graph.timetable label.start := by
  refine Trail.along (P := fun label before => ∀ d d' : Draft, d.Tidy →
    d.Suits .backward label → d.Tiled → d.Shown q.graph.timetable label.now →
    (stepsBack .backward (label :: before)).foldlM (Draft.take q.graph .backward) d = .ok d' →
    d'.Tiled ∧ d'.Shown q.graph.timetable label.start) ?_ ?_ h
  · intro time htime d d' htidy hsuits htiled hshown hfold
    cases hfold
    exact ⟨htiled, hshown⟩
  · intro id ref label before cost now trail href ht hnow hin ih d d' htidy hsuits htiled hshown
      hfold
    obtain ⟨d₁, htake, hfold₁⟩ := Draft.foldlM_backward rfl hfold
    have hback : q.direction = .backward → now ≤ Bounded.ceiling := by
      have horder : (q.after id label ref cost now).InOrder q.direction := trail.inOrder.after hnow
      rw [hd] at horder
      exact fun _ => Nat.le_trans horder (hceiling _ trail.start_mem)
    have hstep := ht.shown hq.graph id href hnow hback d d₁
    rw [hd] at hstep ht href
    obtain ⟨d₂, htake₂, htidy₁, hsuits₁⟩ := hsuits.take_backward
      (label.stepTo .backward (q.after id label ref cost now) ref) hq.graph
      (trail.placed hq) href ht rfl htidy
    rw [htake] at htake₂
    cases htake₂
    rw [← hd] at ht
    have hnone : (q.graph.edge ref).kind.isWalk = true → d.ride = none :=
      fun hwalk => (hsuits.onFoot (ht.onFoot_of_isWalk id now hwalk).2).1
    exact ih d₁ d' htidy₁ hsuits₁ (htiled.take hnone htake) (hstep htake hshown) hfold₁

/-- The draft of a trail that has ended on foot is tiled, and its times are in order. -/
theorem Trail.tiled (hq : q.Sound)
    (hceiling : q.direction = .backward → ∀ time ∈ q.startTimes, time ≤ Bounded.ceiling)
    (h : Trail q settings measures (label :: before)) (hfoot : label.OnFoot)
    (hfold : (travelSteps q.direction (label :: before)).foldlM (Draft.take q.graph q.direction)
      (Draft.start q.graph.timetable (q.setsOutAt label)) = .ok d) :
    d.Tiled ∧ d.times.Pairwise (· ≤ ·) := by
  cases hd : q.direction with
  | forward =>
    rw [hd] at hfold
    obtain ⟨htiled, hshown⟩ := h.tiled_forward hq hd _ d hfold
    exact ⟨htiled, hshown.sorted⟩
  | backward =>
    rw [hd] at hfold
    have hsuits : (Draft.start q.graph.timetable (q.setsOutAt label)).Suits .backward label := by
      refine ⟨fun _ => ⟨rfl, (Draft.stopAt_plain _ _).1⟩, fun haboard => ?_⟩
      rw [hfoot.2] at haboard
      cases haboard
    obtain ⟨htiled, hshown⟩ := h.tiled_backward hq hd (hceiling hd) _ d
      (Draft.start_tidy _ _) hsuits (Draft.start_tiled _ _) (Draft.start_shown _ _ _) hfold
    exact ⟨htiled, hshown.sorted⟩

end Trail

end JourneyPlanner
