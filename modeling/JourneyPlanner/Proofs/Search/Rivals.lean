import JourneyPlanner.Proofs.Search.StandIn

/-!
# Boarding the first run

Whoever is about to board takes the first run in time, whatever it costs and
wherever it gets to when. A label that may take another's place at a stop is there
no later, and may still board another run: one that left while the other was on its
way, or was waiting for the change. Such a run is a rival of the one that the other
boards.

A rival `keepsUp` if, where the other leaves the vehicle, it gets there no later,
the whole way to there has cost no more money, and it is of the same category if
another vehicle is to be boarded. Someone on a rival that keeps up has as good an
outlook as the other (`Rival.within`); and a run keeps up with itself
(`Rival.keepsUp_self`), so that nothing has to be asked of those who board the
same one.

A label `boardsSafely` if all the rivals that are boarded in its place keep up.
Only labels that have come to the stop are asked: a run which left before anybody
could be there is no rival.
-/

namespace JourneyPlanner

/-- Who started no earlier and is there no later has spent no more time. -/
theorem Direction.distance_mono {direction : Direction} {start start' now now' : Nat}
    (horder : direction.NoLater start now) (hnow : direction.NoLater now now')
    (hstart : direction.NoLater start' start) :
    Bounded.distance now start ≤ Bounded.distance now' start' := by
  cases direction <;> simp only [Direction.NoLater, Bounded.distance] at * <;> omega

/-- A section adds its duration at least. -/
theorem Event.distance_past {direction : Direction} {event : Event} {start now past : Nat}
    (hle : event.departure ≤ event.arrival) (hahead : event.isAhead past direction = true)
    (hnow : direction.NoLater now past) (horder : direction.NoLater start now) :
    direction.NoLater start (event.past direction) ∧
      Bounded.distance now start + (event.arrival - event.departure) ≤
        Bounded.distance (event.past direction) start := by
  cases direction <;>
    simp only [Direction.NoLater, Event.isAhead, Event.past, Bounded.distance, decide_eq_true_eq,
      Time] at * <;> omega

theorem Event.isAhead_mono {direction : Direction} {event : Event} {now later : Time}
    (h : event.isAhead later direction = true) (hnow : direction.NoLater now later) :
    event.isAhead now direction = true := by
  cases direction
  · exact decide_eq_true (Nat.le_trans hnow (of_decide_eq_true h))
  · exact decide_eq_true (Nat.le_trans (of_decide_eq_true h) hnow)

instance (direction : Direction) (a b : Nat) : Decidable (direction.NoLater a b) :=
  match direction with
  | .forward => inferInstanceAs (Decidable (a ≤ b))
  | .backward => inferInstanceAs (Decidable (b ≤ a))

/-- A run that has been boarded in place of another, as far as it has been ridden. -/
structure Rival where
  ride : Ride
  /-- The section ridden last. -/
  last : Event
  /-- The price of the whole way up to the end of that section. -/
  paid : Nat

namespace Rival

/-- The category of the section ridden last. -/
def category (tt : Timetable) (rival : Rival) : CategoryId := (tt.info rival.last.leg.info).category

/-- A run that a label has boarded and ridden over one section. -/
def boarded (tt : Timetable) (label : Label) (event : Event) : Rival :=
  { ride := { trip := event.trip, day := event.day }, last := event,
    paid := label.criteria.current .price + (tt.info event.leg.info).price }

/-- The run after one more section. -/
def onward (tt : Timetable) (rival : Rival) (event : Event) : Rival :=
  { ride := { trip := event.trip, day := event.day }, last := event,
    paid := rival.paid + (tt.info event.leg.info).price }

/-- Whether a run does as well as the vehicle that some labels stay on and leave. -/
def keepsUp (graph : QueryGraph) (direction : Direction) : Rival → List Label → Bool
  | _, [] => true
  | rival, next :: rest =>
    match next.edge.map fun ref => (graph.edge ref).kind with
    | some (.route legs) =>
      match (Event.at? legs rival.ride.trip rival.ride.day).filter
          (·.isAhead (rival.last.past direction) direction) with
      | some event => keepsUp graph direction (rival.onward graph.timetable event) rest
      | none => false
    | some (.through trips) =>
      match direction.next? trips rival.ride.trip with
      | some trip =>
        keepsUp graph direction { rival with ride := { trip, day := rival.ride.day } } rest
      | none => false
    | _ =>
      decide (direction.NoLater (rival.last.past direction) next.now) &&
        decide (rival.paid ≤ next.criteria.current .price) &&
        (rest.all (!·.boarding) || next.lastCategory == some (rival.category graph.timetable))

end Rival

namespace Label

/-- The run of a route edge that a label about to board takes. -/
def boards? (graph : QueryGraph) (direction : Direction) (horizon : Nat) (label : Label)
    (legs : Array Leg) : Option Event :=
  (label.boardable graph.timetable legs direction horizon).find?
    (label.inTime graph.timetable direction)

/-- Whether a label, if it is about to board, takes a run with which all the runs
keep up that others take who may stand in its place; `rest` are the labels to come. -/
def boardsSafely (graph : QueryGraph) (direction : Direction) (horizon : Nat) (others : List Label)
    (label : Label) (rest : List Label) : Bool :=
  match rest with
  | [] => true
  | next :: rest =>
    match next.edge.map fun ref => (graph.edge ref).kind with
    | some (.route legs) =>
      !label.boarding || others.all fun other =>
        !Frontier.replaces direction other label ||
          match other.boards? graph direction horizon legs with
          | some event => decide (label.boards? graph direction horizon legs = some event) ||
            (Rival.boarded graph.timetable other event).keepsUp graph direction rest
          | none => true
    | _ => true

end Label

/-- Whether on a way the runs that are boarded in the place of its labels, by
labels settled at the same stops, keep up with the runs that it takes. The labels
are in the order of the search. -/
def Frontier.boardsSafely (f : Frontier) (q : Query) (settings : Settings) (labels : List Label) :
    Bool :=
  labels.tails.all fun tail =>
    match tail with
    | [] => true
    | label :: rest => label.boardsSafely q.graph q.direction settings.maxMinutes
      ((f.settledAt label.node).filterMap f.label?) rest

/-! ## Which run is boarded -/

section Board

variable {graph : QueryGraph} {direction : Direction} {horizon : Nat} {label other : Label}

/-- Who is there no later catches what the other does. -/
theorem Replaces.inTime {tt : Timetable} (h : Replaces direction other label)
    (hnode : other.node = label.node) {event : Event}
    (hin : label.inTime tt direction event = true) : other.inTime tt direction event = true := by
  unfold Label.inTime at *
  rw [tt.changeTime_congr hnode h.category]
  cases direction with
  | forward => exact decide_eq_true (Nat.le_trans (Bounded.add_mono h.now _) (of_decide_eq_true hin))
  | backward => exact decide_eq_true (Nat.le_trans (of_decide_eq_true hin) h.now)

/-- Whoever may take the place of a label that boards a run, boards one as well. -/
theorem Replaces.exists_boards? (hg : graph.Sound) {id : EdgeId} {legs : Array Leg} {event : Event}
    (h : Replaces direction other label) (hnode : other.node = label.node)
    (href : EdgeRef.timetable id ∈ graph.edgesAt label.node direction)
    (hkind : (graph.edge (.timetable id)).kind = .route legs)
    (hboards : label.boards? graph direction horizon legs = some event) :
    ∃ found, other.boards? graph direction horizon legs = some found := by
  have hsorted := hg.timetable.parts.sorted _ (hg.edge_mem href).1 legs hkind
  obtain ⟨hin, hat, hruns, hday, hbegin, hfinish⟩ := boardable_spec hg href hkind hboards
  -- the run lies in the window of the other label as well
  refine Window.exists_find? ((Window.mem_events_make hsorted).2 ⟨hat, hruns, hday, ?_⟩)
    (h.inTime hnode hin)
  unfold Timetable.boardingWindow at *
  rw [h.pinned]
  cases hp : label.pinned with
  | true =>
    -- without leave to wait both stand there at one time
    rw [hp] at hbegin hfinish
    rw [h.same (h.pinned.trans hp)]
    exact ⟨hbegin, hfinish⟩
  | false =>
    rw [hp] at hbegin hfinish
    cases direction with
    | forward =>
      exact ⟨Nat.le_trans h.now hbegin,
        Nat.lt_of_lt_of_le hfinish (Bounded.add_mono h.started _)⟩
    | backward =>
      exact ⟨Nat.le_trans (Nat.sub_le_sub_right h.started _) hbegin,
        Nat.lt_of_lt_of_le hfinish (Bounded.add_mono h.now _)⟩

end Board

namespace Rival

variable {q : Query} {settings : Settings} {graph : QueryGraph} {direction : Direction}
  {label next last other : Label} {before rest tail : List Label} {rival : Rival} {ref : EdgeRef}

/-! ## One step -/

theorem kind_of_edge {kind : EdgeKind} (hedge : next.edge = some ref)
    (hkind : (graph.edge ref).kind = kind) :
    next.edge.map (fun ref => (graph.edge ref).kind) = some kind := by
  rw [hedge, ← hkind]
  rfl

/-- A run that keeps up over a section goes on in it, and keeps up afterwards. -/
theorem keepsUp_route {legs : Array Leg} (hedge : next.edge = some ref)
    (hkind : (graph.edge ref).kind = .route legs) :
    rival.keepsUp graph direction (next :: rest) = true ↔
      ∃ event, Event.at? legs rival.ride.trip rival.ride.day = some event ∧
        event.isAhead (rival.last.past direction) direction = true ∧
        (rival.onward graph.timetable event).keepsUp graph direction rest = true := by
  rw [keepsUp, kind_of_edge hedge hkind]
  dsimp only
  constructor
  · intro h
    split at h
    · next event hevent =>
      obtain ⟨hat, hahead⟩ := Option.filter_eq_some_iff.1 hevent
      exact ⟨event, hat, hahead, h⟩
    · cases h
  · rintro ⟨event, hat, hahead, h⟩
    rw [Option.filter_eq_some_iff.2 ⟨hat, hahead⟩]
    exact h

/-- Over a through edge it goes on as another trip. -/
theorem keepsUp_through {trips : List (Option Nat)} (hedge : next.edge = some ref)
    (hkind : (graph.edge ref).kind = .through trips) :
    rival.keepsUp graph direction (next :: rest) = true ↔
      ∃ trip, direction.next? trips rival.ride.trip = some trip ∧
        { rival with ride := { trip, day := rival.ride.day } : Rival }.keepsUp graph direction
          rest = true := by
  rw [keepsUp, kind_of_edge hedge hkind]
  dsimp only
  constructor
  · intro h
    split at h
    · next trip htrip => exact ⟨trip, htrip, h⟩
    · cases h
  · rintro ⟨trip, htrip, h⟩
    rw [htrip]
    exact h

/-- Where the vehicle is left, it is compared. -/
theorem keepsUp_egress (hedge : next.edge = some ref)
    (hkind : (graph.edge ref).kind = direction.egress) :
    rival.keepsUp graph direction (next :: rest) = true ↔
      direction.NoLater (rival.last.past direction) next.now ∧
        rival.paid ≤ next.criteria.current .price ∧
        ((∃ l ∈ rest, l.boarding = true) →
          next.lastCategory = some (rival.category graph.timetable)) := by
  rw [keepsUp, kind_of_edge hedge hkind]
  -- the category counts only if another vehicle is to be boarded
  have hlast : (rest.all (!·.boarding) || next.lastCategory ==
      some (rival.category graph.timetable)) = true ↔
      ((∃ l ∈ rest, l.boarding = true) →
        next.lastCategory = some (rival.category graph.timetable)) := by
    rw [Bool.or_eq_true, beq_iff_eq, List.all_eq_true]
    constructor
    · rintro (hall | heq) ⟨l, hl, hb⟩
      · have := hall l hl
        rw [hb] at this
        cases this
      · exact heq
    · intro himp
      by_cases hex : ∃ l ∈ rest, l.boarding = true
      · exact Or.inr (himp hex)
      · refine Or.inl fun l hl => ?_
        cases hb : l.boarding with
        | false => rfl
        | true => exact absurd ⟨l, hl, hb⟩ hex
  cases direction <;>
    simp only [Direction.egress, Bool.and_eq_true, decide_eq_true_eq, hlast, and_assoc]

/-- What boarding safely says of a label that may take the other's place: it boards
the same run or one that keeps up. -/
theorem keepsUp_of_boardsSafely {horizon : Nat} {others : List Label} {legs : Array Leg}
    {event found : Event}
    (h : label.boardsSafely graph direction horizon others (next :: rest) = true)
    (hedge : next.edge = some ref) (hkind : (graph.edge ref).kind = .route legs)
    (hboarding : label.boarding = true) (hother : other ∈ others)
    (hreplaces : Frontier.replaces direction other label = true)
    (hboards : label.boards? graph direction horizon legs = some event)
    (hfound : other.boards? graph direction horizon legs = some found) :
    found = event ∨ (boarded graph.timetable other found).keepsUp graph direction rest = true := by
  unfold Label.boardsSafely at h
  dsimp only at h
  rw [kind_of_edge hedge hkind] at h
  dsimp only at h
  rw [hboarding] at h
  have hsafe := List.all_eq_true.1 h other hother
  rw [hreplaces, hfound] at hsafe
  dsimp only at hsafe
  rw [hboards, Bool.not_true, Bool.false_or, Bool.or_eq_true, decide_eq_true_eq] at hsafe
  exact hsafe.imp_left fun hsame => (Option.some.inj hsame).symm

/-! ## Whole rides -/

/-- A run keeps up with itself, for whoever has paid no more. -/
theorem keepsUp_self (hq : q.Sound)
    (h : Trail q settings Measure.all (rest.reverse ++ label :: before))
    (hride : label.ride = some rival.ride) (hnow : label.now = rival.last.past q.direction)
    (hcategory : label.lastCategory = some (rival.category q.graph.timetable))
    (hpaid : rival.paid ≤ spent q.graph label before .price) :
    rival.keepsUp q.graph q.direction rest = true := by
  induction rest generalizing label before rival with
  | nil => rfl
  | cons next rest ih =>
    rw [List.reverse_cons, List.append_assoc, List.singleton_append] at h
    have htrail : Trail q settings Measure.all (next :: label :: before) := h.suffix
    have htrail' := htrail
    cases htrail with
    | step id ref _ _ _ trail _ href hnext hin =>
      obtain ⟨cost, now, ht, hafter, rfl⟩ := expandEdge_eq_some_iff.1 hnext
      have hspent : spent q.graph (q.after id label ref cost now) (label :: before) .price =
        spent q.graph label before .price + cost.price := spent_after hq _ trail href ht hafter
      rcases ht.of_riding hride with ⟨hkind, rfl⟩ |
        ⟨eid, legs, event, rfl, hkind, hat, hahead, rfl⟩ | ⟨trips, trip, hkind, htrip, rfl⟩
      · -- getting off takes no time and costs nothing
        refine (keepsUp_egress rfl hkind).2 ⟨?_, ?_, fun _ => hcategory⟩
        · rw [← hnow, ← eq_of_timeAfter?_zero hafter]
          exact .refl _ _
        · rw [(htrail'.proper hq).2, hspent]
          exact hpaid
      · refine (keepsUp_route rfl hkind).2 ⟨event, hat, ?_, ?_⟩
        · rw [← hnow]
          exact hahead
        · have hself : (q.after id label (.timetable eid) (q.graph.timetable.rideCost eid event
              label.now false q.direction) now).ride =
              some (rival.onward q.graph.timetable event).ride := rfl
          refine ih h hself (Event.past_of_timeAfter? (hq.graph.departure_le href hkind hat).2
            hahead hafter) rfl ?_
          rw [hspent]
          exact Nat.add_le_add_right hpaid _
      · refine (keepsUp_through rfl hkind).2 ⟨trip, htrip, ?_⟩
        have hself : (q.after id label ref { ride := some { trip, day := rival.ride.day } }
            now).ride = some { rival with ride := { trip, day := rival.ride.day } : Rival }.ride :=
          rfl
        refine ih h hself ((eq_of_timeAfter?_zero hafter).trans hnow) hcategory ?_
        rw [hspent]
        exact hpaid

/-- Someone on a run that keeps up with a vehicle of a trail that ends at the goal
gets there within what the trail comes to. -/
theorem within (hq : q.Sound) (h : Trail q settings Measure.all (last :: tail))
    (hgoal : q.target.isGoal last = true)
    (hsplit : rest.reverse ++ label :: before = last :: tail) (hride : label.ride ≠ none)
    (hkeeps : rival.keepsUp q.graph q.direction rest = true) {start now price : Nat}
    (hnow : q.direction.NoLater now (rival.last.past q.direction))
    (horder : q.direction.NoLater start now) (hstart : q.direction.NoLater label.start start)
    (hprice : price ≤ rival.paid) :
    q.Within LowerBounds.minutesOf label.node (Bounded.distance now start)
        (spent q.graph last tail .time) ∧
      q.Within (LowerBounds.priceOf q.graph.timetable) label.node price
        (spent q.graph last tail .price) := by
  induction rest generalizing label before rival now price with
  | nil =>
    cases hsplit
    exact absurd (h.onFoot_of_isGoal hq hgoal).1 hride
  | cons next rest ih =>
    rw [List.reverse_cons, List.append_assoc, List.singleton_append] at hsplit
    have htrail : Trail q settings Measure.all (next :: label :: before) := by
      rw [← hsplit] at h
      exact h.suffix
    have hcurrent := (htrail.proper hq).2 .price
    cases htrail with
    | step id ref _ _ _ trail _ href hnext hin =>
      obtain ⟨cost, after, ht, hafter, rfl⟩ := expandEdge_eq_some_iff.1 hnext
      obtain ⟨ride, hride⟩ := Option.ne_none_iff_exists'.1 hride
      rcases ht.of_riding hride with ⟨hkind, rfl⟩ |
        ⟨eid, legs, own, rfl, hkind, hown, -, rfl⟩ | ⟨trips, trip, hkind, -, rfl⟩
      · -- the vehicle is left, and from there the trail itself says what is still to come
        obtain ⟨hsooner, hpaid, -⟩ := (keepsUp_egress rfl hkind).1 hkeeps
        obtain ⟨htime, hmoney, -⟩ := h.within hq hgoal hsplit
        refine ⟨.step href htime ?_, .step href hmoney ?_⟩
        · rw [hkind, LowerBounds.minutesOf_egress]
          exact Direction.distance_mono horder (hnow.trans hsooner) hstart
        · rw [hkind, LowerBounds.priceOf_egress, ← hcurrent]
          exact Nat.le_trans hprice hpaid
      · -- one more section, which takes no less than the fastest trip and costs no less
        -- than the cheapest
        obtain ⟨event, hat, hahead, hkeeps⟩ := (keepsUp_route rfl hkind).1 hkeeps
        have hle := (hq.graph.departure_le href hkind hat).2
        have hnext : q.direction.NoLater start (event.past q.direction) ∧
            Bounded.distance now start + (event.arrival - event.departure) ≤
              Bounded.distance (event.past q.direction) start :=
          Event.distance_past hle hahead hnow horder
        obtain ⟨htime, hmoney⟩ := ih hsplit (Option.some_ne_none _) hkeeps (.refl _ _) hnext.1
          hstart (Nat.add_le_add_right hprice _)
        refine ⟨.step href htime ?_, .step href hmoney ?_⟩
        · rw [hkind]
          exact Nat.le_trans (Nat.add_le_add_left (minDuration_le hat) _) hnext.2
        · rw [hkind]
          exact Nat.add_le_add_left (minPrice_le hat) _
      · obtain ⟨trip', -, hkeeps⟩ := (keepsUp_through rfl hkind).1 hkeeps
        obtain ⟨htime, hmoney⟩ := ih hsplit (Option.some_ne_none _) hkeeps hnow horder hstart hprice
        refine ⟨.step href htime ?_, .step href hmoney ?_⟩
        · rw [hkind]
          exact Nat.le_refl _
        · rw [hkind]
          exact Nat.le_refl _

end Rival

end JourneyPlanner
