import JourneyPlanner.Proofs.Router
import JourneyPlanner.Proofs.Search.Sections

/-!
# Which vehicles run

A trip runs on the days of its mask. The main result of this file,
`sections_run_iff`:

> every section of a journey is the run of a trip of that very edge on a day of
> the schedule; and all of them run on their days if and only if those do that
> are reached right behind a through edge.

Boarding looks for events that run, and along a route the masks of one trip are
the same. A through edge only maps trips to trips. Whether the trip that it leads
to runs on the day is not asked there, nor when its first section is ridden, so
that section is all that can go wrong: `ghost_section` is a journey with a train
on a day on which it does not run. In a timetable whose through edges join trips
of one mask nothing does (`sections_run_of_sameDays`).
-/

namespace JourneyPlanner

/-- The trip of the section by which a label was reached runs on its day. -/
def Label.runs (graph : QueryGraph) (label : Label) : Bool :=
  (label.section? graph).all fun event => event.leg.days.runsOn event.day

/-- A mask for each trip at each stop, kept along the edges of a route and over
through edges. -/
structure Timetable.SameDays (tt : Timetable) (days : NodeId → Nat → DayMask) : Prop where
  route : ∀ edge ∈ tt.edges, ∀ legs, edge.kind = .route legs → ∀ trip leg,
    legs[trip]? = some leg → days edge.tail trip = leg.days ∧ days edge.head trip = leg.days
  through : ∀ edge ∈ tt.edges, ∀ trips, edge.kind = .through trips → ∀ trip next,
    trips[trip]? = some (some next) → days edge.tail trip = days edge.head next

theorem Label.runs_of_connection_none {graph : QueryGraph} {label : Label}
    (h : label.connection = none) : label.runs graph = true := by
  unfold Label.runs
  rw [Label.section?_of_connection_none h]
  rfl

section Trail

variable {q : Query} {settings : Settings} {measures : List Measure}

theorem runs_after {id : LabelId} {label : Label} {eid : EdgeId} {legs : Array Leg} {event : Event}
    {transfer : Bool} {now : Time} (hkind : (q.graph.edge (.timetable eid)).kind = .route legs)
    (hat : Event.at? legs event.trip event.day = some event) :
    (q.after id label (.timetable eid) (q.graph.timetable.rideCost eid event label.now transfer
      q.direction) now).runs q.graph = event.leg.days.runsOn event.day := by
  unfold Label.runs
  rw [section?_after hkind hat]
  rfl

/-- A trip runs on the same days on both of two edges of its route. -/
theorem runsOn_eq_of_meet (hq : q.graph.Sound) {first second : EdgeRef} {legs legs' : Array Leg}
    {event event' : Event} {trip day : Nat}
    (hfirst : q.graph.edge first ∈ q.graph.timetable.edges)
    (hsecond : q.graph.edge second ∈ q.graph.timetable.edges)
    (hmeet : (q.graph.edge first).target q.direction = (q.graph.edge second).source q.direction)
    (hk : (q.graph.edge first).kind = .route legs) (hk' : (q.graph.edge second).kind = .route legs')
    (hat : Event.at? legs trip day = some event) (hat' : Event.at? legs' trip day = some event') :
    event'.leg.days.runsOn event'.day = event.leg.days.runsOn event.day := by
  obtain ⟨-, hday, hleg, -⟩ := Event.eq_of_at? hat
  obtain ⟨-, hday', hleg', -⟩ := Event.eq_of_at? hat'
  have hdays : event'.leg.days = event.leg.days := by
    cases hd : q.direction with
    | forward =>
      rw [hd] at hmeet
      have hfollow := hq.timetable.parts.follow _ hfirst _ hsecond hmeet _ _ hk hk'
      exact (hfollow.continues trip _ _ hleg hleg').days_eq
    | backward =>
      rw [hd] at hmeet
      have hfollow := hq.timetable.parts.follow _ hsecond _ hfirst (Eq.symm hmeet) _ _ hk' hk
      exact (hfollow.continues trip _ _ hleg' hleg).days_eq.symm
  rw [hdays, hday, hday']

/-- A section runs if it was boarded, or if the section before it on the same
route runs. -/
theorem Trail.runs_of_older (hq : q.graph.Sound) {newer older : Label} {before : List Label}
    (h : Trail q settings measures (newer :: older :: before)) (holder : older.runs q.graph = true)
    (hthrough : older.cameThrough q.graph = true → newer.runs q.graph = true) :
    newer.runs q.graph = true := by
  cases h with
  | step id ref _ _ _ trail hgoal href hnext hin =>
    obtain ⟨cost, now, ht, -, rfl⟩ := expandEdge_eq_some_iff.1 hnext
    cases ht with
    | stay eid legs ride event hid hkind hride hat hahead =>
      subst hid
      have hriding := trail.riding hq
      cases hconn : older.connection with
      | none => exact hthrough (hriding.through (by rw [hride]; rfl) hconn)
      | some last =>
        obtain ⟨id', event', hedge', hmem', htarget', hevent', hride'⟩ := hriding.vehicle last hconn
        rw [hride] at hride'
        cases hride'
        obtain ⟨hmem, hsource⟩ := hq.edge_mem href
        obtain ⟨legs', hkind', hat'⟩ := QueryGraph.event?_eq_some hevent'
        unfold Label.runs at holder
        rw [Label.section?_eq hedge', hconn, hevent', Option.all_some] at holder
        rw [runs_after hkind (Event.at?_self hat),
          runsOn_eq_of_meet hq hmem' hmem (by rw [htarget', hsource]) hkind' hkind hat' hat]
        exact holder
    | board eid legs event hid hkind hride hboarding hfind =>
      subst hid
      obtain ⟨-, hat, hruns, -⟩ := boardable_spec hq href hkind hfind
      rw [runs_after hkind hat]
      exact hruns
    | access | egress | through | foot | mumo | hotel => exact Label.runs_of_connection_none rfl

/-- The sections of a trail run if and only if those do that are reached right
behind a through edge. -/
theorem Trail.runs_iff (hq : q.graph.Sound) {labels : List Label}
    (h : Trail q settings measures labels) :
    (∀ label ∈ labels, label.runs q.graph = true) ↔
      ∀ newer older, [newer, older] <:+: labels → older.cameThrough q.graph = true →
        newer.runs q.graph = true := by
  constructor
  · intro hall newer older hpart _
    exact hall newer (hpart.subset List.mem_cons_self)
  · intro hthrough
    induction h with
    | start time htime hin =>
      intro label hlabel
      cases List.mem_singleton.1 hlabel
      exact Label.runs_of_connection_none rfl
    | step id ref next label before trail hgoal href hnext hin ih =>
      have hbefore := ih fun newer older hpart =>
        hthrough newer older (hpart.trans (List.suffix_cons _ _).isInfix)
      intro l hl
      rcases List.mem_cons.1 hl with rfl | hl
      · have hpair : [l, label] <:+: l :: label :: before := ⟨[], before, rfl⟩
        exact (Trail.step id ref l label before trail hgoal href hnext hin).runs_of_older hq
          (hbefore label List.mem_cons_self) (hthrough l label hpair)
      · exact hbefore l hl

theorem Timetable.SameDays.ends {tt : Timetable} {days : NodeId → Nat → DayMask}
    (h : tt.SameDays days) {edge : Edge} (hmem : edge ∈ tt.edges) {legs : Array Leg}
    (hkind : edge.kind = .route legs) {trip : Nat} {leg : Leg} (hleg : legs[trip]? = some leg)
    (direction : Direction) :
    days (edge.source direction) trip = leg.days ∧
      days (edge.target direction) trip = leg.days := by
  obtain ⟨htail, hhead⟩ := h.route edge hmem legs hkind trip leg hleg
  cases direction with
  | forward => exact ⟨htail, hhead⟩
  | backward => exact ⟨hhead, htail⟩

/-- A through edge leads to a trip with the mask of the trip that it leads from. -/
theorem Timetable.SameDays.next?_eq {tt : Timetable} {days : NodeId → Nat → DayMask}
    (h : tt.SameDays days) {edge : Edge} (hmem : edge ∈ tt.edges) {trips : List (Option Nat)}
    (hkind : edge.kind = .through trips) {direction : Direction} {trip next : Nat}
    (hnext : direction.next? trips trip = some next) :
    days (edge.target direction) next = days (edge.source direction) trip := by
  cases direction with
  | forward =>
    have hget : trips[trip]? = some (some next) := Option.join_eq_some_iff.1 hnext
    exact (h.through edge hmem trips hkind trip next hget).symm
  | backward =>
    obtain ⟨hlt, heq, -⟩ := List.findIdx?_eq_some_iff_getElem.1 hnext
    have hget : trips[next]? = some (some trip) := by
      rw [List.getElem?_eq_getElem hlt, eq_of_beq heq]
    exact h.through edge hmem trips hkind next trip hget

/-- A label on board is on a trip that runs, by the mask that the trip has at the
label's node. -/
def Label.OnRunning (days : NodeId → Nat → DayMask) (label : Label) : Prop :=
  ∀ ride, label.ride = some ride → (days label.node ride.trip).runsOn ride.day = true

theorem Takes.runs_of_sameDays (hq : q.graph.Sound) {days : NodeId → Nat → DayMask}
    (hdays : q.graph.timetable.SameDays days) (id : LabelId) {label : Label} {ref : EdgeRef}
    {cost : EdgeCost} (now : Time) (hlabel : label.OnRunning days)
    (href : ref ∈ q.graph.edgesAt label.node q.direction)
    (ht : Takes q.graph q.direction settings.maxMinutes label ref cost) :
    (q.after id label ref cost now).runs q.graph = true ∧
      (q.after id label ref cost now).OnRunning days := by
  -- a section has at both of its ends the mask of the trip that is ridden
  have hroute : ∀ eid legs event transfer, ref = .timetable eid →
      (q.graph.edge ref).kind = .route legs → Event.at? legs event.trip event.day = some event →
      event.leg.days.runsOn event.day = true →
      (q.after id label ref (q.graph.timetable.rideCost eid event label.now transfer q.direction)
          now).runs q.graph = true ∧
        (q.after id label ref (q.graph.timetable.rideCost eid event label.now transfer q.direction)
          now).OnRunning days := by
    intro eid legs event transfer hid hkind hat hruns
    subst hid
    refine ⟨(runs_after hkind hat).trans hruns, fun ride hride => ?_⟩
    cases hride
    have hends := hdays.ends (hq.edge_mem href).1 hkind (Event.eq_of_at? hat).2.2.1 q.direction
    show (days ((q.graph.edge (.timetable eid)).target q.direction) event.trip).runsOn event.day =
      true
    rw [hends.2]
    exact hruns
  cases ht with
  | stay eid legs ride event hid hkind hride hat hahead =>
    refine hroute eid legs event false hid hkind (Event.at?_self hat) ?_
    subst hid
    obtain ⟨htrip, hday, hleg, -⟩ := Event.eq_of_at? hat
    obtain ⟨hmem, hsource⟩ := hq.edge_mem href
    rw [← (hdays.ends hmem hkind hleg q.direction).1, hsource, hday]
    exact hlabel ride hride
  | board eid legs event hid hkind hride hboarding hfind =>
    subst hid
    obtain ⟨-, hat, hruns, -⟩ := boardable_spec hq href hkind hfind
    exact hroute eid legs event _ rfl hkind hat hruns
  | through trips ride trip hkind hride htrip =>
    refine ⟨Label.runs_of_connection_none rfl, fun ride' hride' => ?_⟩
    cases hride'
    obtain ⟨hmem, hsource⟩ := hq.through_mem href hkind
    show (days ((q.graph.edge ref).target q.direction) trip).runsOn ride.day = true
    rw [hdays.next?_eq hmem hkind htrip, hsource]
    exact hlabel ride hride
  | access | egress | foot | mumo | hotel =>
    refine ⟨Label.runs_of_connection_none rfl, fun ride hride => ?_⟩
    cases hride

/-- Where a trip has one mask along its route and keeps it over through edges, every
section of a trail runs. -/
theorem Trail.runs_of_sameDays (hq : q.graph.Sound) {days : NodeId → Nat → DayMask}
    (hdays : q.graph.timetable.SameDays days) {labels : List Label}
    (h : Trail q settings measures labels) : ∀ label ∈ labels, label.runs q.graph = true := by
  intro label hl
  obtain ⟨before, hrest⟩ := h.tail_of_mem hl
  refine (Trail.along (P := fun label _ => label.runs q.graph = true ∧ label.OnRunning days)
    ?_ ?_ hrest).1
  · intro time htime
    refine ⟨Label.runs_of_connection_none rfl, fun ride hride => ?_⟩
    cases hride
  · intro id ref label before cost now trail href ht hnow hin ih
    exact ht.runs_of_sameDays hq hdays id now ih.2 href

end Trail

/-- In a timetable where a trip has one mask, over through edges too, every section
behind a result runs on its day. -/
theorem sections_run_of_sameDays {fixture : Fixture} {tt : Timetable}
    (hbuild : fixture.build = .ok tt) {days : NodeId → Nat → DayMask} (hdays : tt.SameDays days)
    {settings : Settings} {measures : List Measure} {router : Router}
    (hrouter : Router.Reached settings measures router) {request : Request} {q : Query}
    (hq : request.toQuery tt = .ok q) {run : Run} {response : Response}
    (hanswer : router.answer tt request = .ok (run, response)) :
    ∀ id ∈ run.frontier.results, ∀ label ∈ (run.frontier.chain id).map (·.2),
      label.runs q.graph = true := by
  obtain ⟨order, hanswers⟩ := hrouter.answers_to hbuild hq hanswer
  intro id hid
  obtain ⟨label, before, -, hchain, -, htrail⟩ := hanswers.trail hid
  rw [← hanswers.timetable_eq] at hdays
  rw [hchain]
  exact htrail.runs_of_sameDays hanswers.sound.graph hdays

/-- Every route edge behind a result is ridden with a run of a trip of that edge
on a day of the schedule; and all these trips run on their days if and only if
those do that are reached right behind a through edge. -/
theorem sections_run_iff {fixture : Fixture} {tt : Timetable} (hbuild : fixture.build = .ok tt)
    {settings : Settings} {measures : List Measure} {router : Router}
    (hrouter : Router.Reached settings measures router) {request : Request} {q : Query}
    (hq : request.toQuery tt = .ok q) {run : Run} {response : Response}
    (hanswer : router.answer tt request = .ok (run, response)) :
    (∀ journey ∈ response.journeys, ∃ id ∈ run.frontier.results,
      Journey.ofChain q.graph q.direction ((run.frontier.chain id).map (·.2)) = .ok journey) ∧
    ∀ id ∈ run.frontier.results,
      (∀ label ∈ (run.frontier.chain id).map (·.2), ∀ ref legs, label.edge = some ref →
        (q.graph.edge ref).kind = .route legs →
        ∃ event, label.section? q.graph = some event ∧ event.day < tt.period.days) ∧
      ((∀ label ∈ (run.frontier.chain id).map (·.2), label.runs q.graph = true) ↔
        ∀ newer older, [newer, older] <:+: (run.frontier.chain id).map (·.2) →
          older.cameThrough q.graph = true → newer.runs q.graph = true) := by
  obtain ⟨order, hanswers⟩ := hrouter.answers_to hbuild hq hanswer
  refine ⟨hanswers.journeys, fun id hid => ?_⟩
  obtain ⟨label, before, -, hchain, -, htrail⟩ := hanswers.trail hid
  rw [hchain]
  refine ⟨fun l hl ref legs hedge hkind => ?_, htrail.runs_iff hanswers.sound.graph⟩
  obtain ⟨rest, hrest⟩ := htrail.tail_of_mem hl
  obtain ⟨used, hused⟩ := Option.isSome_iff_exists.1
    ((hrest.riding hanswers.sound.graph).route ref legs hedge hkind)
  obtain ⟨event, hsection, -, hday, -⟩ := hrest.section_spec hanswers.sound.graph hused
  rw [hanswers.timetable_eq] at hday
  exact ⟨event, hsection, hday⟩

/-- A train to `B` every day goes on to `C` as a train of the second day only. -/
def nightTrain : Fixture :=
  { firstDay := Fixture.firstMonday, days := 2, categories := ["RE"],
    stations := [.plain "A" 0, .plain "B" 0, .plain "C" 0],
    routes := [⟨["A", "B"], [.single "00:10" "00:20" 0 none]⟩,
      ⟨["B", "C"], [.single "00:25" "00:30" 0 (some [1])]⟩],
    footpaths := [], through := [⟨0, 1, [some 0]⟩] }

set_option maxRecDepth 4000 in
theorem sections_run_iff_nightTrain : ∃ tt q run response, nightTrain.build = .ok tt ∧
    (Fixture.onTrip "A" "C" 1440 .forward).toQuery tt = .ok q ∧
    (Router.new {} Measure.all).answer tt (Fixture.onTrip "A" "C" 1440 .forward) =
      .ok (run, response) ∧
    run.frontier.results ≠ [] ∧
    ∀ id ∈ run.frontier.results,
      ((∀ label ∈ (run.frontier.chain id).map (·.2), label.runs q.graph = true) ↔
        ∀ newer older, [newer, older] <:+: (run.frontier.chain id).map (·.2) →
          older.cameThrough q.graph = true → newer.runs q.graph = true) := by
  obtain ⟨tt, q, run, response, journeys, hbuild, hq, -, -, hanswer, -, hfound⟩ :=
    Fixture.of_search? nightTrain (Fixture.onTrip "A" "C" 1440 .forward)
      (fun _ run _ => !run.frontier.results.isEmpty) (by decide +kernel)
  refine ⟨tt, q, run, response, hbuild, hq, hanswer, fun hnil => ?_, fun id hid =>
    ((sections_run_iff hbuild .new hq hanswer).2 id hid).2⟩
  rw [hnil] at hfound
  cases hfound

set_option maxRecDepth 4000 in
/-- On the first day the train to `C` does not run, and a journey rides it. -/
theorem ghost_section : ∃ tt q run response, nightTrain.build = .ok tt ∧
    (Fixture.onTrip "A" "C" 0 .forward).toQuery tt = .ok q ∧
    (Router.new {} Measure.all).answer tt (Fixture.onTrip "A" "C" 0 .forward) =
      .ok (run, response) ∧
    ∃ journey ∈ response.journeys, ∃ id ∈ run.frontier.results,
      Journey.ofChain q.graph q.direction ((run.frontier.chain id).map (·.2)) = .ok journey ∧
      ¬ ∀ label ∈ (run.frontier.chain id).map (·.2), label.runs q.graph = true := by
  obtain ⟨tt, q, run, response, journeys, hbuild, hq, -, hjourneys, hanswer, hrank, hfound⟩ :=
    Fixture.of_search? nightTrain (Fixture.onTrip "A" "C" 0 .forward)
      (fun q run _ => run.frontier.results.any fun id =>
        !((run.frontier.chain id).map (·.2)).all fun label => label.runs q.graph)
      (by decide +kernel)
  obtain ⟨id, hid, hnot⟩ := List.any_eq_true.1 hfound
  obtain ⟨journey, hj, hok⟩ := Fallible.exists_of_mapM_mem hjourneys hid
  refine ⟨tt, q, run, response, hbuild, hq, hanswer, journey, ?_, id, hid,
    Fallible.mapError_eq_ok.1 hok, fun hall => ?_⟩
  · rw [hrank]
    exact (Journey.rank_perm journeys).mem_iff.2 hj
  · rw [List.all_eq_true.2 hall] at hnot
    cases hnot

end JourneyPlanner
