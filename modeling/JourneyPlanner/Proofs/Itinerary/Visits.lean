import JourneyPlanner.Proofs.Itinerary.Stops
import JourneyPlanner.Proofs.Itinerary.Standing
import JourneyPlanner.Proofs.Network.Through
import JourneyPlanner.Proofs.Query.Path
import JourneyPlanner.Proofs.Search.Progress
import Mathlib.Data.List.Forall2

/-!
# Where a journey stands on foot

A search counts the stations of the path as its labels come to their nodes, and it is on
foot there. A draft is written from the same steps, but it has stops where the search has
labels. `Draft.Reaches` ties the two together step by step: the present stop is at the
station of the label, and while the label is on foot, no vehicle is ridden there
(`Draft.OffAt`). So whenever the search passes stations, the draft stands at their stop, and
the whole path is met in order (`Trail.visits`).
-/

namespace JourneyPlanner

/-- Whether a walk begins or ends at a stop; a night at a hotel is no walk. -/
def Transport.walksAt (t : Transport) (place : Nat) : Bool :=
  match t.move with
  | .connection .. | .walk .hotel _ => false
  | .walk _ _ => t.first == place || t.last == place

namespace Draft

/-- Nobody is on a vehicle at a stop: there the journey begins, or a vehicle is left, or a
walk begins or ends. -/
inductive OffAt (d : Draft) (place : Nat) : Prop
  | start (h : place = 0)
  | exit (stop : Stop) (hstop : d.stops[place]? = some stop) (hexit : stop.exit = true)
  | walk (t : Transport) (ht : t ∈ d.transports) (hat : t.walksAt place = true)

/-- The traveller has been on no vehicle at the station of a node. -/
def Stands (tt : Timetable) (d : Draft) (node : NodeId) (place : Nat) : Prop :=
  d.OffAt place ∧ ∃ stop, d.stops[place]? = some stop ∧ stop.station = (stopAt tt node).station

/-- A draft that has got to a label. -/
structure Reaches (tt : Timetable) (label : Label) (d : Draft) : Prop where
  station_eq : d.here.station = (stopAt tt label.node).station
  offAt : label.OnFoot → d.OffAt d.position

/-- A draft that has come by the stations of nodes on no vehicle, one after the other. -/
def Visits (tt : Timetable) (nodes : List NodeId) (d : Draft) : Prop :=
  ∃ places : List Nat, places.Pairwise (· ≤ ·) ∧ (∀ place ∈ places, place ≤ d.position) ∧
    List.Forall₂ (d.Stands tt) nodes places

variable {d d' : Draft} {tt : Timetable} {label : Label} {node : NodeId} {nodes : List NodeId}
  {place : Nat}

theorem Extends.offAt (h : d.Extends d') (hoff : d.OffAt place) : d'.OffAt place := by
  cases hoff with
  | start hzero => exact .start hzero
  | exit stop hstop hexit =>
    obtain ⟨stop', hstop', hkeeps⟩ := h.stop place stop hstop
    exact .exit stop' hstop' (hkeeps.exit hexit)
  | walk t ht hat => exact .walk t (h.transports ht) hat

theorem Extends.stands (h : d.Extends d') (hs : d.Stands tt node place) :
    d'.Stands tt node place := by
  obtain ⟨hoff, stop, hstop, hstation⟩ := hs
  obtain ⟨stop', hstop', hkeeps⟩ := h.stop place stop hstop
  exact ⟨h.offAt hoff, stop', hstop', hkeeps.station_eq.trans hstation⟩

theorem Extends.visits (h : d.Extends d') (hv : d.Visits tt nodes) : d'.Visits tt nodes := by
  obtain ⟨places, hsorted, hle, hall⟩ := hv
  exact ⟨places, hsorted, fun place hp => Nat.le_trans (hle place hp) h.position_le,
    hall.imp fun _ _ hs => h.stands hs⟩

theorem Reaches.stands (h : d.Reaches tt label) (hfoot : label.OnFoot) :
    d.Stands tt label.node d.position :=
  ⟨h.offAt hfoot, d.here, d.getElem?_stops_position, h.station_eq⟩

/-- Several stations of the path may be met at one stop. -/
theorem Visits.stand (h : d.Visits tt nodes) (count : Nat)
    (hs : 0 < count → d.Stands tt node d.position) :
    d.Visits tt (nodes ++ List.replicate count node) := by
  obtain ⟨places, hsorted, hle, hall⟩ := h
  refine ⟨places ++ List.replicate count d.position, ?_, fun place hp => ?_, ?_⟩
  · refine List.pairwise_append.2 ⟨hsorted, List.pairwise_replicate.2 (Or.inr (Nat.le_refl _)),
      fun a ha b hb => ?_⟩
    rw [List.eq_of_mem_replicate hb]
    exact hle a ha
  · rcases List.mem_append.1 hp with hp | hp
    · exact hle place hp
    · exact Nat.le_of_eq (List.eq_of_mem_replicate hp)
  · refine List.rel_append hall ?_
    induction count with
    | zero => exact .nil
    | succ count ih => exact .cons (hs (Nat.succ_pos _)) (ih fun _ => hs (Nat.succ_pos _))

theorem Reaches.start {time : Time} {progress : Nat} {pinned : Bool} {criteria : Criteria} :
    (Draft.start tt node).Reaches tt (Label.atStart node time progress pinned criteria) :=
  ⟨rfl, fun _ => .start rfl⟩

/-! ## One step -/

theorem stopAt_congr {first second : NodeId}
    (h : (tt.node first).stationIndex = (tt.node second).stationIndex) :
    stopAt tt first = stopAt tt second := by
  unfold stopAt Timetable.stationAt?
  rw [h]

theorem stopAt_of_atOne {station stop : NodeId} (h : Node.AtOne tt.nodes station stop) :
    stopAt tt station = stopAt tt stop := by
  unfold stopAt
  rw [Timetable.stationAt?_eq_of_atOne h]

/-- A walk brings the traveller to the station at its head. -/
theorem Reaches.walk (h : d.Reaches tt label) {direction : Direction} {step : Step} {edge : Edge}
    {duration price : Nat} {kind : WalkKind} {second : Label} (hkind : kind ≠ .hotel)
    (htail : edge.tail = label.node) (hhead : edge.head = second.node) :
    (d.walk tt direction step edge duration price kind).Reaches tt second := by
  obtain ⟨-, hmem, hhere⟩ := d.walk_spec tt direction step edge duration price kind
  refine ⟨?_, fun _ => .walk _ hmem ?_⟩
  · rw [hhere, ← hhead]
    split
    · next hsame =>
      rw [← stopAt_congr hsame, htail]
      exact h.station_eq
    · rfl
  · unfold Transport.walksAt
    cases kind with
    | hotel => exact absurd rfl hkind
    | foot | mumo => exact Bool.or_eq_true_iff.2 (Or.inr (beq_self_eq_true _))

/-- A step leads from a draft that has got to one label to a draft that has got to the next,
in the order of travel. -/
theorem Reaches.take (h : d.Reaches tt label) {graph : QueryGraph} {direction : Direction}
    {step : Step} {second : Label} (htt : graph.timetable = tt)
    (hfits : (graph.edge step.edge).Fits tt.nodes)
    (hthrough : ∀ trips, (graph.edge step.edge).kind = .through trips →
      (tt.node (graph.edge step.edge).tail).stationIndex =
        (tt.node (graph.edge step.edge).head).stationIndex)
    (htail : (graph.edge step.edge).tail = label.node)
    (hhead : (graph.edge step.edge).head = second.node)
    (hfoot : second.OnFoot → (graph.edge step.edge).kind = .exit ∨
      (graph.edge step.edge).kind.isWalk = true ∧ label.OnFoot)
    (htake : d.take graph direction step = .ok d') : d'.Reaches tt second := by
  subst htt
  unfold Edge.Fits at hfits
  cases hk : (graph.edge step.edge).kind with
  | enter =>
    rw [take_enter direction step hk] at htake
    cases htake
    rw [hk] at hfits hfoot
    refine ⟨?_, fun hf => ?_⟩
    · rw [← hhead, ← stopAt_of_atOne hfits, htail]
      exact h.station_eq
    · rcases hfoot hf with hexit | ⟨hwalk, -⟩
      · cases hexit
      · cases hwalk
  | exit =>
    rw [take_exit direction step hk] at htake
    obtain ⟨ride, -, rfl⟩ := leave_eq_ok htake
    rw [hk] at hfits
    refine ⟨?_, fun _ => .exit _ (getElem?_stops_position _) rfl⟩
    rw [← hhead, stopAt_of_atOne hfits, htail]
    exact h.station_eq
  | through trips =>
    rw [take_through direction step hk] at htake
    cases htake
    rw [hk] at hfoot
    refine ⟨?_, fun hf => ?_⟩
    · rw [← hhead, ← stopAt_congr (hthrough trips hk), htail]
      exact h.station_eq
    · rcases hfoot hf with hexit | ⟨hwalk, -⟩
      · cases hexit
      · cases hwalk
  | route legs =>
    obtain ⟨used, event, -, -, rfl⟩ := take_route_eq_ok direction step hk htake
    rw [hk] at hfoot
    refine ⟨?_, fun hf => ?_⟩
    · rw [(d.rideTo_spec _ _ _).2, hhead]
    · rcases hfoot hf with hexit | ⟨hwalk, -⟩
      · cases hexit
      · cases hwalk
  | foot duration price =>
    rw [take_foot direction step hk] at htake
    cases htake
    exact h.walk nofun htail hhead
  | mumo ride =>
    rw [take_mumo direction step hk] at htake
    cases htake
    exact h.walk nofun htail hhead
  | hotel stay =>
    rw [take_hotel direction step hk] at htake
    cases htake
    rw [hk] at hfits hfoot
    refine ⟨?_, fun hf => ?_⟩
    · rw [← hhead, hfits.2.1, htail]
      exact h.station_eq
    · rcases hfoot hf with hexit | ⟨-, hlabel⟩
      · cases hexit
      · exact (d.sleep_extends step stay.price).offAt (h.offAt hlabel)

end Draft

section Takes

variable {graph : QueryGraph} {direction : Direction} {horizon : Nat} {label : Label}
  {ref : EdgeRef} {cost : EdgeCost}

/-- Someone on foot after an edge has got off a vehicle or walked. -/
theorem Takes.onFoot_after (ht : Takes graph direction horizon label ref cost)
    (hride : cost.ride = none) (hboarding : cost.boarding = false) :
    (graph.edge ref).kind = direction.egress ∨
      (graph.edge ref).kind.isWalk = true ∧ label.OnFoot := by
  cases ht with
  | access => cases hboarding
  | egress ride hkind => exact Or.inl hkind
  | stay | board | through => cases hride
  | foot duration price hkind hfoot => exact Or.inr ⟨congrArg EdgeKind.isWalk hkind, hfoot⟩
  | mumo ride time hkind hfoot => exact Or.inr ⟨congrArg EdgeKind.isWalk hkind, hfoot⟩
  | hotel stay hkind hfoot => exact Or.inr ⟨congrArg EdgeKind.isWalk hkind, hfoot⟩

/-- Someone on foot before an edge goes to a vehicle or walks. -/
theorem Takes.of_onFoot (ht : Takes graph direction horizon label ref cost)
    (hfoot : label.OnFoot) :
    (graph.edge ref).kind = direction.access ∨
      (graph.edge ref).kind.isWalk = true ∧ cost.ride = none ∧ cost.boarding = false := by
  cases ht with
  | access hkind => exact Or.inl hkind
  | egress ride hkind hride => exact absurd hfoot (Label.not_onFoot hride)
  | stay id legs ride event hid hkind hride => exact absurd hfoot (Label.not_onFoot hride)
  | through trips ride trip hkind hride => exact absurd hfoot (Label.not_onFoot hride)
  | board id legs event hid hkind hride hboarding =>
    rw [hfoot.2] at hboarding
    cases hboarding
  | foot duration price hkind => exact Or.inr ⟨congrArg EdgeKind.isWalk hkind, rfl, rfl⟩
  | mumo ride time hkind => exact Or.inr ⟨congrArg EdgeKind.isWalk hkind, rfl, rfl⟩
  | hotel stay hkind => exact Or.inr ⟨congrArg EdgeKind.isWalk hkind, rfl, rfl⟩

end Takes

/-! ## Trails -/

section Trail

variable {q : Query} {settings : Settings} {measures : List Measure} {label : Label}
  {before : List Label} {id : LabelId} {ref : EdgeRef} {cost : EdgeCost} {now : Time}
  {d d' : Draft}

/-- A through edge of a query lies within one station. -/
theorem QueryGraph.Sound.stationIndex_of_through {graph : QueryGraph} (h : graph.Sound)
    (hthrough : graph.timetable.ThroughAtOne) {node : NodeId} {direction : Direction}
    (href : ref ∈ graph.edgesAt node direction) {trips : List (Option Nat)}
    (hkind : (graph.edge ref).kind = .through trips) :
    (graph.timetable.node (graph.edge ref).tail).stationIndex =
      (graph.timetable.node (graph.edge ref).head).stationIndex :=
  hthrough _ (h.through_mem href hkind).1 trips hkind

theorem Draft.Reaches.take_forward (hq : q.graph.Sound) (hthrough : q.graph.timetable.ThroughAtOne)
    (step : Step) (href : step.edge ∈ q.graph.edgesAt label.node .forward)
    (ht : Takes q.graph .forward settings.maxMinutes label step.edge cost)
    (hd : q.direction = .forward) (h : d.Reaches q.graph.timetable label)
    (htake : d.take q.graph .forward step = .ok d') :
    d'.Reaches q.graph.timetable (q.after id label step.edge cost now) := by
  obtain ⟨hfits, hsource⟩ := hq.fits href
  refine h.take rfl hfits (fun trips => hq.stationIndex_of_through hthrough href) hsource ?_
    (fun hf => ht.onFoot_after hf.1 hf.2) htake
  show _ = q.graph.target step.edge q.direction
  rw [hd]
  rfl

theorem Draft.Reaches.take_backward (hq : q.graph.Sound)
    (hthrough : q.graph.timetable.ThroughAtOne) (step : Step)
    (href : step.edge ∈ q.graph.edgesAt label.node .backward)
    (ht : Takes q.graph .backward settings.maxMinutes label step.edge cost)
    (hd : q.direction = .backward)
    (h : d.Reaches q.graph.timetable (q.after id label step.edge cost now))
    (htake : d.take q.graph .backward step = .ok d') :
    d'.Reaches q.graph.timetable label := by
  obtain ⟨hfits, hsource⟩ := hq.fits href
  refine h.take rfl hfits (fun trips => hq.stationIndex_of_through hthrough href) ?_ hsource
    (fun hf => ht.of_onFoot hf) htake
  show _ = q.graph.target step.edge q.direction
  rw [hd]
  rfl

/-- Only someone on foot passes stations. -/
theorem Label.Placed.onFoot_of_passes (h : label.Placed q.graph.timetable.nodes)
    (hvias : ∀ via ∈ q.target.vias, Node.IsStation q.graph.timetable.nodes via)
    {passed count : Nat} {rest : List NodeId}
    (hdrop : q.target.vias.drop passed = List.replicate count label.node ++ rest)
    (hpos : 0 < count) : label.OnFoot := by
  by_contra hnot
  have hmem : label.node ∈ q.target.vias.drop passed := by
    rw [hdrop]
    exact List.mem_append_left _ (List.mem_replicate.2 ⟨Nat.ne_of_gt hpos, rfl⟩)
  exact absurd (h.stop hnot) (hvias _ (List.mem_of_mem_drop hmem)).not_isStop

variable (hq : q.Sound) (hthrough : q.graph.timetable.ThroughAtOne)
  (hvias : ∀ via ∈ q.target.vias, Node.IsStation q.graph.timetable.nodes via)

include hq hthrough hvias

/-- Going forward, the draft of a trail has met the stations that its label has passed. -/
theorem Trail.visits_forward (hd : q.direction = .forward)
    (h : Trail q settings measures (label :: before)) :
    ∀ d, (stepsBack .forward (label :: before)).reverse.foldlM (Draft.take q.graph .forward)
      (Draft.start q.graph.timetable q.target.origin) = .ok d →
    d.Reaches q.graph.timetable label ∧ d.Visits q.graph.timetable
      (q.target.origin :: q.target.vias.take label.progress) := by
  refine Trail.along (P := fun label before => ∀ d,
    (stepsBack .forward (label :: before)).reverse.foldlM (Draft.take q.graph .forward)
      (Draft.start q.graph.timetable q.target.origin) = .ok d →
    d.Reaches q.graph.timetable label ∧ d.Visits q.graph.timetable
      (q.target.origin :: q.target.vias.take label.progress)) ?_ ?_ h
  · intro time htime d hfold
    cases hfold
    have hreaches : (Draft.start q.graph.timetable q.target.origin).Reaches q.graph.timetable
        (Run.startLabel q measures time) := Draft.Reaches.start
    have hstands := hreaches.stands ⟨rfl, rfl⟩
    obtain ⟨count, hcount, hdrop, -⟩ := q.target.drop_eq q.target.origin 0
    refine ⟨hreaches, ?_⟩
    have hprogress : (Run.startLabel q measures time).progress = 0 + count := hcount
    rw [hprogress, Target.take_eq _ _ _ hdrop]
    have hnone : (Draft.start q.graph.timetable q.target.origin).Visits q.graph.timetable [] :=
      ⟨[], .nil, fun place hp => absurd hp List.not_mem_nil, .nil⟩
    exact (hnone.stand 1 fun _ => hstands).stand count fun _ => hstands
  · intro id ref label before cost now trail href ht hnow hin ih d hfold
    obtain ⟨d₁, hfold₁, htake⟩ := Draft.foldlM_forward rfl hfold
    obtain ⟨hreaches₁, hvisits₁⟩ := ih d₁ hfold₁
    have hplaced : (q.after id label ref cost now).Placed q.graph.timetable.nodes :=
      Query.after_placed hq.graph (trail.placed hq) href ht
    rw [hd] at href ht
    have hreaches : d.Reaches q.graph.timetable (q.after id label ref cost now) :=
      Draft.Reaches.take_forward hq.graph hthrough (label.stepTo .forward _ ref) href ht hd
        hreaches₁ htake
    obtain ⟨count, hcount, hdrop, -⟩ :=
      q.target.drop_eq (q.after id label ref cost now).node label.progress
    refine ⟨hreaches, ?_⟩
    have hprogress : (q.after id label ref cost now).progress = label.progress + count := hcount
    rw [hprogress, Target.take_eq _ _ _ hdrop]
    exact ((Draft.take_extends htake).visits hvisits₁).stand count fun hpos =>
      hreaches.stands (hplaced.onFoot_of_passes hvias hdrop hpos)

/-- Going backward, the draft of a trail is written from its latest label on. It then meets
the stations that the label has passed, those that came first in the search last. -/
theorem Trail.visits_backward (hd : q.direction = .backward)
    (h : Trail q settings measures (label :: before)) :
    ∀ d d', d.Reaches q.graph.timetable label →
      d.Visits q.graph.timetable
        (q.target.goal :: (q.target.vias.drop label.progress).reverse) →
      (stepsBack .backward (label :: before)).foldlM (Draft.take q.graph .backward) d = .ok d' →
      d'.Visits q.graph.timetable (q.target.goal :: q.target.vias.reverse ++ [q.target.origin]) ∧
        d'.here.station = (Draft.stopAt q.graph.timetable q.target.origin).station := by
  refine Trail.along (P := fun label before => ∀ d d', d.Reaches q.graph.timetable label →
      d.Visits q.graph.timetable
        (q.target.goal :: (q.target.vias.drop label.progress).reverse) →
      (stepsBack .backward (label :: before)).foldlM (Draft.take q.graph .backward) d = .ok d' →
      d'.Visits q.graph.timetable (q.target.goal :: q.target.vias.reverse ++ [q.target.origin]) ∧
        d'.here.station = (Draft.stopAt q.graph.timetable q.target.origin).station) ?_ ?_ h
  · intro time htime d d' hreaches hvisits hfold
    cases hfold
    have hstands : d.Stands q.graph.timetable q.target.origin d.position :=
      hreaches.stands ⟨rfl, rfl⟩
    obtain ⟨count, hcount, hdrop, -⟩ := q.target.drop_eq q.target.origin 0
    have hprogress : (Run.startLabel q measures time).progress = 0 + count := hcount
    have hall : q.target.vias.reverse = (q.target.vias.drop (0 + count)).reverse ++
        List.replicate count q.target.origin := by
      rw [← List.reverse_replicate, ← List.reverse_append, ← hdrop, List.drop_zero]
    rw [hprogress] at hvisits
    refine ⟨?_, hreaches.station_eq⟩
    rw [hall, ← List.cons_append]
    exact (hvisits.stand count fun _ => hstands).stand 1 fun _ => hstands
  · intro id ref label before cost now trail href ht hnow hin ih d d' hreaches hvisits hfold
    obtain ⟨d₁, htake, hfold⟩ := Draft.foldlM_backward rfl hfold
    have hplaced : (q.after id label ref cost now).Placed q.graph.timetable.nodes :=
      Query.after_placed hq.graph (trail.placed hq) href ht
    rw [hd] at href ht
    have hreaches₁ : d₁.Reaches q.graph.timetable label :=
      Draft.Reaches.take_backward hq.graph hthrough (label.stepTo .backward _ ref) href ht hd
        hreaches htake
    obtain ⟨count, hcount, hdrop, -⟩ :=
      q.target.drop_eq (q.after id label ref cost now).node label.progress
    have hprogress : (q.after id label ref cost now).progress = label.progress + count := hcount
    rw [hprogress] at hvisits
    refine ih d₁ d' hreaches₁ ?_ hfold
    rw [hdrop, List.reverse_append, List.reverse_replicate, ← List.cons_append]
    exact (Draft.take_extends htake).visits (hvisits.stand count fun hpos =>
      hreaches.stands (hplaced.onFoot_of_passes hvias hdrop hpos))

/-- The draft of a trail to the goal meets the whole path, from its first stop to its last. -/
theorem Trail.visits (h : Trail q settings measures (label :: before))
    (hgoal : q.target.isGoal label = true)
    (hfold : (travelSteps q.direction (label :: before)).foldlM (Draft.take q.graph q.direction)
      (Draft.start q.graph.timetable (q.setsOutAt label)) = .ok d) :
    d.Visits q.graph.timetable (q.target.travelPath q.direction) ∧
      d.stops.head?.map Stop.station = (q.target.travelPath q.direction).head?.map
        (fun node => (Draft.stopAt q.graph.timetable node).station) ∧
      d.stops.getLast?.map Stop.station = (q.target.travelPath q.direction).getLast?.map
        fun node => (Draft.stopAt q.graph.timetable node).station := by
  have hfoot := h.onFoot_of_isGoal hq hgoal
  unfold Target.isGoal at hgoal
  rw [Bool.and_eq_true, beq_iff_eq, beq_iff_eq] at hgoal
  obtain ⟨hnode, hprogress⟩ := hgoal
  have hfirst : d.stops.head?.map Stop.station =
      some (Draft.stopAt q.graph.timetable (q.setsOutAt label)).station := by
    obtain ⟨stop, hstop, hkeeps⟩ := (Draft.foldlM_extends hfold).stop 0 _ rfl
    rw [List.head?_eq_getElem?, hstop]
    exact congrArg some hkeeps.station_eq
  have hlast : d.stops.getLast? = some d.here := by
    rw [Draft.stops_eq, List.getLast?_concat]
  rw [hfirst, hlast]
  unfold Query.setsOutAt Target.travelPath travelSteps at *
  cases hd : q.direction with
  | forward =>
    rw [hd] at hfold
    obtain ⟨hreaches, hvisits⟩ := h.visits_forward hq hthrough hvias hd d hfold
    rw [hprogress, List.take_length] at hvisits
    refine ⟨?_, rfl, ?_⟩
    · have hstands := hreaches.stands hfoot
      rw [hnode] at hstands
      exact hvisits.stand 1 fun _ => hstands
    · dsimp only
      rw [List.getLast?_concat, ← hnode]
      exact congrArg some hreaches.station_eq
  | backward =>
    rw [hd] at hfold
    have hreaches : (Draft.start q.graph.timetable label.node).Reaches q.graph.timetable label :=
      ⟨rfl, fun _ => .start rfl⟩
    have hstands : ∀ node, label.node = node →
        (Draft.start q.graph.timetable label.node).Stands q.graph.timetable node 0 := by
      rintro _ rfl
      exact hreaches.stands hfoot
    have hnone : (Draft.start q.graph.timetable label.node).Visits q.graph.timetable [] :=
      ⟨[], .nil, fun place hp => absurd hp List.not_mem_nil, .nil⟩
    have hgoals := hnone.stand 1 fun _ => hstands _ hnode
    obtain ⟨hvisits, hstation⟩ := h.visits_backward hq hthrough hvias hd
      (Draft.start q.graph.timetable label.node) d hreaches
      (by rw [hprogress, List.drop_length]; exact hgoals) hfold
    refine ⟨hvisits, ?_, ?_⟩
    · dsimp only
      rw [hnode]
      rfl
    · dsimp only
      rw [List.getLast?_concat]
      exact congrArg some hstation

end Trail

end JourneyPlanner
