import JourneyPlanner.Proofs.Itinerary.Stops
import JourneyPlanner.Proofs.Search.Survey

/-!
# What a journey shows of its labels

A journey is written out from labels that know their edges by number. Nothing of such a
number is left in the journey: labels of which the same is seen in two graphs over one
timetable come to the same journey (`Journey.ofChain_alike`).

A night that is written down has been taken on the way, and the label at the end of a way
tells whether there is one (`Trail.edge_of_mem_stepsBack`). So no journey to a label
without a night holds one (`Trail.awake`).
-/

namespace JourneyPlanner

/-! ## Labels of which the same is seen -/

/-- The same is seen of two labels, each in its graph. -/
def Label.Alike (graph graph' : QueryGraph) (label label' : Label) : Prop :=
  label.sight graph = label'.sight graph'

/-- Steps over the same edge at the same times, each in its graph. -/
structure Step.Alike (graph graph' : QueryGraph) (step step' : Step) : Prop where
  edge_eq : graph.edge step.edge = graph'.edge step'.edge
  connection_eq : step.connection = step'.connection
  atTail_eq : step.atTail = step'.atTail
  atHead_eq : step.atHead = step'.atHead

section Alike

variable {graph graph' : QueryGraph} (direction : Direction) {labels labels' : List Label}

/-- What is seen of a label beside its references does not depend on the graph. -/
theorem Label.Alike.eq {α : Type} {label label' : Label} (h : label.Alike graph graph' label')
    (view : Label → α) : view { label with edge := none, pred := none } =
      view { label' with edge := none, pred := none } :=
  congrArg (fun sight => view sight.label) h

/-- Steps over alike labels are alike if their edges are. -/
theorem Label.Alike.stepTo {older older' newer newer' : Label}
    (holder : older.Alike graph graph' older') (hnewer : newer.Alike graph graph' newer')
    {ref ref' : EdgeRef} (hedge : graph.edge ref = graph'.edge ref') :
    Step.Alike graph graph' (older.stepTo direction newer ref)
      (older'.stepTo direction newer' ref') := by
  have hthen := holder.eq Label.now
  have hnow := hnewer.eq Label.now
  have hconnection := hnewer.eq Label.connection
  cases direction with
  | forward => exact ⟨hedge, hconnection, hthen, hnow⟩
  | backward => exact ⟨hedge, hconnection, hnow, hthen⟩

theorem stepsBack_alike (h : List.Forall₂ (Label.Alike graph graph') labels labels') :
    List.Forall₂ (Step.Alike graph graph') (stepsBack direction labels)
      (stepsBack direction labels') := by
  induction h with
  | nil => exact .nil
  | @cons newer newer' before before' hnewer hbefore ih =>
    cases hbefore with
    | nil => exact .nil
    | cons holder hbefore =>
      unfold stepsBack
      refine List.rel_append ?_ ih
      have hedge : newer.edge.map graph.edge = newer'.edge.map graph'.edge :=
        congrArg Sight.edge hnewer
      cases hn : newer.edge with
      | none =>
        cases hn' : newer'.edge with
        | none => exact .nil
        | some ref' =>
          rw [hn, hn'] at hedge
          cases hedge
      | some ref =>
        cases hn' : newer'.edge with
        | none =>
          rw [hn, hn'] at hedge
          cases hedge
        | some ref' =>
          rw [hn, hn'] at hedge
          exact .cons (holder.stepTo direction hnewer (Option.some.inj hedge)) .nil

theorem travelSteps_alike (h : List.Forall₂ (Label.Alike graph graph') labels labels') :
    List.Forall₂ (Step.Alike graph graph') (travelSteps direction labels)
      (travelSteps direction labels') := by
  cases direction with
  | forward => exact List.rel_reverse (stepsBack_alike .forward h)
  | backward => exact stepsBack_alike .backward h

theorem inTravelOrder_alike (h : List.Forall₂ (Label.Alike graph graph') labels labels') :
    List.Forall₂ (Label.Alike graph graph') (Journey.inTravelOrder labels direction)
      (Journey.inTravelOrder labels' direction) := by
  cases direction with
  | forward => exact List.rel_reverse h
  | backward => exact h

variable {direction} (htt : graph.timetable = graph'.timetable)

include htt

/-- A step leads to the same, whatever number its edge has. -/
theorem Draft.take_alike {step step' : Step} (h : Step.Alike graph graph' step step')
    (d : Draft) : d.take graph direction step = d.take graph' direction step' := by
  obtain ⟨ref, connection, atTail, atHead⟩ := step
  obtain ⟨ref', connection', atTail', atHead'⟩ := step'
  obtain ⟨hedge, rfl, rfl, rfl⟩ := h
  dsimp only at hedge
  unfold Draft.take
  dsimp only
  rw [hedge, htt]
  cases (graph'.edge ref').kind <;> rfl

/-- Alike steps are written out alike. -/
theorem Draft.foldlM_take_alike {steps steps' : List Step}
    (h : List.Forall₂ (Step.Alike graph graph') steps steps') (d : Draft) :
    steps.foldlM (Draft.take graph direction) d =
      steps'.foldlM (Draft.take graph' direction) d := by
  induction h generalizing d with
  | nil => rfl
  | cons hstep _ ih =>
    rw [List.foldlM_cons, List.foldlM_cons, Draft.take_alike htt hstep]
    exact congrArg _ (funext ih)

/-- Labels of which the same is seen come to the same journey. -/
theorem Journey.ofChain_alike (h : List.Forall₂ (Label.Alike graph graph') labels labels')
    {journey journey' : Journey}
    (hj : Journey.ofChain graph direction labels = .ok journey)
    (hj' : Journey.ofChain graph' direction labels' = .ok journey') : journey = journey' := by
  have horder := inTravelOrder_alike direction h
  unfold Journey.ofChain at hj hj'
  split at hj
  · next result before first rest hfirst =>
    split at hj'
    · next result' before' first' rest' hfirst' =>
      obtain ⟨steps, hsteps, hj⟩ := Fallible.bind_eq_ok.1 hj
      obtain ⟨draft, hdraft, hj⟩ := Fallible.bind_eq_ok.1 hj
      obtain ⟨steps', hsteps', hj'⟩ := Fallible.bind_eq_ok.1 hj'
      obtain ⟨draft', hdraft', hj'⟩ := Fallible.bind_eq_ok.1 hj'
      have hsame := travelSteps_alike direction h
      rw [← hfirst] at hsteps
      rw [← hfirst'] at hsteps'
      rw [← steps_eq hsteps, ← steps_eq hsteps'] at hsame
      rw [hfirst, hfirst'] at horder
      cases horder with
      | cons hstart _ =>
        have hnode : first.node = first'.node := hstart.eq Label.node
        rw [Draft.foldlM_take_alike htt hsame, htt, hnode, hdraft'] at hdraft
        cases hdraft
        cases h with
        | cons hresult _ =>
          have htravel : result.travelTime = result'.travelTime := hresult.eq Label.travelTime
          rw [htravel, hj'] at hj
          cases hj
          rfl
    · cases hj'
  · cases hj

end Alike

/-! ## Journeys without a night -/

namespace Draft

/-- No night has been written down. -/
def Awake (d : Draft) : Prop := ∀ t ∈ d.transports, ∀ minutes, t.move ≠ .walk .hotel minutes

variable {d d' : Draft}

theorem Awake.add (h : d.Awake) {t : Transport} (ht : ∀ minutes, t.move ≠ .walk .hotel minutes)
    (htransports : d'.transports = t :: d.transports) : d'.Awake := by
  intro other hother
  rw [htransports] at hother
  rcases List.mem_cons.1 hother with rfl | hother
  · exact ht
  · exact h other hother

theorem Awake.writeRide (h : d.Awake) (tt : Timetable) (ride : OpenRide) :
    (d.writeRide tt ride).Awake :=
  h.add (fun _ heq => Move.noConfusion heq) rfl

theorem Awake.rideTo (h : d.Awake) (tt : Timetable) (event : Event) (node : NodeId) :
    (d.rideTo tt event node).Awake := by
  unfold Draft.rideTo
  extract_lets leg d₁
  show d₁.Awake
  unfold d₁
  split
  · split
    · exact h
    · exact h.writeRide tt _
  · exact h

theorem Awake.walk (h : d.Awake) (tt : Timetable) (direction : Direction) (step : Step)
    (edge : Edge) (duration price : Nat) {kind : WalkKind} (hkind : kind ≠ .hotel) :
    (d.walk tt direction step edge duration price kind).Awake := by
  have hmove : ∀ minutes, Move.walk kind duration ≠ .walk .hotel minutes :=
    fun minutes heq => hkind (Move.walk.inj heq).1
  unfold Draft.walk
  dsimp only
  split
  · exact h.add hmove rfl
  · exact h.add hmove rfl

/-- A step over an edge that is no night writes none down. -/
theorem Awake.take {graph : QueryGraph} {direction : Direction} {step : Step} (h : d.Awake)
    (hday : (graph.edge step.edge).kind.isHotel = false)
    (htake : d.take graph direction step = .ok d') : d'.Awake := by
  cases hkind : (graph.edge step.edge).kind with
  | enter =>
    rw [take_enter direction step hkind] at htake
    cases htake
    exact h
  | exit =>
    rw [take_exit direction step hkind] at htake
    obtain ⟨ride, -, rfl⟩ := leave_eq_ok htake
    exact h.writeRide graph.timetable ride
  | through trips =>
    rw [take_through direction step hkind] at htake
    cases htake
    exact h
  | route legs =>
    obtain ⟨used, event, -, -, rfl⟩ := take_route_eq_ok direction step hkind htake
    exact h.rideTo graph.timetable event _
  | foot duration price =>
    rw [take_foot direction step hkind] at htake
    cases htake
    exact h.walk graph.timetable direction step _ _ _ (fun heq => WalkKind.noConfusion heq)
  | mumo ride =>
    rw [take_mumo direction step hkind] at htake
    cases htake
    exact h.walk graph.timetable direction step _ _ _ (fun heq => WalkKind.noConfusion heq)
  | hotel stay =>
    rw [hkind] at hday
    cases hday

end Draft

section Trail

variable {q : Query} {settings : Settings} {measures : List Measure} {label : Label}
  {before : List Label}

/-- If no night lies on the way of a label, none of its steps is one. -/
theorem Trail.edge_of_mem_stepsBack (h : Trail q settings measures (label :: before))
    (hday : label.hotel = false) : ∀ step ∈ stepsBack q.direction (label :: before),
      (q.graph.edge step.edge).kind.isHotel = false := by
  refine Trail.along (P := fun label before => label.hotel = false →
    ∀ step ∈ stepsBack q.direction (label :: before),
      (q.graph.edge step.edge).kind.isHotel = false) ?_ ?_ h hday
  · intro time htime hday step hstep
    cases hstep
  · intro id ref label before cost now trail href ht hnow hin ih hday step hstep
    rw [Label.hotel_after, Bool.or_eq_false_iff] at hday
    unfold stepsBack at hstep
    rcases List.mem_append.1 hstep with hlast | hearlier
    · obtain rfl := List.mem_singleton.1 hlast
      have hedge : (label.stepTo q.direction (q.after id label ref cost now) ref).edge = ref := by
        cases q.direction <;> rfl
      rw [hedge, ← ht.hotel_eq]
      exact hday.2
    · exact ih hday.1 step hearlier

/-- If no night lies on the way of a label, its journey has none. -/
theorem Trail.awake (h : Trail q settings measures (label :: before)) (hday : label.hotel = false)
    {journey : Journey}
    (hj : Journey.ofChain q.graph q.direction (label :: before) = .ok journey) :
    ∀ t ∈ journey.transports, ∀ minutes, t.move ≠ .walk .hotel minutes := by
  obtain ⟨result, rest, steps, draft, first, -, hsteps, hfold, hfinish⟩ := ofChain_eq_ok hj
  obtain ⟨-, htransports⟩ := Draft.finish_parts hfinish
  have hedges : ∀ step ∈ steps, (q.graph.edge step.edge).kind.isHotel = false := by
    intro step hstep
    rw [steps_eq hsteps] at hstep
    refine h.edge_of_mem_stepsBack hday step ?_
    unfold travelSteps at hstep
    cases hd : q.direction with
    | forward =>
      rw [hd] at hstep
      exact List.mem_reverse.1 hstep
    | backward =>
      rw [hd] at hstep
      exact hstep
  have hawake : draft.Awake := Fallible.foldlM_keeps
    (fun d step d' hstep hd htake => Draft.Awake.take hd (hedges step hstep) htake)
    (fun t ht => absurd ht List.not_mem_nil) hfold
  intro t ht
  rw [htransports] at ht
  exact hawake t (List.mem_reverse.1 ht)

end Trail

end JourneyPlanner
