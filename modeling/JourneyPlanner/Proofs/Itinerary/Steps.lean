import JourneyPlanner.Itinerary.Draft
import JourneyPlanner.Proofs.Search.Frontier

/-!
# From labels to steps

A journey is written out from the labels that lead back from a result, put into
the order of travel. Here the two orders are brought together:

> `Frontier.Sound.chain`: the labels that lead back from a settled slot are a
> trail.
> `steps_eq`: the steps of a journey are those of its trail, in the order of
> travel.
> `numbers_of_ofChain`: the numbers of the journey are those that its trail has
> spent, however the steps are ordered.

The last is what makes the front of the labels one of journeys too. Written out,
a change of vehicle is one more enter edge in the order of travel; for a search
backward that is an edge by which a vehicle was left, and the two counts agree
only where no vehicle is left open, as at the goal.
-/

namespace JourneyPlanner

/-! ## The way back from a slot -/

namespace Frontier

variable {q : Query} {settings : Settings} {measures : List Measure} {f : Frontier}
  {order held : List LabelId} {id : LabelId} {label : Label} {links : List (LabelId × Label)}

/-- With turns enough the way back from a slot is all its links. -/
theorem Links.chainWithin {pool : Pool Label} {start : Option LabelId}
    (h : Links pool start links) {turns : Nat} (hlen : links.length ≤ turns) :
    Frontier.chainWithin pool turns start = links := by
  induction h generalizing turns with
  | nil => cases turns <;> rfl
  | cons hget rest ih =>
    cases turns with
    | zero => simp at hlen
    | succ turns =>
      unfold Frontier.chainWithin
      rw [hget]
      exact congrArg _ (ih (by simpa using hlen))

/-- Whatever its place, the labels that lead back from a slot are those of its trail. -/
theorem Sound.chain_eq (h : Sound q settings measures f order held)
    (hid : id ∈ order ++ (held ++ f.queued))
    (ht : Traced q settings measures f.pool order id label links) :
    f.chain id = (id, label) :: links := by
  refine ht.linked.chainWithin ?_
  have hlive := h.live_eq
  show links.length + 1 ≤ f.pool.live
  rcases List.mem_append.1 hid with hin | hin
  · obtain ⟨label', links', ht', hsub⟩ := h.passed id hin
    cases ht.linked.eq ht'.linked
    have hlen := hsub.length_le
    rw [List.length_cons, List.length_map] at hlen
    omega
  · have hlen := ht.sublist.length_le
    have hpos := List.length_pos_of_mem hin
    rw [List.length_map] at hlen
    rw [List.length_append] at hpos
    omega

/-- From a settled slot all labels lead back to a start, over settled slots. -/
theorem Sound.linked (h : Sound q settings measures f order []) (hid : id ∈ order) :
    Links f.pool (some id) (f.chain id) ∧ ((f.chain id).map (·.1)).Sublist order := by
  obtain ⟨label, links, ht, hsub⟩ := h.passed id hid
  rw [h.chain_eq (List.mem_append_left _ hid) ht]
  exact ⟨ht.linked, hsub⟩

/-- The labels that lead back from a settled slot are a trail. -/
theorem Sound.chain (h : Sound q settings measures f order []) (hid : id ∈ order) :
    ∃ label links, f.pool.get? id = some label ∧ f.chain id = (id, label) :: links ∧
      Trail q settings measures (label :: links.map (·.2)) := by
  obtain ⟨label, links, ht, -⟩ := h.passed id hid
  exact ⟨label, links, ht.get?, (h.linked hid).1.eq ht.linked, ht.trail⟩

end Frontier

/-! ## The steps of a trail -/

/-- The step from a label to the next, in the order of travel. -/
def Label.stepTo (direction : Direction) (older newer : Label) (edge : EdgeRef) : Step :=
  match direction with
  | .forward =>
    { edge, connection := newer.connection, atTail := older.now, atHead := newer.now }
  | .backward =>
    { edge, connection := newer.connection, atTail := newer.now, atHead := older.now }

/-- The steps between labels, both the latest first. -/
def stepsBack (direction : Direction) : List Label → List Step
  | newer :: older :: before =>
    (newer.edge.map (older.stepTo direction newer)).toList ++ stepsBack direction (older :: before)
  | _ => []

/-- The steps between labels in the order of travel, the labels the latest
first. -/
def travelSteps (direction : Direction) (labels : List Label) : List Step :=
  match direction with
  | .forward => (stepsBack .forward labels).reverse
  | .backward => stepsBack .backward labels

/-- The pairs of neighbours of a longer list are those of the list and its new end. -/
theorem zip_tail_concat {α : Type} (l : List α) (a b : α) :
    (l ++ [a] ++ [b]).zip (l ++ [a] ++ [b]).tail = (l ++ [a]).zip (l ++ [a]).tail ++ [(a, b)] := by
  induction l with
  | nil => rfl
  | cons x l ih =>
    cases l with
    | nil => rfl
    | cons y l =>
      simp only [List.cons_append, List.tail_cons, List.zip_cons_cons] at ih ⊢
      rw [ih]

/-- Between two labels there is one step, the one that the newer was reached by. -/
theorem stepBetween_eq_ok (direction : Direction) {older newer : Label} {step : Step}
    (h : match direction with
      | .forward => Journey.stepBetween .forward older newer = .ok step
      | .backward => Journey.stepBetween .backward newer older = .ok step) :
    (newer.edge.map (older.stepTo direction newer)).toList = [step] := by
  cases direction <;> dsimp only at h <;> unfold Journey.stepBetween at h <;> dsimp only at h
  · split at h
    · cases h
    · next edge hedge =>
      cases h
      rw [hedge]
      rfl
  · split at h
    · cases h
    · next edge hedge =>
      cases h
      rw [hedge]
      rfl

/-- The steps of a journey are those of its labels. -/
theorem steps_eq {direction : Direction} {labels : List Label} {steps : List Step}
    (h : Journey.steps direction (Journey.inTravelOrder labels direction) = .ok steps) :
    steps = travelSteps direction labels := by
  cases direction with
  | forward =>
    -- the labels are turned round before they are paired, so the latest pair is the last
    unfold Journey.steps Journey.inTravelOrder at h
    unfold travelSteps
    dsimp only at h ⊢
    induction labels generalizing steps with
    | nil =>
      cases h
      rfl
    | cons newer labels ih =>
      cases labels with
      | nil =>
        cases h
        rfl
      | cons older before =>
        rw [List.reverse_cons, List.reverse_cons, zip_tail_concat, List.mapM_append] at h
        obtain ⟨first, hfirst, h⟩ := Fallible.bind_eq_ok.1 h
        obtain ⟨last, hlast, h⟩ := Fallible.bind_eq_ok.1 h
        cases h
        rw [← List.reverse_cons] at hfirst
        rw [List.mapM_cons] at hlast
        obtain ⟨step, hstep, hlast⟩ := Fallible.bind_eq_ok.1 hlast
        cases hlast
        rw [ih hfirst, stepsBack, stepBetween_eq_ok .forward hstep,
          List.reverse_append]
        rfl
  | backward =>
    unfold Journey.steps Journey.inTravelOrder at h
    unfold travelSteps
    dsimp only at h ⊢
    induction labels generalizing steps with
    | nil =>
      cases h
      rfl
    | cons newer labels ih =>
      cases labels with
      | nil =>
        cases h
        rfl
      | cons older before =>
        rw [List.tail_cons, List.zip_cons_cons, List.mapM_cons] at h
        obtain ⟨step, hstep, h⟩ := Fallible.bind_eq_ok.1 h
        obtain ⟨rest, hrest, h⟩ := Fallible.bind_eq_ok.1 h
        cases h
        rw [stepsBack, stepBetween_eq_ok .backward hstep, ← ih hrest]
        rfl

/-! ## Writing out -/

namespace Draft

section Take

variable {graph : QueryGraph} {d : Draft} (direction : Direction) (step : Step)

/-- The step over an enter edge boards. -/
theorem take_enter (hkind : (graph.edge step.edge).kind = .enter) :
    d.take graph direction step = .ok d.board := by
  unfold Draft.take
  dsimp only
  rw [hkind]

/-- The step over an exit edge leaves the vehicle. -/
theorem take_exit (hkind : (graph.edge step.edge).kind = .exit) :
    d.take graph direction step = d.leave graph.timetable := by
  unfold Draft.take
  dsimp only
  rw [hkind]

/-- The step over a through edge is written nowhere. -/
theorem take_through {trips : List (Option Nat)}
    (hkind : (graph.edge step.edge).kind = .through trips) :
    d.take graph direction step = .ok d := by
  unfold Draft.take
  dsimp only
  rw [hkind]

/-- The step over a route edge rides the run that was used. -/
theorem take_route {legs : Array Leg} {used : UsedConnection} {event : Event}
    (hkind : (graph.edge step.edge).kind = .route legs) (hused : step.connection = some used)
    (hat : Event.at? legs used.trip used.day = some event) :
    d.take graph direction step =
      .ok (d.rideTo graph.timetable event (graph.edge step.edge).head) := by
  unfold Draft.take
  dsimp only
  rw [hkind]
  dsimp only
  rw [hused]
  dsimp only
  rw [hat]

/-- The step over a route edge is written out only for a run that there is. -/
theorem take_route_eq_ok {d' : Draft} {legs : Array Leg}
    (hkind : (graph.edge step.edge).kind = .route legs)
    (h : d.take graph direction step = .ok d') : ∃ used event, step.connection = some used ∧
      Event.at? legs used.trip used.day = some event ∧
      d' = d.rideTo graph.timetable event (graph.edge step.edge).head := by
  unfold Draft.take at h
  dsimp only at h
  rw [hkind] at h
  dsimp only at h
  split at h
  · cases h
  · next used hused =>
    split at h
    · cases h
    · next event hat =>
      cases h
      exact ⟨used, event, hused, hat, rfl⟩

/-- The step over a footpath walks it. -/
theorem take_foot {duration price : Nat}
    (hkind : (graph.edge step.edge).kind = .foot duration price) :
    d.take graph direction step = .ok (d.walk graph.timetable direction step
      (graph.edge step.edge) duration price .foot) := by
  unfold Draft.take
  dsimp only
  rw [hkind]

/-- The step over a mumo edge is written as a walk by that means. -/
theorem take_mumo {ride : Mumo} (hkind : (graph.edge step.edge).kind = .mumo ride) :
    d.take graph direction step = .ok (d.walk graph.timetable direction step
      (graph.edge step.edge) ride.duration ride.price (.mumo ride.id ride.name)) := by
  unfold Draft.take
  dsimp only
  rw [hkind]

/-- The step over a hotel edge sleeps there. -/
theorem take_hotel {stay : Hotel} (hkind : (graph.edge step.edge).kind = .hotel stay) :
    d.take graph direction step = .ok (d.sleep step stay.price) := by
  unfold Draft.take
  dsimp only
  rw [hkind]

end Take

/-- What a step costs. -/
def fareOf (graph : QueryGraph) (step : Step) : Nat := graph.fare step.edge step.connection

/-- Whether a step enters a vehicle. -/
def isEnter (graph : QueryGraph) (step : Step) : Bool :=
  match (graph.edge step.edge).kind with
  | .enter => true
  | _ => false

/-- A step adds its fare, and its boarding if it is one. -/
theorem take_numbers {graph : QueryGraph} {direction : Direction} {d d' : Draft} {step : Step}
    (h : d.take graph direction step = .ok d') :
    d'.price = d.price + fareOf graph step ∧
      d'.boardings = d.boardings + (isEnter graph step).toNat := by
  unfold Draft.take at h
  unfold fareOf isEnter QueryGraph.fare
  dsimp only at h
  split at h
  · next hk =>
    cases h
    rw [hk]
    exact ⟨rfl, rfl⟩
  · next hk =>
    rw [hk]
    unfold Draft.leave at h
    split at h
    · cases h
    · cases h
      exact ⟨rfl, rfl⟩
  · next hk =>
    cases h
    rw [hk]
    exact ⟨rfl, rfl⟩
  · next legs hk =>
    rw [hk]
    split at h
    · cases h
    · next used hused =>
      split at h
      · cases h
      · next event hevent =>
        cases h
        rw [hused]
        simp only [Option.bind_some, hevent]
        -- whether the ride goes on or a new section begins, the numbers are the same
        unfold Draft.rideTo
        cases d.ride with
        | none => exact ⟨rfl, rfl⟩
        | some ride =>
          dsimp only
          split <;> exact ⟨rfl, rfl⟩
  · next hk =>
    cases h
    rw [hk]
    unfold Draft.walk
    dsimp only
    split <;> exact ⟨rfl, rfl⟩
  · next hk =>
    cases h
    rw [hk]
    unfold Draft.walk
    dsimp only
    split <;> exact ⟨rfl, rfl⟩
  · next hk =>
    cases h
    rw [hk]
    exact ⟨rfl, rfl⟩

/-- Prices and boardings of the steps add up in the draft. -/
theorem foldlM_take_numbers {graph : QueryGraph} {direction : Direction} {steps : List Step}
    {d d' : Draft} (h : steps.foldlM (Draft.take graph direction) d = .ok d') :
    d'.price = d.price + (steps.map (fareOf graph)).sum ∧
      d'.boardings = d.boardings + steps.countP (isEnter graph) := by
  induction steps generalizing d with
  | nil =>
    cases h
    exact ⟨rfl, rfl⟩
  | cons step steps ih =>
    rw [List.foldlM_cons] at h
    obtain ⟨d₁, h₁, h⟩ := Fallible.bind_eq_ok.1 h
    obtain ⟨hp, hb⟩ := take_numbers h₁
    obtain ⟨hp', hb'⟩ := ih h
    rw [List.map_cons, List.sum_cons, List.countP_cons]
    refine ⟨by omega, ?_⟩
    cases he : isEnter graph step <;> rw [he] at hb <;> simp at hb ⊢ <;> omega

/-- A journey is finished with what its draft has come to, and not while a ride is under way. -/
theorem finish_eq_ok {d : Draft} {duration : Nat} {journey : Journey}
    (h : d.finish duration = .ok journey) : d.ride = none ∧ ∃ valid,
      journey = { stops := (d.here :: d.past).reverse, transports := d.transports.reverse,
                  attributes := d.attributes.reverse, duration, transfers := d.boardings - 1,
                  price := d.price, valid } := by
  unfold Draft.finish at h
  split at h
  · cases h
  · next hride =>
    refine ⟨hride, ?_⟩
    split at h
    · next j hj =>
      cases h
      unfold Journey.make at hj
      split at hj
      · next valid =>
        cases hj
        exact ⟨valid, rfl⟩
      · cases hj
    · cases h

/-- A journey has the numbers of its draft, and one transfer less than boardings. -/
theorem finish_numbers {d : Draft} {duration : Nat} {journey : Journey}
    (h : d.finish duration = .ok journey) :
    journey.duration = duration ∧ journey.transfers = d.boardings - 1 ∧
      journey.price = d.price := by
  obtain ⟨-, valid, rfl⟩ := finish_eq_ok h
  exact ⟨rfl, rfl, rfl⟩

end Draft

/-- A journey is written out from a chain by drafting its steps in the order of travel. -/
theorem ofChain_eq_ok {graph : QueryGraph} {direction : Direction} {labels : List Label}
    {journey : Journey} (h : Journey.ofChain graph direction labels = .ok journey) :
    ∃ result before steps draft first, labels = result :: before ∧
      Journey.steps direction (Journey.inTravelOrder labels direction) = .ok steps ∧
      steps.foldlM (Draft.take graph direction) (Draft.start graph.timetable first) = .ok draft ∧
      draft.finish result.travelTime = .ok journey := by
  unfold Journey.ofChain at h
  split at h
  · next result before first rest horder =>
    obtain ⟨steps, hsteps, h⟩ := Fallible.bind_eq_ok.1 h
    obtain ⟨draft, hdraft, h⟩ := Fallible.bind_eq_ok.1 h
    rw [← horder] at hsteps
    exact ⟨result, before, steps, draft, first.node, rfl, hsteps, hdraft, h⟩
  · cases h

/-! ## The numbers of a journey -/

section Numbers

variable {q : Query} {settings : Settings} {measures : List Measure}

/-- The fares of the steps are those of the labels, edge by edge. -/
theorem Trail.sum_fares {labels : List Label} (h : Trail q settings measures labels) :
    ((stepsBack q.direction labels).map (Draft.fareOf q.graph)).sum =
      (labels.map (Label.fare q.graph)).sum := by
  induction h with
  | start time htime hin => rfl
  | step id ref next label before trail hgoal href hnext hin ih =>
    obtain ⟨cost, now, ht, -, rfl⟩ := expandEdge_eq_some_iff.1 hnext
    have hstep : Draft.fareOf q.graph
        (label.stepTo q.direction (q.after id label ref cost now) ref) =
        (q.after id label ref cost now).fare q.graph := by
      cases q.direction <;> rfl
    rw [stepsBack, List.map_append, List.sum_append, ih, List.map_cons (l := label :: before),
      List.sum_cons, ← hstep]
    show (Draft.fareOf q.graph _ + 0) + _ = _
    rw [Nat.add_zero]

/-- Whether someone is on a vehicle or about to board. -/
def Label.aboard (label : Label) : Bool := label.ride.isSome || label.boarding

/-- The enter edges still to come for the vehicle that a label is on. Going
backward a vehicle is boarded before its enter edge is taken. -/
def Label.toEnter (direction : Direction) (label : Label) : Nat :=
  match direction with
  | .forward => 0
  | .backward => label.aboard.toNat

/-- The enter edges passed are as many as the vehicles boarded, but for one that is still to come.
-/
theorem Takes.enter_balance {direction : Direction} (id : LabelId) (now : Time) {label : Label}
    {ref : EdgeRef} {cost : EdgeCost}
    (ht : Takes q.graph direction settings.maxMinutes label ref cost) :
    (Draft.isEnter q.graph (label.stepTo direction (q.after id label ref cost now) ref)).toNat +
        (q.after id label ref cost now).toEnter direction =
      (q.after id label ref cost now).boarding.toNat + label.toEnter direction := by
  have henter : Draft.isEnter q.graph (label.stepTo direction (q.after id label ref cost now) ref) =
      match (q.graph.edge ref).kind with
      | .enter => true
      | _ => false := by
    cases direction <;> rfl
  rw [henter]
  unfold Label.toEnter Label.aboard
  cases ht with
  | access hkind hfoot =>
    -- forward the enter edge itself; backward the exit edge, with the enter edge to come
    cases direction <;> rw [hkind]
    · rfl
    · rw [hfoot.1, hfoot.2]
      rfl
  | egress ride hkind hride =>
    -- backward the enter edge that was still to come
    cases direction <;> rw [hkind]
    · rfl
    · rw [hride]
      rfl
  | stay eid legs ride event hid hkind hride hat hahead =>
    rw [hkind, hride]
    cases direction <;> rfl
  | board eid legs event hid hkind hride hboarding hfind =>
    rw [hkind, hboarding, Bool.or_true]
    cases direction <;> rfl
  | through trips ride trip hkind hride htrip =>
    rw [hkind, hride]
    cases direction <;> rfl
  | foot duration price hkind hfoot =>
    rw [hkind, hfoot.1, hfoot.2]
    cases direction <;> rfl
  | mumo ride time hkind hfoot htime hpinned =>
    rw [hkind, hfoot.1, hfoot.2]
    cases direction <;> rfl
  | hotel stay hkind hfoot hfirst hpinned =>
    rw [hkind, hfoot.1, hfoot.2]
    cases direction <;> rfl

/-- The enter edges of a trail, with one that is still to come, are as many as
its boardings. -/
theorem Trail.countP_enter {label : Label} {before : List Label}
    (h : Trail q settings measures (label :: before)) :
    (stepsBack q.direction (label :: before)).countP (Draft.isEnter q.graph) +
        label.toEnter q.direction =
      (label :: before).countP (·.boarding) := by
  refine Trail.along (P := fun label before =>
    (stepsBack q.direction (label :: before)).countP (Draft.isEnter q.graph) +
      label.toEnter q.direction = (label :: before).countP (·.boarding)) ?_ ?_ h
  · intro time htime
    cases q.direction <;> rfl
  · intro id ref label before cost now trail href ht hnow hin ih
    have hbalance := ht.enter_balance id now
    have hcount : ∀ (l : List Label) (x : Label), (x :: l).countP (·.boarding) =
        x.boarding.toNat + l.countP (·.boarding) := by
      intro l x
      rw [List.countP_cons]
      cases x.boarding
      · simp
      · simp
        omega
    rw [stepsBack, List.countP_append, hcount, ← ih]
    show (List.countP (Draft.isEnter q.graph) [label.stepTo q.direction _ ref] + _) + _ = _
    rw [List.countP_singleton]
    cases he : Draft.isEnter q.graph
      (label.stepTo q.direction (q.after id label ref cost now) ref)
    all_goals
      rw [he] at hbalance
      simp at hbalance ⊢
      omega

/-- The numbers of a journey are those that its trail has spent. -/
theorem numbers_of_ofChain {label : Label} {before : List Label} {journey : Journey}
    (h : Trail q settings measures (label :: before)) (hfoot : label.OnFoot)
    (hj : Journey.ofChain q.graph q.direction (label :: before) = .ok journey) :
    journey.duration = spent q.graph label before .time ∧
      journey.transfers = spent q.graph label before .transfers ∧
      journey.price = spent q.graph label before .price := by
  obtain ⟨result, rest, steps, draft, first, heq, hsteps, hfold, hfinish⟩ := ofChain_eq_ok hj
  cases heq
  obtain ⟨hduration, htransfers, hprice⟩ := Draft.finish_numbers hfinish
  obtain ⟨hfares, hboardings⟩ := Draft.foldlM_take_numbers hfold
  have hsum : (steps.map (Draft.fareOf q.graph)).sum =
      ((stepsBack q.direction (label :: before)).map (Draft.fareOf q.graph)).sum := by
    rw [steps_eq hsteps]
    unfold travelSteps
    cases q.direction with
    | forward => rw [List.map_reverse, List.sum_reverse]
    | backward => rfl
  have hcount : steps.countP (Draft.isEnter q.graph) =
      (stepsBack q.direction (label :: before)).countP (Draft.isEnter q.graph) := by
    rw [steps_eq hsteps]
    unfold travelSteps
    cases q.direction with
    | forward => rw [List.countP_reverse]
    | backward => rfl
  have henter := h.countP_enter
  -- at the goal no vehicle is left open
  have htoEnter : label.toEnter q.direction = 0 := by
    unfold Label.toEnter Label.aboard
    rw [hfoot.1, hfoot.2]
    cases q.direction <;> rfl
  rw [htoEnter, Nat.add_zero, List.countP_cons, hfoot.2] at henter
  refine ⟨hduration, ?_, ?_⟩
  · rw [htransfers, hboardings, hcount, henter]
    show 0 + (_ + 0) - 1 = _
    rw [Nat.zero_add, Nat.add_zero]
    rfl
  · rw [hprice, hfares, hsum, h.sum_fares, List.map_cons, List.sum_cons]
    show 0 + _ = _
    rw [Nat.zero_add]
    rfl

end Numbers

end JourneyPlanner
