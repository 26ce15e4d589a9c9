import JourneyPlanner.Proofs.Search.Sections

/-!
# Every trail can be written out

Writing out a journey can fail in many ways: a vehicle is left that nobody is on, a
section has no event, a range runs backward. For the labels of a trail that has ended
at the goal it never does (`Trail.written`), and the stops of the journey tell how
many vehicles it boards.

Two things are followed from step to step in the order of travel. A draft is `Tidy`:
its ranges lie within its stops, and its stops count its boardings. And it `Suits` the
label that it has got to: nobody who is on foot has a ride open, and whoever is about
to leave a vehicle has one. Going backward the search leaves a vehicle where the
traveller gets on, so that it is the labels about to board behind which a ride is open.
-/

namespace JourneyPlanner

/-- The attribute for one stop more. -/
def Attribute.further (a : Attribute) : Attribute := { a with last := a.last + 1 }

/-- The attribute for an offer on the section that begins at a stop. -/
def ServiceAttribute.over (offer : ServiceAttribute) (place : Nat) : Attribute :=
  { first := place, last := place + 1, code := offer.code, text := offer.text }

namespace Draft

/-- The ranges lie within the stops, and the stops count the boardings. -/
structure Tidy (d : Draft) : Prop where
  transports : ∀ t ∈ d.transports, t.first ≤ t.last ∧ t.last ≤ d.position
  attributes : ∀ a ∈ d.attributes, a.first ≤ a.last ∧ a.last ≤ d.position
  ride : ∀ r, d.ride = some r → r.stop ≤ d.position
  enters : d.past.countP (·.enter) + d.here.enter.toNat = d.boardings
  interchanges : d.past.countP (·.interchange) + d.here.interchange.toNat = d.boardings - 1
  /-- Only where a vehicle is boarded is there an interchange. -/
  entered : d.here.enter = false → d.here.interchange = false

variable {d : Draft}

theorem stopAt_plain (tt : Timetable) (node : NodeId) :
    (stopAt tt node).enter = false ∧ (stopAt tt node).interchange = false := by
  unfold stopAt
  split <;> exact ⟨rfl, rfl⟩

theorem start_tidy (tt : Timetable) (node : NodeId) : (start tt node).Tidy := by
  obtain ⟨henter, hinterchange⟩ := stopAt_plain tt node
  refine ⟨fun t ht => absurd ht List.not_mem_nil, fun a ha => absurd ha List.not_mem_nil,
    fun r hr => (by cases hr), ?_, ?_, fun _ => hinterchange⟩
  · show 0 + (stopAt tt node).enter.toNat = 0
    rw [henter]
    rfl
  · show 0 + (stopAt tt node).interchange.toNat = 0 - 1
    rw [hinterchange]
    rfl

/-! ## Parts of a step -/

theorem Tidy.depart (h : d.Tidy) (event : StopEvent) : (d.depart event).Tidy :=
  ⟨h.transports, h.attributes, h.ride, h.enters, h.interchanges, h.entered⟩

/-- One more stop, at which nothing has been boarded yet. -/
theorem Tidy.moveTo (h : d.Tidy) {stop : Stop} (henter : stop.enter = false)
    (hinterchange : stop.interchange = false) : (d.moveTo stop).Tidy := by
  have hpos : (d.moveTo stop).position = d.position + 1 := rfl
  refine ⟨fun t ht => ?_, fun a ha => ?_, fun r hr => ?_, ?_, ?_, fun _ => hinterchange⟩
  · obtain ⟨hle, hlast⟩ := h.transports t ht
    omega
  · obtain ⟨hle, hlast⟩ := h.attributes a ha
    omega
  · have := h.ride r hr
    omega
  · show (d.here :: d.past).countP (·.enter) + stop.enter.toNat = d.boardings
    rw [List.countP_cons, henter, ← h.enters]
    cases d.here.enter <;> rfl
  · show (d.here :: d.past).countP (·.interchange) + stop.interchange.toNat = d.boardings - 1
    rw [List.countP_cons, hinterchange, ← h.interchanges]
    cases d.here.interchange <;> rfl

/-- A move that ends at the present stop. -/
theorem Tidy.addTransport (h : d.Tidy) {first : Nat} (hle : first ≤ d.position) (move : Move) :
    Tidy { d with transports := { first, last := d.position, move } :: d.transports } := by
  refine ⟨fun t ht => ?_, h.attributes, h.ride, h.enters, h.interchanges, h.entered⟩
  rcases List.mem_cons.1 ht with rfl | ht
  · exact ⟨hle, Nat.le_refl _⟩
  · exact h.transports t ht

theorem Tidy.writeRide (h : d.Tidy) (tt : Timetable) {ride : OpenRide}
    (hride : d.ride = some ride) : (d.writeRide tt ride).Tidy := by
  have hadded := h.addTransport (h.ride ride hride) (Move.connection
    (tt.categoryName (tt.info ride.info).category) (tt.info ride.info).trainNumber
    (tt.info ride.info).line (ride.arrival - ride.departure))
  exact ⟨hadded.transports, hadded.attributes, fun r hr => (by cases hr), hadded.enters,
    hadded.interchanges, hadded.entered⟩

/-- Boarding is counted by the present stop, if nothing has been boarded there. -/
theorem Tidy.board (h : d.Tidy) (hfree : d.here.enter = false) : d.board.Tidy := by
  have hinterchange := h.entered hfree
  have henters := h.enters
  have hinterchanges := h.interchanges
  rw [hfree] at henters
  rw [hinterchange] at hinterchanges
  refine ⟨h.transports, h.attributes, h.ride, ?_, ?_, fun hnot => Bool.noConfusion hnot⟩
  · show d.past.countP (·.enter) + 1 = d.boardings + 1
    simp at henters
    omega
  · show d.past.countP (·.interchange) + (decide (0 < d.boardings)).toNat = d.boardings + 1 - 1
    simp at hinterchanges
    by_cases hpos : 0 < d.boardings
    · rw [decide_eq_true hpos]
      simp
      omega
    · rw [decide_eq_false hpos]
      simp
      omega

/-- An offer stretches one attribute of its code that reaches up to the section, if there is any. -/
theorem stretch_cases (place : Nat) (offer : ServiceAttribute) (as : List Attribute) :
    (∃ before a after, as = before ++ a :: after ∧ a.code = offer.code ∧ a.last = place ∧
      stretch place offer as = before ++ a.further :: after) ∨
    (∀ a ∈ as, a.code = offer.code → a.last ≠ place) ∧
      stretch place offer as = offer.over place :: as := by
  unfold stretch
  split
  · next i hi =>
    obtain ⟨hlt, hreaches, -⟩ := List.findIdx?_eq_some_iff_getElem.1 hi
    rw [Bool.and_eq_true, beq_iff_eq, beq_iff_eq] at hreaches
    refine Or.inl ⟨as.take i, as[i], as.drop (i + 1), ?_, hreaches.1, hreaches.2, ?_⟩
    · rw [← List.drop_eq_getElem_cons, List.take_append_drop]
    · rw [List.modify_eq_take_cons_drop hlt, ← hreaches.2]
      rfl
  · next hnone =>
    refine Or.inr ⟨fun a ha hcode hlast => ?_, rfl⟩
    have hnot := List.findIdx?_eq_none_iff.1 hnone a ha
    rw [hcode, hlast, beq_self_eq_true, beq_self_eq_true] at hnot
    cases hnot

/-- What reaches as far as the next stop does so after it has been stretched. -/
theorem stretch_within {place : Nat} (offers : List ServiceAttribute) {attributes : List Attribute}
    (h : ∀ a ∈ attributes, a.first ≤ a.last ∧ a.last ≤ place + 1) :
    ∀ a ∈ offers.foldl (fun as offer => stretch place offer as) attributes,
      a.first ≤ a.last ∧ a.last ≤ place + 1 := by
  induction offers generalizing attributes with
  | nil => exact h
  | cons offer offers ih =>
    refine ih fun a ha => ?_
    have ha : a ∈ stretch place offer attributes := ha
    rcases stretch_cases place offer attributes with ⟨before, b, after, hsplit, -, hlast, hresult⟩ |
      ⟨-, hresult⟩ <;> rw [hresult] at ha
    · rcases List.mem_append.1 ha with ha | ha
      · exact h a (hsplit ▸ List.mem_append_left _ ha)
      · rcases List.mem_cons.1 ha with rfl | ha
        · have hle := (h b (hsplit ▸ List.mem_append_right _ List.mem_cons_self)).1
          exact ⟨Nat.le_succ_of_le hle, Nat.le_of_eq (congrArg (· + 1) hlast)⟩
        · exact h a (hsplit ▸ List.mem_append_right _ (List.mem_cons_of_mem _ ha))
    · rcases List.mem_cons.1 ha with rfl | ha
      · exact ⟨Nat.le_succ place, Nat.le_refl _⟩
      · exact h a ha

/-- Riding a section opens a ride or goes on with one, and ends at a new stop. -/
theorem Tidy.rideTo (h : d.Tidy) (tt : Timetable) (event : Event) (node : NodeId) :
    (d.rideTo tt event node).Tidy ∧ (d.rideTo tt event node).ride ≠ none ∧
      (d.rideTo tt event node).here.enter = false := by
  obtain ⟨henter, hinterchange⟩ := stopAt_plain tt node
  unfold Draft.rideTo
  extract_lets leg d₁ d₂ place ride info arrival
  refine ⟨?_, Option.some_ne_none _, henter⟩
  have h₁ : d₁.Tidy := by
    unfold d₁
    split
    · next ride hride =>
      split
      · exact h
      · exact h.writeRide tt hride
    · exact h
  have h₂ : d₂.Tidy := h₁.depart _
  have h₃ : (d₂.moveTo { stopAt tt node with arrival := some arrival }).Tidy :=
    h₂.moveTo henter hinterchange
  have hride : ride.stop ≤ place := by
    unfold ride
    split
    · next ride hr => exact h₂.ride ride hr
    · exact Nat.le_refl _
  refine ⟨h₃.transports, ?_, fun r hr => ?_, h₃.enters, h₃.interchanges, h₃.entered⟩
  · refine stretch_within info.attributes fun a ha => ?_
    obtain ⟨hle, hlast⟩ := h₂.attributes a ha
    exact ⟨hle, Nat.le_succ_of_le hlast⟩
  · cases hr
    exact Nat.le_succ_of_le hride

theorem Tidy.walk (h : d.Tidy) (tt : Timetable) (direction : Direction) (step : Step) (edge : Edge)
    (duration price : Nat) (kind : WalkKind) :
    (d.walk tt direction step edge duration price kind).Tidy ∧
      (d.walk tt direction step edge duration price kind).ride = d.ride ∧
      (d.here.enter = false →
        (d.walk tt direction step edge duration price kind).here.enter = false) := by
  obtain ⟨henter, hinterchange⟩ := stopAt_plain tt edge.head
  rcases hw : walkTimes step duration direction with ⟨departure, arrival⟩
  unfold Draft.walk
  rw [hw]
  dsimp only
  -- a walk within one station leads to no new stop
  have hdepart := h.depart (eventAt tt departure none)
  by_cases hsame : (tt.node edge.tail).stationIndex = (tt.node edge.head).stationIndex
  · rw [if_pos hsame]
    have hadded := hdepart.addTransport (Nat.le_refl _) (.walk kind duration)
    exact ⟨⟨hadded.transports, hadded.attributes, hadded.ride, hadded.enters,
      hadded.interchanges, hadded.entered⟩, rfl, id⟩
  · rw [if_neg hsame]
    have hmoved : ((d.depart (eventAt tt departure none)).moveTo
        { stopAt tt edge.head with arrival := some (eventAt tt arrival none) }).Tidy :=
      hdepart.moveTo henter hinterchange
    have hadded := hmoved.addTransport (Nat.le_succ _) (.walk kind duration)
    exact ⟨⟨hadded.transports, hadded.attributes, hadded.ride, hadded.enters,
      hadded.interchanges, hadded.entered⟩, rfl, fun _ => henter⟩

/-! ## Steps -/

section Take

variable {graph : QueryGraph} (direction : Direction) (step : Step)

theorem Tidy.take_enter (h : d.Tidy) (hkind : (graph.edge step.edge).kind = .enter)
    (hfree : d.here.enter = false) :
    ∃ d', d.take graph direction step = .ok d' ∧ d'.Tidy ∧ d'.ride = d.ride := by
  exact ⟨d.board, Draft.take_enter direction step hkind, h.board hfree, rfl⟩

theorem Tidy.take_exit (h : d.Tidy) (hkind : (graph.edge step.edge).kind = .exit)
    (hride : d.ride ≠ none) :
    ∃ d', d.take graph direction step = .ok d' ∧ d'.Tidy ∧ d'.ride = none ∧
      d'.here.enter = d.here.enter := by
  obtain ⟨ride, hride⟩ := Option.ne_none_iff_exists'.1 hride
  have htidy := h.writeRide graph.timetable hride
  refine ⟨{ d.writeRide graph.timetable ride with
      here := { (d.writeRide graph.timetable ride).here with exit := true } }, ?_,
    ⟨htidy.transports, htidy.attributes, htidy.ride, htidy.enters, htidy.interchanges,
      htidy.entered⟩, rfl, rfl⟩
  rw [Draft.take_exit direction step hkind]
  unfold Draft.leave
  rw [hride]

theorem Tidy.take_route (h : d.Tidy) {legs : Array Leg} {used : UsedConnection} {event : Event}
    (hkind : (graph.edge step.edge).kind = .route legs) (hused : step.connection = some used)
    (hat : Event.at? legs used.trip used.day = some event) :
    ∃ d', d.take graph direction step = .ok d' ∧ d'.Tidy ∧ d'.ride ≠ none ∧
      d'.here.enter = false := by
  exact ⟨d.rideTo graph.timetable event (graph.edge step.edge).head,
    Draft.take_route direction step hkind hused hat, h.rideTo _ _ _⟩

theorem Tidy.take_walk (h : d.Tidy) (hkind : (graph.edge step.edge).kind.isWalk = true) :
    ∃ d', d.take graph direction step = .ok d' ∧ d'.Tidy ∧ d'.ride = d.ride ∧
      (d.here.enter = false → d'.here.enter = false) := by
  cases hk : (graph.edge step.edge).kind with
  | foot duration price =>
    exact ⟨_, Draft.take_foot direction step hk,
      h.walk graph.timetable direction step _ duration price _⟩
  | mumo ride =>
    exact ⟨_, Draft.take_mumo direction step hk, h.walk graph.timetable direction step _ _ _ _⟩
  | hotel stay =>
    have hadded := h.addTransport (Nat.le_refl _) (.walk .hotel (step.atHead - step.atTail))
    exact ⟨_, Draft.take_hotel direction step hk, ⟨hadded.transports, hadded.attributes,
      hadded.ride, hadded.enters, hadded.interchanges, hadded.entered⟩, rfl, id⟩
  | route legs => rw [hk] at hkind; cases hkind
  | enter => rw [hk] at hkind; cases hkind
  | exit => rw [hk] at hkind; cases hkind
  | through trips => rw [hk] at hkind; cases hkind

end Take

/-- How a draft stands that has got to a label in the order of travel. -/
structure Suits (direction : Direction) (label : Label) (d : Draft) : Prop where
  onFoot : label.OnFoot → d.ride = none ∧ d.here.enter = false
  /-- A ride is open where the next edge leaves a vehicle. -/
  aboard : (match direction with
    | .forward => label.ride ≠ none
    | .backward => label.boarding = true) → d.ride ≠ none ∧ d.here.enter = false

variable {q : Query} {settings : Settings} {label : Label} {cost : EdgeCost} {id : LabelId}
  {now : Time} {step : Step}

/-- A walk is taken from one label on foot to another. -/
theorem Suits.take_walk {direction : Direction} {first second : Label}
    (h : d.Suits direction first) (htidy : d.Tidy) (hfirst : first.OnFoot) (hsecond : second.OnFoot)
    (hkind : (q.graph.edge step.edge).kind.isWalk = true) :
    ∃ d', d.take q.graph direction step = .ok d' ∧ d'.Tidy ∧ d'.Suits direction second := by
  obtain ⟨hnone, henter⟩ := h.onFoot hfirst
  obtain ⟨d', htake, htidy', hride, hfree⟩ := htidy.take_walk direction step hkind
  refine ⟨d', htake, htidy', fun _ => ⟨hride.trans hnone, hfree henter⟩, fun haboard => ?_⟩
  cases direction with
  | forward => exact absurd hsecond.1 haboard
  | backward =>
    rw [hsecond.2] at haboard
    cases haboard

/-- A run that may be boarded is one of its edge. -/
theorem at?_of_boardable (hq : q.graph.Sound) {direction : Direction} {ref : EdgeRef}
    {eid : EdgeId} (hid : ref = .timetable eid)
    (href : ref ∈ q.graph.edgesAt label.node direction) {legs : Array Leg} {event : Event}
    (hkind : (q.graph.edge ref).kind = .route legs)
    (hfind : (label.boardable q.graph.timetable legs direction settings.maxMinutes).find?
      (label.inTime q.graph.timetable direction) = some event) :
    Event.at? legs event.trip event.day = some event := by
  subst hid
  exact (boardable_spec hq href hkind hfind).2.1

/-- Going forward, a step leads from a draft that suits the older label to one that
suits the newer. -/
theorem Suits.take_forward (step : Step) (hq : q.graph.Sound)
    (href : step.edge ∈ q.graph.edgesAt label.node .forward)
    (ht : Takes q.graph .forward settings.maxMinutes label step.edge cost)
    (hused : step.connection = cost.connection) (htidy : d.Tidy) (h : d.Suits .forward label) :
    ∃ d', d.take q.graph .forward step = .ok d' ∧ d'.Tidy ∧
      d'.Suits .forward (q.after id label step.edge cost now) := by
  cases ht with
  | access hkind hfoot =>
    obtain ⟨hnone, henter⟩ := h.onFoot hfoot
    obtain ⟨d', htake, htidy', -⟩ := htidy.take_enter .forward step hkind henter
    exact ⟨d', htake, htidy', fun hf => Bool.noConfusion hf.2, fun hr => absurd rfl hr⟩
  | egress ride hkind hride =>
    obtain ⟨hopen, henter⟩ := h.aboard (by rw [hride]; exact Option.some_ne_none _)
    obtain ⟨d', htake, htidy', hnone, hsame⟩ := htidy.take_exit .forward step hkind hopen
    exact ⟨d', htake, htidy', fun _ => ⟨hnone, hsame.trans henter⟩, fun hr => absurd rfl hr⟩
  | stay eid legs ride event hid hkind hride hat hahead =>
    obtain ⟨d', htake, htidy', hopen⟩ :=
      htidy.take_route .forward step hkind hused (Event.at?_self hat)
    exact ⟨d', htake, htidy', fun hf => absurd hf.1 (Option.some_ne_none _), fun _ => hopen⟩
  | board eid legs event hid hkind hride hboarding hfind =>
    obtain ⟨d', htake, htidy', hopen⟩ :=
      htidy.take_route .forward step hkind hused (at?_of_boardable hq hid href hkind hfind)
    exact ⟨d', htake, htidy', fun hf => absurd hf.1 (Option.some_ne_none _), fun _ => hopen⟩
  | through trips ride trip hkind hride htrip =>
    exact ⟨d, take_through .forward step hkind, htidy,
      fun hf => absurd hf.1 (Option.some_ne_none _),
      fun _ => h.aboard (by rw [hride]; exact Option.some_ne_none _)⟩
  | foot duration price hkind hfoot =>
    exact h.take_walk htidy hfoot ⟨rfl, rfl⟩ (congrArg EdgeKind.isWalk hkind)
  | mumo ride time hkind hfoot htime hpinned =>
    exact h.take_walk htidy hfoot ⟨rfl, rfl⟩ (congrArg EdgeKind.isWalk hkind)
  | hotel stay hkind hfoot hfirst hpinned =>
    exact h.take_walk htidy hfoot ⟨rfl, rfl⟩ (congrArg EdgeKind.isWalk hkind)

/-- Going backward, a step leads from a draft that suits the newer label to one that
suits the older. -/
theorem Suits.take_backward (step : Step) (hq : q.graph.Sound)
    (hp : label.Placed q.graph.timetable.nodes)
    (href : step.edge ∈ q.graph.edgesAt label.node .backward)
    (ht : Takes q.graph .backward settings.maxMinutes label step.edge cost)
    (hused : step.connection = cost.connection) (htidy : d.Tidy)
    (h : d.Suits .backward (q.after id label step.edge cost now)) :
    ∃ d', d.take q.graph .backward step = .ok d' ∧ d'.Tidy ∧ d'.Suits .backward label := by
  -- nothing is asked of a draft that has got to a label on a vehicle
  have hriding : ∀ (ride : Ride) (d' : Draft), label.ride = some ride →
      d'.Suits .backward label := by
    intro ride d' hride
    refine ⟨fun hf => absurd hf (Label.not_onFoot hride), fun haboard => ?_⟩
    rw [hp.apart haboard] at hride
    cases hride
  cases ht with
  | access hkind hfoot =>
    obtain ⟨hopen, henter⟩ := h.aboard rfl
    obtain ⟨d', htake, htidy', hnone, hsame⟩ := htidy.take_exit .backward step hkind hopen
    refine ⟨d', htake, htidy', fun _ => ⟨hnone, hsame.trans henter⟩, fun haboard => ?_⟩
    rw [hfoot.2] at haboard
    cases haboard
  | egress ride hkind hride =>
    obtain ⟨-, henter⟩ := h.onFoot ⟨rfl, rfl⟩
    obtain ⟨d', htake, htidy', -⟩ := htidy.take_enter .backward step hkind henter
    exact ⟨d', htake, htidy', hriding ride d' hride⟩
  | stay eid legs ride event hid hkind hride hat hahead =>
    obtain ⟨d', htake, htidy', -⟩ :=
      htidy.take_route .backward step hkind hused (Event.at?_self hat)
    exact ⟨d', htake, htidy', hriding ride d' hride⟩
  | board eid legs event hid hkind hride hboarding hfind =>
    obtain ⟨d', htake, htidy', hopen⟩ :=
      htidy.take_route .backward step hkind hused (at?_of_boardable hq hid href hkind hfind)
    refine ⟨d', htake, htidy', fun hf => ?_, fun _ => hopen⟩
    rw [hf.2] at hboarding
    cases hboarding
  | through trips ride trip hkind hride htrip =>
    exact ⟨d, take_through .backward step hkind, htidy, hriding ride d hride⟩
  | foot duration price hkind hfoot =>
    exact h.take_walk htidy ⟨rfl, rfl⟩ hfoot (congrArg EdgeKind.isWalk hkind)
  | mumo ride time hkind hfoot htime hpinned =>
    exact h.take_walk htidy ⟨rfl, rfl⟩ hfoot (congrArg EdgeKind.isWalk hkind)
  | hotel stay hkind hfoot hfirst hpinned =>
    exact h.take_walk htidy ⟨rfl, rfl⟩ hfoot (congrArg EdgeKind.isWalk hkind)

/-! ## The end of a journey -/

/-- A tidy draft that no ride is open on can be finished. -/
theorem Tidy.finish (h : d.Tidy) (hride : d.ride = none) (duration : Nat) :
    ∃ journey, d.finish duration = .ok journey ∧
      journey.stops.countP (·.enter) = d.boardings ∧
      journey.interchangeCount = d.boardings - 1 := by
  have hranges : (Journey.ranges d.transports.reverse d.attributes.reverse).findSome?
      (Journey.rangeFault? (d.here :: d.past).reverse.length) = none := by
    have hin : ∀ range : Nat × Nat, range.1 ≤ range.2 ∧ range.2 ≤ d.position →
        Journey.rangeFault? (d.here :: d.past).reverse.length range = none := by
      rintro range ⟨hle, hlast⟩
      unfold Journey.rangeFault?
      rw [List.length_reverse, List.length_cons]
      unfold Draft.position at hlast
      rw [if_neg (by omega), if_neg (by omega)]
    refine List.findSome?_eq_none_iff.2 fun range hrange => hin range ?_
    rcases List.mem_append.1 hrange with hr | hr
    · obtain ⟨t, ht, rfl⟩ := List.mem_map.1 hr
      exact h.transports t (List.mem_reverse.1 ht)
    · obtain ⟨a, ha, rfl⟩ := List.mem_map.1 hr
      exact h.attributes a (List.mem_reverse.1 ha)
  have hvalid : Journey.fault? (d.here :: d.past).reverse d.transports.reverse
      d.attributes.reverse = none := by
    unfold Journey.fault?
    rw [if_neg (by simp)]
    exact hranges
  refine ⟨⟨_, _, _, duration, d.boardings - 1, d.price, hvalid⟩, ?_, ?_, ?_⟩
  · unfold Draft.finish Journey.make
    rw [hride]
    dsimp only
    split
    · next journey hj =>
      split at hj
      · cases hj
        rfl
      · cases hj
    · next fault hj =>
      split at hj
      · cases hj
      · next hsome =>
        rw [hvalid] at hsome
        cases hsome
  · show (d.here :: d.past).reverse.countP (·.enter) = d.boardings
    rw [List.countP_reverse, List.countP_cons, ← h.enters]
    cases d.here.enter <;> rfl
  · show (d.here :: d.past).reverse.countP (·.interchange) = d.boardings - 1
    rw [List.countP_reverse, List.countP_cons, ← h.interchanges]
    cases d.here.interchange <;> rfl

end Draft

/-! ## Trails -/

section Trail

variable {q : Query} {settings : Settings} {measures : List Measure} {label : Label}
  {before : List Label}

theorem mem_of_mem_zip_tail {α : Type} {l : List α} {a b : α} (h : (a, b) ∈ l.zip l.tail) :
    a ∈ l.dropLast ∧ b ∈ l.tail := by
  refine ⟨?_, (List.of_mem_zip h).2⟩
  induction l with
  | nil => cases h
  | cons x l ih =>
    cases l with
    | nil => cases h
    | cons y l =>
      rw [List.tail_cons, List.zip_cons_cons] at h
      rw [List.dropLast_cons_cons]
      rcases List.mem_cons.1 h with heq | h
      · cases heq
        exact List.mem_cons_self
      · exact List.mem_cons_of_mem _ (ih h)

/-- All labels of a trail but the start have been reached over an edge. -/
theorem Trail.edge_ne_none {labels : List Label} (h : Trail q settings measures labels) :
    ∀ label ∈ labels.dropLast, label.edge ≠ none := by
  induction h with
  | start time htime hin => exact fun label hl => absurd hl List.not_mem_nil
  | step id ref next label before trail hgoal href hnext hin ih =>
    intro other hother
    rw [List.dropLast_cons_cons] at hother
    rcases List.mem_cons.1 hother with rfl | hother
    · obtain ⟨cost, now, -, -, rfl⟩ := expandEdge_eq_some_iff.1 hnext
      exact Option.some_ne_none ref
    · exact ih other hother

/-- There is a step between any two labels of a trail that follow each other. -/
theorem Trail.steps_ok {labels : List Label} (h : Trail q settings measures labels) :
    Journey.steps q.direction (Journey.inTravelOrder labels q.direction) =
      .ok (travelSteps q.direction labels) := by
  have hall : ∃ steps, Journey.steps q.direction (Journey.inTravelOrder labels q.direction) =
      .ok steps := by
    refine Fallible.exists_mapM_eq_ok ?_
    rintro ⟨first, second⟩ hpair
    obtain ⟨hfirst, hsecond⟩ := mem_of_mem_zip_tail hpair
    -- the edge is kept by the label that the search came to later
    cases hd : q.direction with
    | forward =>
      rw [hd] at hsecond
      unfold Journey.inTravelOrder at hsecond
      dsimp only at hsecond
      rw [List.tail_reverse, List.mem_reverse] at hsecond
      obtain ⟨ref, href⟩ := Option.ne_none_iff_exists'.1 (h.edge_ne_none second hsecond)
      unfold Journey.stepBetween
      dsimp only
      rw [href]
      exact ⟨_, rfl⟩
    | backward =>
      rw [hd] at hfirst
      obtain ⟨ref, href⟩ := Option.ne_none_iff_exists'.1 (h.edge_ne_none first hfirst)
      unfold Journey.stepBetween
      dsimp only
      rw [href]
      exact ⟨_, rfl⟩
  obtain ⟨steps, hsteps⟩ := hall
  rw [hsteps, steps_eq hsteps]

theorem Trail.draft_forward (hq : q.Sound) (hd : q.direction = .forward)
    (h : Trail q settings measures (label :: before)) (node : NodeId) :
    ∃ d, (stepsBack .forward (label :: before)).reverse.foldlM (Draft.take q.graph .forward)
      (Draft.start q.graph.timetable node) = .ok d ∧ d.Tidy ∧ d.Suits .forward label := by
  refine Trail.along (P := fun label before =>
    ∃ d, (stepsBack .forward (label :: before)).reverse.foldlM (Draft.take q.graph .forward)
      (Draft.start q.graph.timetable node) = .ok d ∧ d.Tidy ∧ d.Suits .forward label) ?_ ?_ h
  · intro time htime
    exact ⟨_, rfl, Draft.start_tidy _ _, fun _ => ⟨rfl, (Draft.stopAt_plain _ _).1⟩,
      fun hr => absurd rfl hr⟩
  · rintro id ref label before cost now trail href ht hnow hin ⟨d, hfold, htidy, hsuits⟩
    rw [hd] at href ht
    obtain ⟨d', htake, htidy', hsuits'⟩ := hsuits.take_forward
      (label.stepTo .forward (q.after id label ref cost now) ref) hq.graph href ht rfl htidy
    refine ⟨d', ?_, htidy', hsuits'⟩
    rw [stepsBack, List.reverse_append, List.foldlM_append]
    refine Fallible.bind_eq_ok.2 ⟨d, hfold, ?_⟩
    exact Fallible.bind_eq_ok.2 ⟨d', htake, rfl⟩

theorem Trail.draft_backward (hq : q.Sound) (hd : q.direction = .backward)
    (h : Trail q settings measures (label :: before)) :
    ∀ d : Draft, d.Tidy → d.Suits .backward label →
      ∃ d', (stepsBack .backward (label :: before)).foldlM (Draft.take q.graph .backward) d =
        .ok d' ∧ d'.Tidy ∧ d'.ride = none := by
  refine Trail.along (P := fun label before => ∀ d : Draft, d.Tidy → d.Suits .backward label →
      ∃ d', (stepsBack .backward (label :: before)).foldlM (Draft.take q.graph .backward) d =
        .ok d' ∧ d'.Tidy ∧ d'.ride = none) ?_ ?_ h
  · intro time htime d htidy hsuits
    exact ⟨d, rfl, htidy, (hsuits.onFoot ⟨rfl, rfl⟩).1⟩
  · intro id ref label before cost now trail href ht hnow hin ih d htidy hsuits
    rw [hd] at href ht
    obtain ⟨d₁, htake, htidy₁, hsuits₁⟩ := hsuits.take_backward
      (label.stepTo .backward (q.after id label ref cost now) ref) hq.graph
      (trail.placed hq) href ht rfl htidy
    obtain ⟨d', hfold, hend⟩ := ih d₁ htidy₁ hsuits₁
    refine ⟨d', ?_, hend⟩
    rw [stepsBack, List.foldlM_append]
    refine Fallible.bind_eq_ok.2 ⟨d₁, ?_, hfold⟩
    exact Fallible.bind_eq_ok.2 ⟨d₁, htake, rfl⟩

/-- The journey of a trail that has ended on foot can be written out, and its stops
tell how many vehicles it boards. -/
theorem Trail.written (hq : q.Sound) (h : Trail q settings measures (label :: before))
    (hfoot : label.OnFoot) :
    ∃ journey, Journey.ofChain q.graph q.direction (label :: before) = .ok journey ∧
      journey.transfers = journey.interchangeCount ∧
      journey.transfers = journey.stops.countP (·.enter) - 1 := by
  have hdraft : ∀ node, ∃ d, (travelSteps q.direction (label :: before)).foldlM
      (Draft.take q.graph q.direction) (Draft.start q.graph.timetable node) = .ok d ∧ d.Tidy ∧
      d.ride = none := by
    intro node
    cases hd : q.direction with
    | forward =>
      obtain ⟨d, hfold, htidy, hsuits⟩ := h.draft_forward hq hd node
      exact ⟨d, hfold, htidy, (hsuits.onFoot hfoot).1⟩
    | backward =>
      refine h.draft_backward hq hd _ (Draft.start_tidy _ _)
        ⟨fun _ => ⟨rfl, (Draft.stopAt_plain _ _).1⟩, fun haboard => ?_⟩
      rw [hfoot.2] at haboard
      cases haboard
  obtain ⟨first, rest, horder⟩ : ∃ first rest,
      Journey.inTravelOrder (label :: before) q.direction = first :: rest := by
    cases q.direction with
    | forward =>
      cases hr : (label :: before).reverse with
      | nil => simp at hr
      | cons first rest => exact ⟨first, rest, hr⟩
    | backward => exact ⟨label, before, rfl⟩
  obtain ⟨d, hfold, htidy, hride⟩ := hdraft first.node
  obtain ⟨journey, hfinish, henters, hinterchanges⟩ := htidy.finish hride label.travelTime
  have htransfers := (Draft.finish_numbers hfinish).2.1
  refine ⟨journey, ?_, by omega, by omega⟩
  unfold Journey.ofChain
  rw [horder]
  dsimp only
  rw [← horder]
  exact Fallible.bind_eq_ok.2 ⟨_, h.steps_ok, Fallible.bind_eq_ok.2 ⟨d, hfold, hfinish⟩⟩

end Trail

end JourneyPlanner
