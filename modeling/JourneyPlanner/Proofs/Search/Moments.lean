import JourneyPlanner.Proofs.Itinerary.Steps
import JourneyPlanner.Proofs.Search.Turns

/-!
# Every moment of a search

`Run.Reached` looks at a search between two labels. Here it is looked at after each
of its operations: a start label is queued, a label is taken from the queue, released,
settled or reported, one edge is taken. A `Moment` is what there is between two of
them. `Moment.Next` leads from one to the next, and every search gets along by it, also
one that a fault ends (`Run.makes_run`).

What holds of every moment is `Moment.Stands`: the labels are sound
(`Frontier.Sound`), and nothing is left over. The slots in use are those that are
settled, held or queued, and the lists of the nodes hold each settled slot once
(`Frontier.Listed`).

An operation fills one slot that was not in use, empties the one that is held, or
touches no slot (`Moment.Next.slots`). So a settled label stays for good, although
slots are used again.
-/

namespace JourneyPlanner

open Relation (ReflTransGen)

/-! ## The slots in use -/

namespace Frontier

variable {q : Query} {settings : Settings} {measures : List Measure} {f f' : Frontier}
  {order held : List LabelId} {id : LabelId} {label : Label}

/-- The lists of the nodes hold the settled slots, and no slot is in use but these,
those that are held and those in the queue. -/
structure Listed (f : Frontier) (order held : List LabelId) : Prop where
  settled : f.settled.toList.flatten.Perm order
  used : ∀ id label, f.pool.get? id = some label → id ∈ order ++ (held ++ f.queued)

/-- A label that is queued gets a slot that is in the queue, and the lists of nodes stay. -/
theorem Listed.push (h : f.Listed order held) (hlaid : f.pool.Laid)
    (hpush : f.push label = (true, f')) : f'.Listed order held := by
  obtain ⟨id, -, -, hother, hperm, -⟩ := push_spec hlaid hpush
  obtain ⟨_, -, -, hsettled, -⟩ := push_eq_true hpush
  refine ⟨by rw [hsettled]; exact h.settled, fun other l hl => ?_⟩
  have hmem : ∀ o ∈ f.queued, o ∈ f'.queued :=
    fun o ho => hperm.mem_iff.2 (List.mem_cons_of_mem id ho)
  by_cases hid : other = id
  · have hin : other ∈ f'.queued := by
      rw [hid]
      exact hperm.mem_iff.2 List.mem_cons_self
    exact List.mem_append_right _ (List.mem_append_right _ hin)
  · rw [hother other hid] at hl
    rcases List.mem_append.1 (h.used other l hl) with ho | ho
    · exact List.mem_append_left _ ho
    · rcases List.mem_append.1 ho with ho | ho
      · exact List.mem_append_right _ (List.mem_append_left _ ho)
      · exact List.mem_append_right _ (List.mem_append_right _ (hmem other ho))

/-- The label taken from the queue is the one that is held. -/
theorem Listed.pop {r r' : Run} (h : r.frontier.Listed order [])
    (hr : Sound q settings measures r.frontier order []) (hpop : r.pop = (some id, r')) :
    r'.frontier.Listed order [id] := by
  obtain ⟨-, hperm, hpool, hsettled, -⟩ := Run.pop_sound hr hpop
  refine ⟨by rw [hsettled]; exact h.settled, fun other l hl => ?_⟩
  rw [hpool] at hl
  rcases List.mem_append.1 (h.used other l hl) with ho | ho
  · exact List.mem_append_left _ ho
  · exact List.mem_append_right _ (hperm.mem_iff.1 ho)

/-- A label that is given back leaves its slot unused. -/
theorem Listed.discard (h : f.Listed order [id]) (hs : Sound q settings measures f order [id]) :
    (f.discard id).Listed order [] := by
  obtain ⟨label, links, ht⟩ := hs.waiting id List.mem_cons_self
  obtain ⟨hnone, hother, -⟩ := Pool.dealloc_spec hs.laid ht.get?
  refine ⟨h.settled, fun other l hl => ?_⟩
  by_cases hid : other = id
  · have hl' : (f.pool.dealloc id).2.get? other = some l := hl
    rw [hid, hnone] at hl'
    cases hl'
  · have hl' : f.pool.get? other = some l := (hother other hid).symm.trans hl
    rcases List.mem_append.1 (h.used other l hl') with ho | ho
    · exact List.mem_append_left _ ho
    · exact List.mem_append_right _ ((List.mem_cons.1 ho).resolve_left hid)

/-- A held label that is settled goes to the list of its node, and is held no more. -/
theorem Listed.settle (h : f.Listed order [id]) {node : NodeId} (hroom : node < f.settled.size) :
    (f.settle node id).Listed (id :: order) [] := by
  constructor
  · have hnode : f.settled.toList[node]? = some f.settled[node] := by
      rw [Array.getElem?_toList]
      exact Array.getElem?_eq_getElem hroom
    have hm := BucketQueue.flatten_modify_perm hnode (id :: ·)
    have hflat : (f.settle node id).settled.toList.flatten.Perm
        (id :: f.settled.toList.flatten) := by
      show (f.settled.modify node (id :: ·)).toList.flatten.Perm _
      rw [Array.toList_modify]
      apply (List.perm_append_right_iff f.settled[node]).1
      exact hm.trans List.perm_middle
    exact hflat.trans (h.settled.cons id)
  · intro other l hl
    rcases List.mem_append.1 (h.used other l hl) with ho | ho
    · exact List.mem_append_left _ (List.mem_cons_of_mem id ho)
    · rcases List.mem_cons.1 ho with rfl | ho
      · exact List.mem_append_left _ List.mem_cons_self
      · exact List.mem_append_right _ ho

/-- In storage without a label no slot is in use, for any number of nodes. -/
theorem Blank.listed (h : f.Blank) (nodes : Nat) :
    (f.withNodes nodes).Listed [] [] := by
  constructor
  · have hnil : ∀ lists ∈ (f.withNodes nodes).settled.toList, lists = [] := by
      intro lists hlists
      rw [show (f.withNodes nodes).settled.toList =
        f.settled.toList ++ List.replicate (nodes - f.settled.size) [] by
          simp [Frontier.withNodes]] at hlists
      rcases List.mem_append.1 hlists with hlists | hlists
      · obtain ⟨node, hnode, rfl⟩ := List.getElem_of_mem hlists
        have := h.settled node
        unfold settledAt at this
        rw [Array.getElem?_eq_getElem (by simpa using hnode)] at this
        exact this
      · exact List.eq_of_mem_replicate hlists
    rw [List.flatten_eq_nil_iff.2 hnil]
  · intro id label hget
    have hget' : f.pool.get? id = some label := hget
    rw [h.unused id] at hget'
    cases hget'

end Frontier

/-! ## Operations -/

/-- What a search is at. -/
inductive Stage where
  /-- The labels of these starts are still to be queued. -/
  | starting (times : List Time)
  /-- A label is to be taken from the queue. -/
  | choosing
  /-- A label has been taken from the queue. -/
  | holding (id : LabelId)
  /-- A label at the goal has been settled. -/
  | reporting (id : LabelId)
  /-- Another label has been settled, and these of its edges are still to be taken. -/
  | expanding (id : LabelId) (label : Label) (refs : List EdgeRef)

/-- The slots that are neither settled nor queued. -/
def Stage.held : Stage → List LabelId
  | .holding id => [id]
  | _ => []

/-- A search after some of its operations. -/
structure Moment where
  stage : Stage
  run : Run

namespace Moment

/-- The moment in which a search begins. -/
def first (q : Query) (f : Frontier) : Moment :=
  { stage := .starting q.startTimes, run := Run.opening q f }

/-- The label in a slot. -/
def label? (m : Moment) (id : LabelId) : Option Label := m.run.frontier.label? id

end Moment

/-- One operation of a search. -/
inductive Moment.Next (q : Query) (settings : Settings) (measures : List Measure) :
    Moment → Moment → Prop
  | start {r r' : Run} (time : Time) (times : List Time)
      (h : Run.pushStart q settings measures r time = .ok r') :
      Moment.Next q settings measures ⟨.starting (time :: times), r⟩ ⟨.starting times, r'⟩
  | started (r : Run) : Moment.Next q settings measures ⟨.starting [], r⟩ ⟨.choosing, r⟩
  | take {r r' : Run} (id : LabelId) (h : r.pop = (some id, r')) :
      Moment.Next q settings measures ⟨.choosing, r⟩ ⟨.holding id, r'⟩
  | drop {r r' : Run} {id : LabelId} {label : Label}
      (hget : r.frontier.label? id = some label)
      (hbeaten : r.frontier.beatenByResult label = true ∨
        r.frontier.beatenAtNode label q.direction = true)
      (h : r.visit q settings id = .ok r') :
      Moment.Next q settings measures ⟨.holding id, r⟩ ⟨.choosing, r'⟩
  | arrive {r : Run} {id : LabelId} {label : Label} (hget : r.frontier.label? id = some label)
      (hfree : r.frontier.beatenByResult label = false)
      (hplace : r.frontier.beatenAtNode label q.direction = false)
      (hgoal : q.target.isGoal label = true) :
      Moment.Next q settings measures ⟨.holding id, r⟩ ⟨.reporting id, r.settled label.node id⟩
  | report (r : Run) (id : LabelId) :
      Moment.Next q settings measures ⟨.reporting id, r⟩ ⟨.choosing, r.report id⟩
  | settle {r : Run} {id : LabelId} {label : Label} (hget : r.frontier.label? id = some label)
      (hfree : r.frontier.beatenByResult label = false)
      (hplace : r.frontier.beatenAtNode label q.direction = false)
      (hgoal : q.target.isGoal label = false) :
      Moment.Next q settings measures ⟨.holding id, r⟩
        ⟨.expanding id label (q.graph.edgesAt label.node q.direction), r.settled label.node id⟩
  | edge {r r' : Run} {id : LabelId} {label : Label} (ref : EdgeRef) (refs : List EdgeRef)
      (h : Run.pushEdge q settings id label r ref = .ok r') :
      Moment.Next q settings measures ⟨.expanding id label (ref :: refs), r⟩
        ⟨.expanding id label refs, r'⟩
  | expanded (r : Run) (id : LabelId) (label : Label) :
      Moment.Next q settings measures ⟨.expanding id label [], r⟩ ⟨.choosing, r⟩

/-- Any number of operations. -/
abbrev Moment.Later (q : Query) (settings : Settings) (measures : List Measure) :
    Moment → Moment → Prop := ReflTransGen (Moment.Next q settings measures)

variable {q : Query} {settings : Settings} {measures : List Measure} {m m' : Moment}
  {r r' : Run} {f : Frontier} {order : List LabelId} {id : LabelId} {label : Label}

/-! ## A search is made of operations -/

namespace Run

/-- The operations from a moment on make up a part of a search: they get as far as it
does, and back to the queue if no fault ends it. -/
def Makes (q : Query) (settings : Settings) (measures : List Measure) (m : Moment)
    (outcome : Except Halt Run) : Prop :=
  ∃ m', Moment.Later q settings measures m m' ∧ m'.run.frontier = (left outcome).frontier ∧
    ∀ r, outcome = .ok r → m' = ⟨.choosing, r⟩

/-- One operation more before a part of a search makes it up as well. -/
theorem Makes.head {outcome : Except Halt Run} (hnext : Moment.Next q settings measures m m')
    (h : Makes q settings measures m' outcome) : Makes q settings measures m outcome := by
  obtain ⟨m₁, hnexts, hrest⟩ := h
  exact ⟨m₁, .head hnext hnexts, hrest⟩

/-- Items that are taken one by one, each by one operation. -/
theorem makes_foldlM {α : Type} {step : Run → α → Except Halt Run} (stage : List α → Stage)
    (hstep : ∀ r a l r', step r a = .ok r' →
      Moment.Next q settings measures ⟨stage (a :: l), r⟩ ⟨stage l, r'⟩)
    (hfail : ∀ r a halt, step r a = .error halt → halt.run.frontier = r.frontier)
    (hdone : ∀ r, Moment.Next q settings measures ⟨stage [], r⟩ ⟨.choosing, r⟩) (l : List α)
    (r : Run) :
    Makes q settings measures ⟨stage l, r⟩ (l.foldlM step r) := by
  induction l generalizing r with
  | nil =>
    refine ⟨⟨.choosing, r⟩, .single (hdone r), rfl, fun r' h => ?_⟩
    cases h
    rfl
  | cons a l ih =>
    rw [List.foldlM_cons]
    cases hr : step r a with
    | error halt =>
      refine ⟨_, .refl, (hfail r a halt hr).symm, fun r' h => ?_⟩
      cases h
    | ok r' => exact (ih r').head (hstep r a l r' hr)

/-- Queueing the starts is one operation for each of them. -/
theorem makes_start (times : List Time) (r : Run) :
    Makes q settings measures ⟨.starting times, r⟩
      (times.foldlM (pushStart q settings measures) r) := by
  apply makes_foldlM Stage.starting
  · intro r time times r' h
    exact .start time times h
  · intro r time halt h
    exact frontier_of_pushStart_error h
  · exact .started

/-- Expanding a label is one operation for each of its edges. -/
theorem makes_expand (id : LabelId) (label : Label) (refs : List EdgeRef) (r : Run) :
    Makes q settings measures ⟨.expanding id label refs, r⟩
      (refs.foldlM (pushEdge q settings id label) r) := by
  apply makes_foldlM (Stage.expanding id label)
  · intro r ref refs r' h
    exact .edge ref refs h
  · intro r ref halt h
    exact frontier_of_pushEdge_error h
  · intro r
    exact .expanded r id label

/-- Visiting a label is a number of operations that begin by holding it. -/
theorem makes_visit (hget : r.frontier.label? id = some label) :
    Makes q settings measures ⟨.holding id, r⟩ (r.visit q settings id) := by
  by_cases hbeaten : r.frontier.beatenByResult label = true ∨
      r.frontier.beatenAtNode label q.direction = true
  · obtain ⟨r', hr', -⟩ := visit_of_beaten hget hbeaten
    rw [hr']
    refine ⟨_, .single (.drop hget hbeaten hr'), rfl, fun r₁ h => ?_⟩
    cases h
    rfl
  · rw [not_or, Bool.not_eq_true, Bool.not_eq_true] at hbeaten
    obtain ⟨hfree, hplace⟩ := hbeaten
    rw [visit_of_kept hget hfree hplace]
    by_cases hgoal : q.target.isGoal label = true
    · rw [if_pos hgoal]
      refine ⟨_, .head (.arrive hget hfree hplace hgoal) (.single (.report _ id)), rfl,
        fun r₁ h => ?_⟩
      cases h
      rfl
    · rw [if_neg hgoal]
      exact (makes_expand id label _ _).head
        (.settle hget hfree hplace (Bool.eq_false_iff.2 hgoal))

/-- Whoever turns up in the queue has a label. -/
theorem Reached.label?_of_pop (hq : q.Sound) (hf : f.Blank)
    (h : Reached q settings measures f r) (hpop : r.pop = (some id, r')) :
    ∃ label, r'.frontier.label? id = some label := by
  obtain ⟨order, label, links, -, -, ht⟩ := h.popped hq hf hpop
  exact ⟨label, ht.get?⟩

/-- A turn of the loop is a number of operations, from one choice of a label to the next. -/
theorem Turn.later (hq : q.Sound) (hf : f.Blank) (h : Reached q settings measures f r)
    (ht : Turn q settings r r') :
    Moment.Later q settings measures ⟨.choosing, r⟩ ⟨.choosing, r'⟩ := by
  obtain ⟨id, r₁, hpop, hvisit⟩ := ht
  obtain ⟨label, hget⟩ := h.label?_of_pop hq hf hpop
  have hmakes : Makes q settings measures ⟨.holding id, r₁⟩ (r₁.visit q settings id) :=
    makes_visit hget
  obtain ⟨m, hlater, -, hok⟩ := hmakes
  rw [hok r' hvisit] at hlater
  exact .head (.take id hpop) hlater

/-- Turns of the loop are a number of operations too. -/
theorem Reached.later (hq : q.Sound) (hf : f.Blank) (h : Reached q settings measures f r)
    (ht : ReflTransGen (Turn q settings) r r') :
    Moment.Later q settings measures ⟨.choosing, r⟩ ⟨.choosing, r'⟩ := by
  induction ht with
  | refl => exact .refl
  | tail ht hturn ih => exact ih.trans (hturn.later hq hf (h.turns ht))

/-- A search gets along by operations, however it ends. -/
theorem makes_run (hq : q.Sound) (hf : f.Blank) :
    ∃ m, Moment.Later q settings measures (Moment.first q f) m ∧
      m.run.frontier = (left (q.run settings measures f)).frontier := by
  have hmakes : Makes q settings measures (Moment.first q f)
      (Run.start q settings measures f) := makes_start q.startTimes _
  obtain ⟨m, hlater, hframe, hok⟩ := hmakes
  cases hstart : Run.start q settings measures f with
  | error halt =>
    refine ⟨m, hlater, hframe.trans ?_⟩
    rw [left_run_of_start_error hstart, hstart]
    rfl
  | ok r =>
    have hreached : Reached q settings measures f r := .start hstart
    obtain ⟨r₁, hturns, hrests⟩ := loop_left hq hf hreached settings.maxLabels
    have hlater₁ : Moment.Later q settings measures (Moment.first q f) ⟨.choosing, r₁⟩ := by
      rw [hok r hstart] at hlater
      exact hlater.trans (hreached.later hq hf hturns)
    rw [left_run_of_start_ok hstart]
    rcases hrests with heq | ⟨id, r₂, fault, hpop, hvisit⟩
    · exact ⟨_, hlater₁, heq.symm⟩
    · -- the operations of the last turn, as far as it has got
      obtain ⟨label, hget⟩ := (hreached.turns hturns).label?_of_pop hq hf hpop
      have hmakes₂ : Makes q settings measures ⟨.holding id, r₂⟩ (r₂.visit q settings id) :=
        makes_visit hget
      obtain ⟨m₂, hlater₂, hframe₂, -⟩ := hmakes₂
      rw [hvisit] at hframe₂
      exact ⟨m₂, (hlater₁.tail (.take id hpop)).trans hlater₂, hframe₂⟩

end Run

/-! ## What holds of every moment -/

/-- A stage fits the labels that there are, the settled slots being `order`. -/
def Stage.Fits (q : Query) (settings : Settings) (measures : List Measure) (f : Frontier)
    (order : List LabelId) : Stage → Prop
  | .starting times => order = [] ∧ ∀ time ∈ times, time ∈ q.startTimes
  | .choosing => True
  | .holding _ => True
  | .reporting id => id ∈ order ∧
    ∃ label, f.pool.get? id = some label ∧ q.target.isGoal label = true
  | .expanding id label refs => q.target.isGoal label = false ∧
    (∀ ref ∈ refs, ref ∈ q.graph.edgesAt label.node q.direction) ∧
    ∃ links, Frontier.Traced q settings measures f.pool order id label links ∧
      (id :: links.map (·.1)).Sublist order

/-- What holds of every moment, the settled slots being `order`, the last first. -/
structure Moment.Stands (q : Query) (settings : Settings) (measures : List Measure) (m : Moment)
    (order : List LabelId) : Prop where
  sound : Frontier.Sound q settings measures m.run.frontier order m.stage.held
  listed : m.run.frontier.Listed order m.stage.held
  fits : m.stage.Fits q settings measures m.run.frontier order

namespace Moment

/-- The first moment has no label stored and all starts still to be queued. -/
theorem first_stands (hf : f.Blank) : (first q f).Stands q settings measures [] :=
  ⟨hf.sound, hf.listed _, rfl, fun _ h => h⟩

/-- The slot that is dropped is released, and nothing else happens. -/
theorem frontier_drop (hget : r.frontier.label? id = some label)
    (hbeaten : r.frontier.beatenByResult label = true ∨
      r.frontier.beatenAtNode label q.direction = true)
    (h : r.visit q settings id = .ok r') : r'.frontier = r.frontier.discard id := by
  obtain ⟨r₁, h₁, hframe⟩ := Run.visit_of_beaten hget hbeaten
  rw [h] at h₁
  cases h₁
  exact hframe

/-- An operation keeps what holds of every moment, and settles labels without unsettling any. -/
theorem Next.stands (hq : q.Sound) (h : m.Stands q settings measures order)
    (hnext : Next q settings measures m m') :
    ∃ order', m'.Stands q settings measures order' ∧ ∀ id ∈ order, id ∈ order' := by
  obtain ⟨hs, hl, hfits⟩ := h
  cases hnext with
  | @start r r' time times hpush =>
    obtain ⟨rfl, htimes⟩ := hfits
    refine ⟨[], ⟨Run.pushStart_sound (htimes time List.mem_cons_self) hs hpush, ?_, rfl,
      fun t ht => htimes t (List.mem_cons_of_mem _ ht)⟩, fun _ h => h⟩
    rcases Run.frontier_pushStart hpush with ⟨-, heq⟩ | ⟨-, hpushed⟩
    · show r'.frontier.Listed [] []
      rw [heq]
      exact hl
    · exact hl.push hs.laid hpushed
  | started r => exact ⟨order, ⟨hs, hl, trivial⟩, fun _ h => h⟩
  | take id hpop =>
    exact ⟨order, ⟨(Run.pop_sound hs hpop).1, hl.pop hs hpop, trivial⟩, fun _ h => h⟩
  | @drop r r' id label hget hbeaten hvisit =>
    have heq := frontier_drop hget hbeaten hvisit
    refine ⟨order, ⟨?_, ?_, trivial⟩, fun _ h => h⟩
    · show Frontier.Sound q settings measures r'.frontier order []
      rw [heq]
      exact hs.discard.1
    · show r'.frontier.Listed order []
      rw [heq]
      exact hl.discard hs
  | @arrive r id label hget hfree hplace hgoal =>
    refine ⟨id :: order, ⟨hs.settle hq hget, hl.settle (hs.node_lt hq hget), ?_⟩,
      fun _ h => List.mem_cons_of_mem _ h⟩
    exact ⟨List.mem_cons_self, label, hget, hgoal⟩
  | report r id =>
    obtain ⟨hid, label, hget, hgoal⟩ := hfits
    refine ⟨order, ⟨?_, ?_, trivial⟩, fun _ h => h⟩
    · show Frontier.Sound q settings measures (r.report id).frontier order []
      rw [Run.frontier_report]
      refine hs.setResults fun other ho => ?_
      rcases Run.mem_insert_results ho with ho | rfl
      · exact Or.inl ho
      · exact Or.inr ⟨hid, label, hget, hgoal⟩
    · show (r.report id).frontier.Listed order []
      rw [Run.frontier_report]
      exact ⟨hl.settled, hl.used⟩
  | @settle r id label hget hfree hplace hgoal =>
    have hs' := hs.settle hq hget
    refine ⟨id :: order, ⟨hs', hl.settle (hs.node_lt hq hget), hgoal, fun _ h => h, ?_⟩,
      fun _ h => List.mem_cons_of_mem _ h⟩
    exact hs'.traced_of_passed List.mem_cons_self hget
  | @edge r r' id label ref refs hpush =>
    obtain ⟨hgoal, hrefs, links, ht, hsub⟩ := hfits
    obtain ⟨hs', ht', -, -⟩ :=
      Run.pushEdge_sound hs ht hsub hgoal (hrefs ref List.mem_cons_self) hpush
    refine ⟨order, ⟨hs', ?_, hgoal, fun r hr => hrefs r (List.mem_cons_of_mem _ hr), links, ht',
      hsub⟩, fun _ h => h⟩
    rcases Run.frontier_pushEdge hpush with ⟨-, heq⟩ | ⟨next, -, ⟨-, heq⟩ | ⟨-, hpushed⟩⟩
    · show r'.frontier.Listed order []
      rw [heq]
      exact hl
    · show r'.frontier.Listed order []
      rw [heq]
      exact hl
    · exact hl.push hs.laid hpushed
  | expanded r id label => exact ⟨order, ⟨hs, hl, trivial⟩, fun _ h => h⟩

/-! ## What an operation does to the slots -/

/-- The label that an operation may put into a slot. -/
inductive Fills (q : Query) (settings : Settings) (measures : List Measure) :
    Stage → Label → Prop
  | start (time : Time) (times : List Time) (htime : time ∈ q.startTimes) :
      Fills q settings measures (.starting (time :: times)) (Run.startLabel q measures time)
  | edge (id : LabelId) (label next : Label) (ref : EdgeRef) (refs : List EdgeRef)
      (h : Run.expandEdge q settings id label ref = .ok (some next)) :
      Fills q settings measures (.expanding id label (ref :: refs)) next

/-- From one moment to another the labels in some slots stay, and a slot that has a
label has had it before, unless it was not in use and has just been filled. -/
def Slots (q : Query) (settings : Settings) (measures : List Measure) (order : List LabelId)
    (m m' : Moment) : Prop :=
  (∀ id ∈ order, m'.label? id = m.label? id) ∧
    ∀ id label, m'.label? id = some label → m.label? id = some label ∨
      m.label? id = none ∧ Fills q settings measures m.stage label

/-- An operation that does not touch the pool leaves every slot. -/
theorem Slots.of_pool_eq (h : m'.run.frontier.pool = m.run.frontier.pool) :
    Slots q settings measures order m m' := by
  have hsame : ∀ id, m'.label? id = m.label? id := fun id => congrArg (·.get? id) h
  exact ⟨fun id _ => hsame id, fun id label hget => Or.inl ((hsame id).symm.trans hget)⟩

/-- An operation that queues a label fills a slot that was not in use. -/
theorem Slots.of_push (h : m.Stands q settings measures order)
    (hpush : m.run.frontier.push label = (true, m'.run.frontier))
    (hfills : Fills q settings measures m.stage label) :
    Slots q settings measures order m m' := by
  obtain ⟨id, hfree, hnew, hother, -⟩ := Frontier.push_spec h.sound.laid hpush
  constructor
  · intro other ho
    apply hother
    rintro rfl
    obtain ⟨l, hl⟩ := h.sound.isSome (List.mem_append_left _ ho)
    rw [hfree] at hl
    cases hl
  · intro other l hl
    by_cases hid : other = id
    · have hl' : m'.run.frontier.pool.get? other = some l := hl
      rw [hid, hnew] at hl'
      cases hl'
      exact Or.inr ⟨by rw [hid]; exact hfree, hfills⟩
    · exact Or.inl ((hother other hid).symm.trans hl)

/-- Every operation leaves the settled slots and fills none but an unused one. -/
theorem Next.slots (h : m.Stands q settings measures order)
    (hnext : Next q settings measures m m') : Slots q settings measures order m m' := by
  cases hnext with
  | @start r r' time times hpush =>
    obtain ⟨-, htimes⟩ := h.fits
    rcases Run.frontier_pushStart hpush with ⟨-, heq⟩ | ⟨-, hpushed⟩
    · exact .of_pool_eq (by rw [heq])
    · exact .of_push h hpushed (.start time times (htimes time List.mem_cons_self))
  | started r => exact .of_pool_eq rfl
  | take id hpop => exact .of_pool_eq (by rw [(Run.frontier_pop hpop).2])
  | @drop r r' id label hget hbeaten hvisit =>
    have heq := frontier_drop hget hbeaten hvisit
    obtain ⟨hnone, hother, -⟩ := Pool.dealloc_spec h.sound.laid hget
    constructor
    · intro other ho
      show r'.frontier.pool.get? other = r.frontier.pool.get? other
      rw [heq]
      exact hother other (h.sound.ne_of_held (List.mem_append_left _ ho))
    · intro other l hl
      have hl' : r'.frontier.pool.get? other = some l := hl
      rw [heq] at hl'
      have hne : other ≠ id := by
        rintro rfl
        have hl₂ : (r.frontier.pool.dealloc other).2.get? other = some l := hl'
        rw [hnone] at hl₂
        cases hl₂
      exact Or.inl ((hother other hne).symm.trans hl')
  | arrive hget hfree hplace hgoal => exact .of_pool_eq rfl
  | report r id => exact .of_pool_eq (by rw [Run.frontier_report])
  | settle hget hfree hplace hgoal => exact .of_pool_eq rfl
  | @edge r r' id label ref refs hpush =>
    rcases Run.frontier_pushEdge hpush with ⟨-, heq⟩ | ⟨next, hnext, ⟨-, heq⟩ | ⟨-, hpushed⟩⟩
    · exact .of_pool_eq (by rw [heq])
    · exact .of_pool_eq (by rw [heq])
    · exact .of_push h hpushed (.edge id label next ref refs hnext)
  | expanded r id label => exact .of_pool_eq rfl

/-! ## Along a search -/

/-- Settled labels stay settled, and stay as they are. -/
theorem Later.stands (hq : q.Sound) (h : m.Stands q settings measures order)
    (hlater : Later q settings measures m m') :
    ∃ order', m'.Stands q settings measures order' ∧
      ∀ id ∈ order, id ∈ order' ∧ m'.label? id = m.label? id := by
  induction hlater with
  | refl => exact ⟨order, h, fun id hid => ⟨hid, rfl⟩⟩
  | tail _ hnext ih =>
    obtain ⟨order₁, h₁, hkeep₁⟩ := ih
    obtain ⟨order₂, h₂, hkeep₂⟩ := hnext.stands hq h₁
    refine ⟨order₂, h₂, fun id hid => ?_⟩
    obtain ⟨hid₁, hsame₁⟩ := hkeep₁ id hid
    exact ⟨hkeep₂ id hid₁, ((hnext.slots h₁).1 id hid₁).trans hsame₁⟩

/-- Something holds from one moment to another. -/
def Throughout (q : Query) (settings : Settings) (measures : List Measure) (P : Moment → Prop)
    (m m' : Moment) : Prop :=
  P m ∧ ReflTransGen (fun a b => Next q settings measures a b ∧ P b) m m'

/-- What holds throughout leads from the one moment to the other. -/
theorem Throughout.later {P : Moment → Prop} (h : Throughout q settings measures P m m') :
    Later q settings measures m m' := h.2.lift id fun _ _ hnext => hnext.1

/-- What holds of all later moments holds throughout. -/
theorem Throughout.and {P Q : Moment → Prop} (h : Throughout q settings measures P m m')
    (hall : ∀ m', Later q settings measures m m' → Q m') :
    Throughout q settings measures (fun m => P m ∧ Q m) m m' := by
  obtain ⟨hp, hlater⟩ := h
  refine ⟨⟨hp, hall m .refl⟩, ?_⟩
  induction hlater with
  | refl => exact .refl
  | @tail b c hbefore hnext ih =>
    have hc : Later q settings measures m c :=
      (hbefore.lift id fun _ _ hn => hn.1).tail hnext.1
    exact ih.tail ⟨hnext.1, hnext.2, hall c hc⟩

/-- Every label was put into its slot when that was not in use, and has been there
since. -/
theorem Later.filled (hq : q.Sound) (hf : f.Blank)
    (hlater : Later q settings measures (first q f) m) (hget : m.label? id = some label) :
    ∃ m₁ m₂, Later q settings measures (first q f) m₁ ∧ Next q settings measures m₁ m₂ ∧
      m₁.label? id = none ∧ Fills q settings measures m₁.stage label ∧
      Throughout q settings measures (fun m => m.label? id = some label) m₂ m := by
  induction hlater with
  | refl =>
    have hget' : f.pool.get? id = some label := hget
    rw [hf.unused id] at hget'
    cases hget'
  | @tail m m' hbefore hnext ih =>
    obtain ⟨order, h, -⟩ := Later.stands hq (first_stands hf) hbefore
    rcases (hnext.slots h).2 id label hget with hold | ⟨hfree, hfills⟩
    · obtain ⟨m₁, m₂, hm₁, hnext₁, hfree, hfills, hp, hsince⟩ := ih hold
      exact ⟨m₁, m₂, hm₁, hnext₁, hfree, hfills, hp, hsince.tail ⟨hnext, hget⟩⟩
    · exact ⟨m, m', hbefore, hnext, hfree, hfills, hget, .refl⟩

end Moment

end JourneyPlanner
