import JourneyPlanner.Proofs.Search.Moments
import Mathlib.Data.Finset.Lattice.Fold
import Mathlib.Data.Finset.Range

/-!
# What a search counts

A label is created and waits in the queue; it is popped, and then dropped or settled.
Counters and storage tell this each in their own way, and `Run.Balanced` says that they
agree: what was created has been popped or waits, what was popped has been dropped or is
settled, and a slot is in use for each label that waits or is settled, for no other.

Only two things happen to the counters. Queueing labels adds as many to what was created,
to the queue and to the slots, and touches nothing else (`Run.Gains`); this is so for
start labels and for edges, and no less where a fault ends it. Handling a label moves it
from those that are held to those that were popped (`Run.visit_tallies`).

So between any two passes of a loop it can be told how many labels there are, and how many
were created over the edges of each that is settled (`Run.Steady.passes`).
-/

namespace JourneyPlanner

open Relation (ReflTransGen)

/-! ## Storage -/

namespace Frontier

/-- How many labels are settled, at all nodes together. -/
def settledCount (f : Frontier) : Nat := (f.settled.toList.map List.length).sum

/-- A label that is settled at a node there is counts as one more. -/
theorem settledCount_settle {f : Frontier} {node : NodeId} (id : LabelId)
    (h : node < f.settled.size) : (f.settle node id).settledCount = f.settledCount + 1 := by
  have hnode : f.settled.toList[node]? = some f.settled[node] := by
    rw [Array.getElem?_toList]
    exact Array.getElem?_eq_getElem h
  have hlen := (BucketQueue.flatten_modify_perm hnode (id :: ·)).length_eq
  rw [← Array.toList_modify, List.length_append, List.length_append, List.length_flatten,
    List.length_flatten, List.length_cons] at hlen
  show ((f.settled.modify node (id :: ·)).toList.map List.length).sum =
    (f.settled.toList.map List.length).sum + 1
  omega

/-- As many labels are settled as the order lists. -/
theorem Listed.settledCount_eq {f : Frontier} {order held : List LabelId}
    (h : f.Listed order held) : f.settledCount = order.length := by
  unfold settledCount
  rw [← List.length_flatten]
  exact h.settled.length_eq

/-- The queue counts as many labels as it holds. -/
theorem Sound.size_eq {q : Query} {settings : Settings} {measures : List Measure} {f : Frontier}
    {order held : List LabelId} (h : Sound q settings measures f order held) :
    f.queue.size = f.queued.length := by
  unfold queued
  rw [List.length_map]
  exact h.queue.count_eq

end Frontier

/-- A label that is placed is at a node there is. -/
theorem Label.Placed.node_lt {nodes : Array Node} {label : Label} (h : label.Placed nodes) :
    label.node < nodes.size := by
  by_cases hfoot : label.OnFoot
  · exact (h.station hfoot).lt_size
  · exact (h.stop hfoot).lt_size

namespace Run

variable {q : Query} {settings : Settings} {measures : List Measure} {r r' r₁ r₂ : Run}
  {f : Frontier} {held n m : Nat}

/-- Counters and storage agree, with so many labels out of the queue and still to be
handled. -/
structure Balanced (held : Nat) (r : Run) : Prop where
  created : r.statistics.labelsCreated =
    r.statistics.labelsPopped + held + r.frontier.queue.size
  popped : r.statistics.labelsPopped =
    r.statistics.dominatedByResults + r.statistics.dominatedAtNode + r.frontier.settledCount
  slots : r.frontier.pool.size = held + r.frontier.queue.size + r.frontier.settledCount

/-- Before the start nothing has been counted, and nothing is stored. -/
theorem opening_balanced (h : f.Blank) : (Run.opening q f).Balanced 0 := by
  have hsettled : (Run.opening q f).frontier.settledCount = 0 :=
    (h.listed q.graph.timetable.nodes.size).settledCount_eq
  have hqueue : f.queue.size = 0 := by
    have hcount := h.queue.count_eq
    rw [h.items_eq] at hcount
    exact hcount
  constructor
  · show 0 = 0 + 0 + f.queue.size
    omega
  · show 0 = 0 + 0 + (Run.opening q f).frontier.settledCount
    omega
  · show f.pool.live = 0 + f.queue.size + (Run.opening q f).frontier.settledCount
    rw [h.live_eq]
    omega

/-! ## Queueing labels -/

/-- So many labels have been queued, and nothing else has been counted or settled. -/
structure Gains (n : Nat) (r r' : Run) : Prop where
  created : r'.statistics.labelsCreated = r.statistics.labelsCreated + n
  queued : r'.frontier.queue.size = r.frontier.queue.size + n
  slots : r'.frontier.pool.size = r.frontier.pool.size + n
  popped : r'.statistics.labelsPopped = r.statistics.labelsPopped
  byResults : r'.statistics.dominatedByResults = r.statistics.dominatedByResults
  atNode : r'.statistics.dominatedAtNode = r.statistics.dominatedAtNode
  spent : r'.statistics.budgetSpent = r.statistics.budgetSpent
  settled : r'.frontier.settled = r.frontier.settled

/-- Leaving a run alone queues nothing. -/
theorem Gains.refl (r : Run) : Gains 0 r r := ⟨rfl, rfl, rfl, rfl, rfl, rfl, rfl, rfl⟩

/-- Labels queued in two goes add up. -/
theorem Gains.trans (h : Gains n r r₁) (h' : Gains m r₁ r₂) : Gains (n + m) r r₂ where
  created := by rw [h'.created, h.created, Nat.add_assoc]
  queued := by rw [h'.queued, h.queued, Nat.add_assoc]
  slots := by rw [h'.slots, h.slots, Nat.add_assoc]
  popped := h'.popped.trans h.popped
  byResults := h'.byResults.trans h.byResults
  atNode := h'.atNode.trans h.atNode
  spent := h'.spent.trans h.spent
  settled := h'.settled.trans h.settled

/-- Queueing labels settles none. -/
theorem Gains.settledCount_eq (h : Gains n r r') :
    r'.frontier.settledCount = r.frontier.settledCount := by
  unfold Frontier.settledCount
  rw [h.settled]

/-- A label that is queued is counted and stored as one, so that both still agree. -/
theorem Gains.balanced (h : Gains n r r') (hr : r.Balanced held) : r'.Balanced held where
  created := by
    rw [h.created, hr.created, h.popped, h.queued]
    omega
  popped := by
    rw [h.popped, hr.popped, h.byResults, h.atNode, h.settledCount_eq]
  slots := by
    rw [h.slots, hr.slots, h.queued, h.settledCount_eq]
    omega

/-- A label that is left out for the limits is not queued. -/
theorem gains_countFiltered (r : Run) : Gains 0 r r.countFiltered :=
  ⟨rfl, rfl, rfl, rfl, rfl, rfl, rfl, rfl⟩

/-- Where there is no slot for a label, nothing at all has happened. -/
theorem gains_push (r : Run) (label : Label) : ∃ n ≤ 1, Gains n r (left (r.push label)) := by
  cases h : r.push label with
  | error halt =>
    refine ⟨0, Nat.zero_le 1, ?_⟩
    have hframe := frontier_of_push_error h
    unfold Run.push at h
    dsimp only at h
    split at h
    · cases h
      refine ⟨rfl, congrArg (·.queue.size) hframe, congrArg (·.pool.size) hframe, rfl, rfl, rfl,
        rfl, congrArg (·.settled) hframe⟩
    · cases h
  | ok r' =>
    refine ⟨1, Nat.le_refl 1, ?_⟩
    obtain ⟨id, halloc, hqueue, hsettled, -⟩ := Frontier.push_eq_true (frontier_push h)
    have hslots := Pool.size_of_alloc halloc
    have hqueued : r'.frontier.queue.size = r.frontier.queue.size + 1 := by
      rw [hqueue, BucketQueue.size_push]
    unfold Run.push at h
    dsimp only at h
    split at h
    · cases h
    · cases h
      exact ⟨rfl, hqueued, hslots, rfl, rfl, rfl, rfl, hsettled⟩

/-- A start queues one label at most. -/
theorem gains_pushStart (r : Run) (time : Time) :
    ∃ n ≤ 1, Gains n r (left (pushStart q settings measures r time)) := by
  unfold pushStart
  dsimp only
  split
  · exact ⟨0, Nat.zero_le 1, gains_countFiltered r⟩
  · obtain ⟨n, hn, hgains⟩ := gains_push r (startLabel q measures time)
    cases hpush : r.push (startLabel q measures time) with
    | error halt =>
      rw [hpush] at hgains
      exact ⟨n, hn, hgains⟩
    | ok r' =>
      rw [hpush] at hgains
      exact ⟨n, hn, hgains.created, hgains.queued, hgains.slots, hgains.popped, hgains.byResults,
        hgains.atNode, hgains.spent, hgains.settled⟩

/-- An edge queues one label at most. -/
theorem gains_pushEdge (id : LabelId) (label : Label) (r : Run) (ref : EdgeRef) :
    ∃ n ≤ 1, Gains n r (left (pushEdge q settings id label r ref)) := by
  unfold pushEdge
  split
  · exact ⟨0, Nat.zero_le 1, .refl r⟩
  · exact ⟨0, Nat.zero_le 1, .refl r⟩
  · next next _ =>
    split
    · exact ⟨0, Nat.zero_le 1, gains_countFiltered r⟩
    · exact gains_push r next

/-- Items that queue a label each at most, up to the last or to the first that fails. -/
theorem gains_foldlM {α : Type} {step : Run → α → Except Halt Run}
    (hstep : ∀ r a, ∃ n ≤ 1, Gains n r (left (step r a))) (l : List α) (r : Run) :
    ∃ n ≤ l.length, Gains n r (left (l.foldlM step r)) := by
  induction l generalizing r with
  | nil => exact ⟨0, Nat.zero_le _, .refl r⟩
  | cons a l ih =>
    obtain ⟨n, hn, hgains⟩ := hstep r a
    rw [List.foldlM_cons, List.length_cons]
    cases hr : step r a with
    | error halt =>
      rw [hr] at hgains
      exact ⟨n, by omega, hgains⟩
    | ok r₁ =>
      rw [hr] at hgains
      obtain ⟨m, hm, hrest⟩ := ih r₁
      exact ⟨n + m, by omega, hgains.trans hrest⟩

/-- The starts queue no more labels than there are start times. -/
theorem gains_start (q : Query) (settings : Settings) (measures : List Measure) (f : Frontier) :
    ∃ n ≤ q.startTimes.length,
      Gains n (Run.opening q f) (left (Run.start q settings measures f)) :=
  gains_foldlM gains_pushStart q.startTimes (Run.opening q f)

/-- An expansion queues no more labels than the node has edges. -/
theorem gains_expand (q : Query) (settings : Settings) (r : Run) (id : LabelId) (label : Label) :
    ∃ n ≤ (q.graph.edgesAt label.node q.direction).length,
      Gains n r (left (r.expand q settings id label)) :=
  gains_foldlM (gains_pushEdge id label) _ r

/-! ## Handling a label -/

/-- A report changes the results, and none of what is counted. -/
theorem gains_report (r : Run) (id : LabelId) : Gains 0 r (r.report id) := by
  unfold Run.report
  dsimp only
  split <;> exact ⟨rfl, rfl, rfl, rfl, rfl, rfl, rfl, rfl⟩

/-- What is done at the end changes none of what is counted. -/
theorem gains_finish (r : Run) : Gains 0 r r.finish := by
  unfold Run.finish
  split <;> exact ⟨rfl, rfl, rfl, rfl, rfl, rfl, rfl, rfl⟩

/-- The queue gives up a label without counting it. -/
theorem statistics_pop {next : Option LabelId} (h : r.pop = (next, r')) :
    r'.statistics = r.statistics := (congrArg (·.2.statistics) h).symm

/-- A label taken from the queue is held, and not yet counted as popped. -/
theorem Balanced.pop {order : List LabelId} {id : LabelId} (h : r.Balanced 0)
    (hs : Frontier.Sound q settings measures r.frontier order []) (hpop : r.pop = (some id, r')) :
    r'.Balanced 1 ∧ r'.frontier.settledCount = r.frontier.settledCount := by
  obtain ⟨hs', hperm, hpool, hsettled, -⟩ := pop_sound hs hpop
  have hstats := statistics_pop hpop
  have hcount : r'.frontier.settledCount = r.frontier.settledCount := by
    unfold Frontier.settledCount
    rw [hsettled]
  have hsize : r.frontier.queue.size = r'.frontier.queue.size + 1 := by
    rw [hs.size_eq, hs'.size_eq, hperm.length_eq, List.length_cons]
  have hcreated := h.created
  have hslots := h.slots
  refine ⟨⟨?_, ?_, ?_⟩, hcount⟩
  · rw [hstats]
    omega
  · rw [hstats, hcount]
    exact h.popped
  · rw [hpool, hcount]
    omega

/-- A label that is settled is popped, and held no longer. -/
theorem Balanced.settle {label : Label} (h : r.Balanced 1) (id : LabelId)
    (hroom : label.node < r.frontier.settled.size) : (r.settled label.node id).Balanced 0 := by
  have hcount : (r.settled label.node id).frontier.settledCount = r.frontier.settledCount + 1 :=
    Frontier.settledCount_settle id hroom
  have hc := h.created
  have hp := h.popped
  have hs := h.slots
  constructor
  · show r.statistics.labelsCreated = r.statistics.labelsPopped + 1 + 0 + r.frontier.queue.size
    omega
  · rw [hcount]
    show r.statistics.labelsPopped + 1 = r.statistics.dominatedByResults +
      r.statistics.dominatedAtNode + (r.frontier.settledCount + 1)
    omega
  · rw [hcount]
    show r.frontier.pool.size = 0 + r.frontier.queue.size + (r.frontier.settledCount + 1)
    omega

/-- A label that is beaten is counted once, for a result or for a label at its node. -/
theorem visit_of_beaten_eq (settings : Settings) {id : LabelId} {label : Label}
    (hget : r.frontier.label? id = some label)
    (hbeaten : r.frontier.beatenByResult label = true ∨
      r.frontier.beatenAtNode label q.direction = true) :
    ∃ r', r.visit q settings id = .ok r' ∧ r'.frontier = r.frontier.discard id ∧
      r'.statistics.labelsCreated = r.statistics.labelsCreated ∧
      r'.statistics.labelsPopped = r.statistics.labelsPopped + 1 ∧
      r'.statistics.dominatedByResults + r'.statistics.dominatedAtNode =
        r.statistics.dominatedByResults + r.statistics.dominatedAtNode + 1 ∧
      r'.statistics.budgetSpent = r.statistics.budgetSpent := by
  unfold Run.visit
  rw [hget]
  dsimp only
  by_cases hfree : r.frontier.beatenByResult label = true
  · rw [if_pos hfree]
    exact ⟨_, rfl, rfl, rfl, rfl, Nat.add_right_comm _ _ _, rfl⟩
  · rw [if_neg hfree, if_pos (hbeaten.resolve_left hfree)]
    exact ⟨_, rfl, rfl, rfl, rfl, rfl, rfl⟩

/-- What handling a label comes to in numbers, if its node has no more than so many
edges. -/
structure Tallies (edges : Nat) (r r' : Run) : Prop where
  balanced : r'.Balanced 0
  popped : r'.statistics.labelsPopped = r.statistics.labelsPopped + 1
  spent : r'.statistics.budgetSpent = r.statistics.budgetSpent
  /-- Only a label that is settled is expanded. -/
  created : r'.statistics.labelsCreated + edges * r.frontier.settledCount ≤
    r.statistics.labelsCreated + edges * r'.frontier.settledCount

/-- Queueing labels after one has been settled. -/
theorem Gains.tallies {edges : Nat} {label : Label} {id : LabelId} (hr : r.Balanced 1)
    (hroom : label.node < r.frontier.settled.size) (hn : n ≤ edges)
    (h : Gains n (r.settled label.node id) r') : Tallies edges r r' where
  balanced := h.balanced (hr.settle id hroom)
  popped := h.popped
  spent := h.spent
  created := by
    have hcount : (r.settled label.node id).frontier.settledCount =
        r.frontier.settledCount + 1 := Frontier.settledCount_settle id hroom
    have hcreated : r'.statistics.labelsCreated = r.statistics.labelsCreated + n := h.created
    rw [h.settledCount_eq, hcount, hcreated, Nat.mul_add, Nat.mul_one]
    omega

/-- Handling a label, to its end or up to a fault. -/
theorem visit_tallies (settings : Settings) {id : LabelId} {label : Label} {edges : Nat}
    (h : r.Balanced 1)
    (hlaid : r.frontier.pool.Laid) (hget : r.frontier.label? id = some label)
    (hroom : label.node < r.frontier.settled.size)
    (hedges : (q.graph.edgesAt label.node q.direction).length ≤ edges) :
    Tallies edges r (left (r.visit q settings id)) := by
  by_cases hbeaten : r.frontier.beatenByResult label = true ∨
      r.frontier.beatenAtNode label q.direction = true
  · obtain ⟨r', hr', hframe, hcreated, hpopped, hdropped, hspent⟩ :=
      visit_of_beaten_eq settings hget hbeaten
    have hlive : r'.frontier.pool.live = r.frontier.pool.live - 1 := by
      rw [hframe]
      exact (Pool.dealloc_spec hlaid hget).2.2.2
    have hqueue : r'.frontier.queue.size = r.frontier.queue.size := by rw [hframe]; rfl
    have hcount : r'.frontier.settledCount = r.frontier.settledCount := by rw [hframe]; rfl
    rw [hr', left_ok]
    have hc := h.created
    have hp := h.popped
    have hs : r.frontier.pool.live = 1 + r.frontier.queue.size + r.frontier.settledCount := h.slots
    refine ⟨⟨by omega, by omega, ?_⟩, hpopped, hspent, by rw [hcreated, hcount]⟩
    show r'.frontier.pool.live = 0 + r'.frontier.queue.size + r'.frontier.settledCount
    omega
  · rw [not_or, Bool.not_eq_true, Bool.not_eq_true] at hbeaten
    rw [visit_of_kept hget hbeaten.1 hbeaten.2]
    split
    · exact (gains_report _ id).tallies h hroom (Nat.zero_le edges)
    · obtain ⟨n, hn, hgains⟩ := gains_expand q settings
        (r.settled label.node id) id label
      exact hgains.tallies h hroom (hn.trans hedges)

/-- A turn, to its end or up to a fault, from a state of a search. -/
theorem Reached.tallies (hq : q.Sound) (hf : f.Blank) (h : Reached q settings measures f r)
    (hr : r.Balanced 0) {id : LabelId} (hpop : r.pop = (some id, r₁)) {edges : Nat}
    (hedges : ∀ node < q.graph.timetable.nodes.size,
      (q.graph.edgesAt node q.direction).length ≤ edges) :
    Tallies edges r (left (r₁.visit q settings id)) := by
  obtain ⟨order, label, links, hs, hs₁, ht⟩ := h.popped hq hf hpop
  have hnode : label.node < q.graph.timetable.nodes.size := (ht.trail.placed hq).node_lt
  obtain ⟨hr₁, hcount⟩ := hr.pop hs hpop
  have hstats := statistics_pop hpop
  have htallies := visit_tallies settings hr₁ hs₁.laid ht.get?
    (Nat.lt_of_lt_of_le hnode hs₁.room) (hedges label.node hnode)
  refine ⟨htallies.balanced, ?_, ?_, ?_⟩
  · rw [htallies.popped, hstats]
  · rw [htallies.spent, hstats]
  · have := htallies.created
    rw [hstats, hcount] at this
    exact this

/-! ## Turns as passes -/

/-- A queue that gave up a label was not empty. -/
theorem queue_of_pop {id : LabelId} (h : r.pop = (some id, r')) :
    r.frontier.queue.isEmpty = false := by
  refine Bool.eq_false_iff.2 fun hempty => ?_
  have hnext := (frontier_pop h).1
  unfold BucketQueue.pop at hnext
  rw [if_pos hempty] at hnext
  cases hnext

/-- As long as the budget lasts, turns are passes. -/
theorem passes_of_turns? {turns : Nat} (budget : Nat) (h : turns? q settings turns r = some r') :
    ReflTransGen (Pass q settings) (budget + turns, r) (budget, r') := by
  induction turns generalizing r with
  | zero =>
    cases h
    exact .refl
  | succ turns ih =>
    obtain ⟨r₁, ⟨id, r₀, hpop, hvisit⟩, h⟩ := turn_of_turns? h
    exact .head (.mk (queue_of_pop hpop) hpop hvisit) (ih h)

/-! ## What passes keep -/

/-- What holds between two passes of a loop that may handle so many labels: counters and
storage agree, each label that was popped has taken one from the budget, and apart from
the labels of starts none was created but over the edges of settled ones. -/
structure Steady (starts edges allowed : Nat) (s : Nat × Run) : Prop where
  balanced : s.2.Balanced 0
  popped : s.2.statistics.labelsPopped + s.1 = allowed
  unspent : s.2.statistics.budgetSpent = false
  created : s.2.statistics.labelsCreated ≤ starts + edges * s.2.frontier.settledCount

/-- No node has more edges than some number. -/
theorem exists_edges (q : Query) : ∃ edges, ∀ node < q.graph.timetable.nodes.size,
    (q.graph.edgesAt node q.direction).length ≤ edges :=
  ⟨_, fun _ hnode => Finset.le_sup (f := fun node => (q.graph.edgesAt node q.direction).length)
    (Finset.mem_range.2 hnode)⟩

/-- After the starts the whole budget is left, and the starts are all that was created. -/
theorem steady_start (hf : f.Blank) (h : Run.start q settings measures f = .ok r)
    (edges allowed : Nat) : Steady q.startTimes.length edges allowed (allowed, r) := by
  obtain ⟨n, hn, hgains⟩ := gains_start q settings measures f
  rw [h, left_ok] at hgains
  refine ⟨hgains.balanced (opening_balanced hf), ?_, hgains.spent, ?_⟩
  · show r.statistics.labelsPopped + allowed = allowed
    rw [hgains.popped]
    exact Nat.zero_add allowed
  · show r.statistics.labelsCreated ≤ _
    rw [hgains.created]
    show 0 + n ≤ _
    omega

variable {starts edges allowed : Nat}

/-- A pass takes one from the budget and creates at most the edges of the label it settles. -/
theorem Steady.pass (hq : q.Sound) (hf : f.Blank)
    (hedges : ∀ node < q.graph.timetable.nodes.size,
      (q.graph.edgesAt node q.direction).length ≤ edges) {s s' : Nat × Run}
    (h : Reached q settings measures f s.2) (hs : Steady starts edges allowed s)
    (hpass : Pass q settings s s') : Steady starts edges allowed s' := by
  cases hpass with
  | mk hqueue hpop hvisit =>
    have htallies := h.tallies hq hf hs.balanced hpop hedges
    rw [hvisit, left_ok] at htallies
    have hpopped := hs.popped
    have hcreated := hs.created
    have hgrown := htallies.created
    refine ⟨htallies.balanced, ?_, htallies.spent.trans hs.unspent, ?_⟩
    · rw [htallies.popped]
      omega
    · dsimp only at hcreated hgrown ⊢
      omega

/-- However many passes there are, counters, storage and budget agree between them. -/
theorem Steady.passes (hq : q.Sound) (hf : f.Blank)
    (hedges : ∀ node < q.graph.timetable.nodes.size,
      (q.graph.edgesAt node q.direction).length ≤ edges) {s s' : Nat × Run}
    (h : Reached q settings measures f s.2) (hs : Steady starts edges allowed s)
    (hpasses : ReflTransGen (Pass q settings) s s') : Steady starts edges allowed s' := by
  induction hpasses with
  | refl => exact hs
  | tail hpasses hpass ih => exact ih.pass hq hf hedges (h.passes hpasses) hpass

end Run

end JourneyPlanner
