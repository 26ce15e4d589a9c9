import JourneyPlanner.Proofs.Search.Frontier
import Mathlib.Logic.Relation

/-!
# The states of a search

`Run.Reached` holds of the states in which a search stands when its start labels
are queued and whenever a label has been handled. What a search answers with is
one of them, whether the queue ran empty or the budget was spent
(`Run.reached_of_run`), and the labels of each are sound (`Run.Reached.sound`).

Handling a label changes the frontier in one of three ways, which `Visits` lists.
A step of any later induction over states is a case analysis of that list. A `Turn` takes
one label from the queue and handles it.

`Run.Pass` is one pass of the loop, a turn with what is left of the budget, and `Run.Ends`
how the loop ends where no pass follows. Every loop makes passes and ends
(`Run.Reached.loop_ends`), so that what is said of a loop is said of a pass and of an end.
-/

namespace JourneyPlanner

/-! ## Storage without labels -/

namespace Frontier

/-- Storage that holds no label. -/
structure Blank (f : Frontier) : Prop where
  laid : f.pool.Laid
  unused : ∀ id, f.pool.get? id = none
  live_eq : f.pool.live = 0
  queue : f.queue.Sound
  items_eq : f.queue.items = []
  settled : ∀ node, f.settledAt node = []
  results_eq : f.results = []

/-- New storage holds no label. -/
theorem new_blank (settings : Settings) : (new settings).Blank :=
  ⟨Pool.new_laid _, (Pool.new_laid _).get?_eq_none rfl, rfl, BucketQueue.new_sound _ _, rfl,
    fun _ => rfl, rfl⟩

/-- Storage that has been reset holds no label, whatever it held before. -/
theorem reset_blank {f : Frontier} (h : f.pool.Laid) (settings : Settings) :
    (f.reset settings).Blank := by
  refine ⟨Pool.clear_laid h, (Pool.clear_laid h).get?_eq_none rfl, rfl,
    BucketQueue.new_sound _ _, rfl, fun node => ?_, rfl⟩
  unfold Frontier.settledAt Frontier.reset
  rw [Array.getElem?_map]
  cases f.settled[node]? <;> rfl

variable {q : Query} {settings : Settings} {measures : List Measure}

/-- Storage without a label is sound before any has been queued. -/
theorem Blank.sound {f : Frontier} (h : f.Blank) :
    Sound q settings measures (f.withNodes q.graph.timetable.nodes.size) [] [] := by
  have hqueued : (f.withNodes q.graph.timetable.nodes.size).queued = [] := queued_eq_nil h.items_eq
  have hsettled : ∀ node, (f.withNodes q.graph.timetable.nodes.size).settledAt node = [] := by
    intro node
    have hold := h.settled node
    unfold Frontier.settledAt Frontier.withNodes at *
    rw [Array.getElem?_append]
    split
    · exact hold
    · rw [Array.getElem?_replicate]
      split <;> rfl
  refine ⟨h.laid, h.queue, ?_, ?_, ?_, by simp, ?_, ?_, ?_⟩
  · rw [hqueued]
    exact List.nodup_nil
  · rw [hqueued]
    exact h.live_eq
  · rw [hqueued]
    simp
  · intro node id
    rw [hsettled]
    simp
  · intro id hid
    have hid' : id ∈ f.results := hid
    rw [h.results_eq] at hid'
    cases hid'
  · show _ ≤ (f.settled ++ Array.replicate _ _).size
    rw [Array.size_append, Array.size_replicate]
    omega

end Frontier

namespace Run

open Relation (ReflTransGen)

variable {q : Query} {settings : Settings} {measures : List Measure} {r r' : Run}
  {order held : List LabelId}

/-- A search before its first start label is queued. -/
def opening (q : Query) (f : Frontier) : Run :=
  { frontier := f.withNodes q.graph.timetable.nodes.size, statistics := {}, lastResultPop := 0 }

/-! ## Queueing -/

/-- A run that enters a label enters it in its storage. -/
theorem frontier_push {label : Label} (h : r.push label = .ok r') :
    r.frontier.push label = (true, r'.frontier) := by
  unfold Run.push at h
  dsimp only at h
  split at h
  · cases h
  · next f hf =>
    cases h
    exact hf

/-- An edge that has been dealt with led nowhere, or beyond a limit, or to a
label that is in the queue. -/
theorem frontier_pushEdge {id : LabelId} {label : Label} {ref : EdgeRef}
    (h : pushEdge q settings id label r ref = .ok r') :
    (expandEdge q settings id label ref = .ok none ∧ r'.frontier = r.frontier) ∨
    ∃ next, expandEdge q settings id label ref = .ok (some next) ∧
      ((next.criteria.isBeyond settings = true ∧ r'.frontier = r.frontier) ∨
        (next.criteria.isBeyond settings = false ∧
          r.frontier.push next = (true, r'.frontier))) := by
  unfold pushEdge at h
  split at h
  · cases h
  · next hnone =>
    cases h
    exact Or.inl ⟨hnone, rfl⟩
  · next next hnext =>
    refine Or.inr ⟨next, hnext, ?_⟩
    split at h
    · next hbeyond =>
      cases h
      exact Or.inl ⟨hbeyond, rfl⟩
    · next hbeyond => exact Or.inr ⟨Bool.eq_false_iff.2 hbeyond, frontier_push h⟩

/-- A start is left out for the limits, or its label is queued. -/
theorem frontier_pushStart {time : Time} (h : pushStart q settings measures r time = .ok r') :
    ((startLabel q measures time).criteria.isBeyond settings = true ∧ r'.frontier = r.frontier) ∨
    ((startLabel q measures time).criteria.isBeyond settings = false ∧
      r.frontier.push (startLabel q measures time) = (true, r'.frontier)) := by
  unfold pushStart at h
  dsimp only at h
  split at h
  · next hbeyond =>
    cases h
    exact Or.inl ⟨hbeyond, rfl⟩
  · next hbeyond =>
    obtain ⟨r₁, h₁, rfl⟩ := Fallible.map_eq_ok.1 h
    have hpush := frontier_push h₁
    exact Or.inr ⟨Bool.eq_false_iff.2 hbeyond, hpush⟩

/-- A start keeps the storage sound. -/
theorem pushStart_sound {time : Time} (htime : time ∈ q.startTimes)
    (hr : Frontier.Sound q settings measures r.frontier [] [])
    (h : pushStart q settings measures r time = .ok r') :
    Frontier.Sound q settings measures r'.frontier [] [] := by
  rcases frontier_pushStart h with ⟨-, heq⟩ | ⟨hin, hpush⟩
  · rw [heq]
    exact hr
  · exact (hr.push [] .nil (.start time htime hin) (List.Sublist.refl _) hpush).1

/-- When the starts have been queued, nothing is settled and the storage is sound. -/
theorem start_sound {f : Frontier} (hf : f.Blank) (h : Run.start q settings measures f = .ok r) :
    Frontier.Sound q settings measures r.frontier [] [] :=
  Fallible.foldlM_keeps
    (P := fun r : Run => Frontier.Sound q settings measures r.frontier [] [])
    (fun _ _ _ htime hr hpush => pushStart_sound htime hr hpush) hf.sound h

/-- A label that an edge led to is in the queue, unless it is beyond a limit. -/
def Queues (q : Query) (settings : Settings) (id : LabelId) (label : Label) (r : Run)
    (ref : EdgeRef) : Prop :=
  ∃ found, expandEdge q settings id label ref = .ok found ∧
    ∀ next ∈ found, next.criteria.isBeyond settings = false →
      ∃ other ∈ r.frontier.queued, r.frontier.pool.get? other = some next

/-- A queued label stays queued as labels are added. -/
theorem Queues.grow {id : LabelId} {label : Label} {ref : EdgeRef}
    (h : Queues q settings id label r ref) (hgrow : r.frontier.Grows r'.frontier) :
    Queues q settings id label r' ref := by
  obtain ⟨found, hfound, hall⟩ := h
  refine ⟨found, hfound, fun next hnext hin => ?_⟩
  obtain ⟨other, hother, hget⟩ := hall next hnext hin
  exact ⟨other, hgrow.queued other hother, hgrow.keeps other next hget⟩

/-- Taking an edge from a settled label that is not at the goal. -/
theorem pushEdge_sound {id : LabelId} {label : Label} {links : List (LabelId × Label)}
    {ref : EdgeRef} (hr : Frontier.Sound q settings measures r.frontier order [])
    (ht : Frontier.Traced q settings measures r.frontier.pool order id label links)
    (hsub : (id :: links.map (·.1)).Sublist order) (hgoal : q.target.isGoal label = false)
    (href : ref ∈ q.graph.edgesAt label.node q.direction)
    (h : pushEdge q settings id label r ref = .ok r') :
    Frontier.Sound q settings measures r'.frontier order [] ∧
      Frontier.Traced q settings measures r'.frontier.pool order id label links ∧
      r.frontier.Grows r'.frontier ∧ Queues q settings id label r' ref := by
  rcases frontier_pushEdge h with ⟨hnone, heq⟩ | ⟨next, hnext, ⟨hbeyond, heq⟩ | ⟨hin, hpush⟩⟩
  · rw [heq]
    exact ⟨hr, ht, .refl _, none, hnone, fun next hnext => by cases hnext⟩
  · rw [heq]
    refine ⟨hr, ht, .refl _, some next, hnext, fun next' hnext' hin => ?_⟩
    cases hnext'
    rw [hbeyond] at hin
    cases hin
  · obtain ⟨cost, now, -, -, rfl⟩ := expandEdge_eq_some_iff.1 hnext
    obtain ⟨hr', hgrow, other, hother, hget⟩ := hr.push ((id, label) :: links)
      ht.linked (.step id ref _ label _ ht.trail hgoal href hnext hin) hsub hpush
    refine ⟨hr', ht.congr ?_ fun other ho => ?_, hgrow, _, hnext, fun next' hnext' _ => ?_⟩
    · exact hgrow.get?_eq ⟨label, ht.get?⟩
    · exact hgrow.get?_eq (hr.isSome (List.mem_append_left _ ho))
    · cases hnext'
      exact ⟨other, hother, hget⟩

/-- Expanding a settled label that is not at the goal adds the labels that its
edges lead to, and keeps them sound. -/
theorem expand_sound {id : LabelId} {label : Label} {links : List (LabelId × Label)}
    (hr : Frontier.Sound q settings measures r.frontier order [])
    (ht : Frontier.Traced q settings measures r.frontier.pool order id label links)
    (hsub : (id :: links.map (·.1)).Sublist order) (hgoal : q.target.isGoal label = false)
    (h : r.expand q settings id label = .ok r') :
    Frontier.Sound q settings measures r'.frontier order [] ∧ r.frontier.Grows r'.frontier ∧
      ∀ ref ∈ q.graph.edgesAt label.node q.direction, Queues q settings id label r' ref := by
  -- soundness over all edges first, then what each edge has queued, which later ones keep
  have hall := Fallible.foldlM_keeps
    (P := fun r₁ : Run => Frontier.Sound q settings measures r₁.frontier order [] ∧
      Frontier.Traced q settings measures r₁.frontier.pool order id label links ∧
      r.frontier.Grows r₁.frontier)
    (fun r₁ ref r₂ href hr₁ hpush => ?_) ⟨hr, ht, .refl _⟩ h
  · refine ⟨hall.1, hall.2.2, Fallible.foldlM_forall
      (P := fun r₁ : Run => Frontier.Sound q settings measures r₁.frontier order [] ∧
        Frontier.Traced q settings measures r₁.frontier.pool order id label links)
      (Q := fun ref r₁ => Queues q settings id label r₁ ref)
      (fun r₁ ref r₂ href hr₁ hpush => ?_) (fun r₁ ref r₂ ref' href hr₁ hpush hq => ?_)
      ⟨hr, ht⟩ h⟩
    · obtain ⟨hr₂, ht₂, -, hqueues⟩ := pushEdge_sound hr₁.1 hr₁.2 hsub hgoal href hpush
      exact ⟨⟨hr₂, ht₂⟩, hqueues⟩
    · exact hq.grow (pushEdge_sound hr₁.1 hr₁.2 hsub hgoal href hpush).2.2.1
  · obtain ⟨hr₂, ht₂, hgrow, -⟩ := pushEdge_sound hr₁.1 hr₁.2.1 hsub hgoal href hpush
    exact ⟨hr₂, ht₂, hr₁.2.2.trans hgrow⟩

/-! ## Handling a label -/

/-- Reporting a label changes the results alone. -/
theorem frontier_report (r : Run) (id : LabelId) : (r.report id).frontier =
    { r.frontier with
      results := (Front.insert (Frontier.beats r.frontier.pool)
        (Frontier.sameResult r.frontier.pool) r.frontier.results id).2 } := by
  unfold Run.report
  dsimp only
  split <;> rfl

/-- The search after the label that it has taken has been counted and settled. -/
def settled (r : Run) (node : NodeId) (id : LabelId) : Run :=
  { r with
    frontier := r.frontier.settle node id
    statistics := { r.statistics with labelsPopped := r.statistics.labelsPopped + 1 } }

/-- A label that is beaten is released. -/
theorem visit_of_beaten {id : LabelId} {label : Label} (hget : r.frontier.label? id = some label)
    (hbeaten : r.frontier.beatenByResult label = true ∨
      r.frontier.beatenAtNode label q.direction = true) :
    ∃ r', r.visit q settings id = .ok r' ∧ r'.frontier = r.frontier.discard id := by
  unfold Run.visit
  rw [hget]
  dsimp only
  by_cases hfree : r.frontier.beatenByResult label = true
  · rw [if_pos hfree]
    exact ⟨_, rfl, rfl⟩
  · rw [if_neg hfree, if_pos (hbeaten.resolve_left hfree)]
    exact ⟨_, rfl, rfl⟩

/-- Any other label is settled; at the goal it is reported, elsewhere its edges are
taken. -/
theorem visit_of_kept {id : LabelId} {label : Label} (hget : r.frontier.label? id = some label)
    (hfree : r.frontier.beatenByResult label = false)
    (hplace : r.frontier.beatenAtNode label q.direction = false) :
    r.visit q settings id =
      if q.target.isGoal label then .ok ((r.settled label.node id).report id)
      else (r.settled label.node id).expand q settings id label := by
  unfold Run.visit
  rw [hget]
  dsimp only
  rw [hfree, hplace]
  rfl

/-- What handling the label in the hand makes of a frontier. -/
inductive Visits (q : Query) (settings : Settings) (f : Frontier) (id : LabelId) (label : Label) :
    Frontier → Prop
  | beaten (h : f.beatenByResult label = true ∨ f.beatenAtNode label q.direction = true) :
      Visits q settings f id label (f.discard id)
  | result (hgoal : q.target.isGoal label = true)
      (hkept : f.beatenByResult label = false ∧ f.beatenAtNode label q.direction = false) :
      Visits q settings f id label
        { f.settle label.node id with
          results := (Front.insert (Frontier.beats f.pool) (Frontier.sameResult f.pool)
            f.results id).2 }
  | expanded (r r' : Run) (hgoal : q.target.isGoal label = false)
      (hr : r.frontier = f.settle label.node id)
      (h : r.expand q settings id label = .ok r')
      (hkept : f.beatenByResult label = false ∧ f.beatenAtNode label q.direction = false) :
      Visits q settings f id label r'.frontier

/-- A visit without a fault does one of the three things there are to do with a label. -/
theorem visits_of_visit {id : LabelId} {label : Label}
    (hget : r.frontier.pool.get? id = some label) (h : r.visit q settings id = .ok r') :
    Visits q settings r.frontier id label r'.frontier := by
  by_cases hbeaten : r.frontier.beatenByResult label = true ∨
      r.frontier.beatenAtNode label q.direction = true
  · obtain ⟨r₁, h₁, hframe⟩ := visit_of_beaten hget hbeaten
    rw [h] at h₁
    cases h₁
    rw [hframe]
    exact .beaten hbeaten
  · rw [not_or, Bool.not_eq_true, Bool.not_eq_true] at hbeaten
    rw [visit_of_kept hget hbeaten.1 hbeaten.2] at h
    split at h
    · next hgoal =>
      cases h
      rw [frontier_report]
      exact .result hgoal hbeaten
    · next hgoal =>
      exact .expanded (r.settled label.node id) r' (Bool.eq_false_iff.2 hgoal) rfl h hbeaten

/-- An expansion settles the label in the hand and adds others. -/
theorem expanded_sound (hq : q.Sound) {f : Frontier} {id : LabelId} {label : Label}
    (h : Frontier.Sound q settings measures f order [id]) (hget : f.pool.get? id = some label)
    (hgoal : q.target.isGoal label = false) (hr : r.frontier = f.settle label.node id)
    (hexp : r.expand q settings id label = .ok r') :
    Frontier.Sound q settings measures r'.frontier (id :: order) [] ∧
      r.frontier.Grows r'.frontier ∧
      ∀ ref ∈ q.graph.edgesAt label.node q.direction, Queues q settings id label r' ref := by
  have hs := h.settle hq hget
  rw [← hr] at hs
  obtain ⟨links, ht, hsub⟩ := hs.traced_of_passed List.mem_cons_self (by
    rw [hr]
    exact hget)
  exact expand_sound hs ht hsub hgoal hexp

/-- A report leaves no slot among the results but those that were there and its own. -/
theorem mem_insert_results {f : Frontier} {id other : LabelId}
    (h : other ∈ (Front.insert (Frontier.beats f.pool) (Frontier.sameResult f.pool)
      f.results id).2) : other ∈ f.results ∨ other = id := by
  unfold Front.insert at h
  split at h
  · exact Or.inl h
  · rcases List.mem_append.1 h with h | h
    · exact Or.inl (List.mem_filter.1 h).1
    · exact Or.inr (List.mem_singleton.1 h)

/-- Whatever is done with the label in the hand, the storage stays sound. -/
theorem Visits.sound (hq : q.Sound) {f f' : Frontier} {id : LabelId} {label : Label}
    (h : Frontier.Sound q settings measures f order [id]) (hget : f.pool.get? id = some label)
    (hv : Visits q settings f id label f') :
    ∃ order', Frontier.Sound q settings measures f' order' [] := by
  cases hv with
  | beaten hb => exact ⟨order, h.discard.1⟩
  | result hgoal =>
    refine ⟨id :: order, (h.settle hq hget).setResults fun other ho => ?_⟩
    rcases mem_insert_results ho with ho | rfl
    · exact Or.inl ho
    · exact Or.inr ⟨List.mem_cons_self, label, hget, hgoal⟩
  | expanded r r' hgoal hr hexp => exact ⟨id :: order, (expanded_sound hq h hget hgoal hr hexp).1⟩

/-! ## Taking from the queue -/

/-- Popping takes one label from the queue and changes nothing else. -/
theorem frontier_pop {next : Option LabelId} (h : r.pop = (next, r')) :
    next = r.frontier.queue.pop.1.map (·.id) ∧
      r'.frontier = { r.frontier with queue := r.frontier.queue.pop.2 } := by
  unfold Run.pop at h
  dsimp only at h
  cases h
  exact ⟨rfl, rfl⟩

/-- A label that is taken from the queue comes with what is left of it. -/
theorem exists_item_of_pop {id : LabelId} (h : r.pop = (some id, r')) :
    ∃ item queue, r.frontier.queue.pop = (some item, queue) ∧ item.id = id ∧
      r'.frontier = { r.frontier with queue } := by
  obtain ⟨hnext, hframe⟩ := frontier_pop h
  cases hpop : r.frontier.queue.pop with
  | mk found queue =>
    rw [hpop] at hnext hframe
    obtain ⟨item, rfl, hid⟩ := Option.map_eq_some_iff.1 hnext.symm
    exact ⟨item, queue, rfl, hid, hframe⟩

/-- A label taken from sound storage is in the hand, and settled and results stay. -/
theorem pop_sound {id : LabelId} (hr : Frontier.Sound q settings measures r.frontier order [])
    (h : r.pop = (some id, r')) :
    Frontier.Sound q settings measures r'.frontier order [id] ∧
      r.frontier.queued.Perm (id :: r'.frontier.queued) ∧
      r'.frontier.pool = r.frontier.pool ∧ r'.frontier.settled = r.frontier.settled ∧
      r'.frontier.results = r.frontier.results := by
  obtain ⟨hnext, hf⟩ := frontier_pop h
  rcases BucketQueue.pop_spec hr.queue with ⟨hnone, -, -⟩ | ⟨item, hitem, hperm, hsound⟩
  · rw [hnone] at hnext
    cases hnext
  · rw [hitem] at hnext
    cases hnext
    have hs := hr.pop hperm hsound
    rw [hf]
    exact ⟨hs, hperm.map _, rfl, rfl, rfl⟩

/-- A queue that gives nothing is empty, and stays as it is. -/
theorem frontier_of_pop_none (hr : Frontier.Sound q settings measures r.frontier order [])
    (h : r.pop = (none, r')) : r'.frontier = r.frontier ∧ r.frontier.queued = [] := by
  obtain ⟨hnext, hframe⟩ := frontier_pop h
  rcases BucketQueue.pop_spec hr.queue with ⟨-, hitems, hsame⟩ | ⟨item, hitem, -⟩
  · exact ⟨by rw [hframe, hsame], Frontier.queued_eq_nil hitems⟩
  · rw [hitem] at hnext
    cases hnext

/-! ## The states there can be -/

/-- The states of a search between two labels. -/
inductive Reached (q : Query) (settings : Settings) (measures : List Measure) (f : Frontier) :
    Run → Prop
  | start {r : Run} (h : Run.start q settings measures f = .ok r) :
      Reached q settings measures f r
  | visit {r r₁ r₂ : Run} {id : LabelId} (h : Reached q settings measures f r)
      (hpop : r.pop = (some id, r₁)) (hvisit : r₁.visit q settings id = .ok r₂) :
      Reached q settings measures f r₂

variable {f : Frontier}

/-- In every state of a search the storage is sound. -/
theorem Reached.sound (hq : q.Sound) (hf : f.Blank) (h : Reached q settings measures f r) :
    ∃ order, Frontier.Sound q settings measures r.frontier order [] := by
  induction h with
  | start h => exact ⟨[], start_sound hf h⟩
  | visit h hpop hvisit ih =>
    obtain ⟨order, hs⟩ := ih
    obtain ⟨hs, -⟩ := pop_sound hs hpop
    obtain ⟨label, links, ht⟩ := hs.waiting _ List.mem_cons_self
    exact (visits_of_visit ht.get? hvisit).sound hq hs ht.get?

/-- The label that is taken has come on a way over settled slots. -/
theorem Reached.popped (hq : q.Sound) (hf : f.Blank) (h : Reached q settings measures f r)
    {id : LabelId} (hpop : r.pop = (some id, r')) :
    ∃ order label links, Frontier.Sound q settings measures r.frontier order [] ∧
      Frontier.Sound q settings measures r'.frontier order [id] ∧
      Frontier.Traced q settings measures r'.frontier.pool order id label links := by
  obtain ⟨order, hs⟩ := h.sound hq hf
  obtain ⟨hs', -⟩ := pop_sound hs hpop
  obtain ⟨label, links, ht⟩ := hs'.waiting id List.mem_cons_self
  exact ⟨order, label, links, hs, hs', ht⟩

/-- The next label is taken from the queue and handled. -/
def Turn (q : Query) (settings : Settings) (r r' : Run) : Prop :=
  ∃ id r₁, r.pop = (some id, r₁) ∧ r₁.visit q settings id = .ok r'

/-- A turn leads to another state of the search. -/
theorem Reached.turn (h : Reached q settings measures f r) (ht : Turn q settings r r') :
    Reached q settings measures f r' := by
  obtain ⟨id, r₁, hpop, hvisit⟩ := ht
  exact h.visit hpop hvisit

/-- Turns lead to another state of the search. -/
theorem Reached.turns (h : Reached q settings measures f r)
    (ht : ReflTransGen (Turn q settings) r r') : Reached q settings measures f r' := by
  induction ht with
  | refl => exact h
  | tail _ hturn ih => exact ih.turn hturn

/-! ## The loop -/

/-- One pass of the loop: the queue is not empty, the next label is taken and handled, and
the budget is smaller by one. -/
inductive Pass (q : Query) (settings : Settings) : Nat × Run → Nat × Run → Prop
  | mk {budget : Nat} {r r₁ r₂ : Run} {id : LabelId} (hqueue : r.frontier.queue.isEmpty = false)
      (hpop : r.pop = (some id, r₁)) (hvisit : r₁.visit q settings id = .ok r₂) :
      Pass q settings (budget + 1, r) (budget, r₂)

/-- How the loop ends where no pass follows. -/
inductive Ends (q : Query) (settings : Settings) : Nat × Run → Except Halt Run → Prop
  | empty (budget : Nat) {r : Run} (hqueue : r.frontier.queue.isEmpty = true) :
      Ends q settings (budget, r) (.ok r)
  | spent {r : Run} (hqueue : r.frontier.queue.isEmpty = false) :
      Ends q settings (0, r)
        (.ok { r with statistics := { r.statistics with budgetSpent := true } })
  | fault (budget : Nat) {r r₁ : Run} {id : LabelId} {halt : Halt}
      (hqueue : r.frontier.queue.isEmpty = false) (hpop : r.pop = (some id, r₁))
      (hvisit : r₁.visit q settings id = .error halt) :
      Ends q settings (budget + 1, r) (.error halt)

/-- After a pass the loop goes on with what is left of the budget. -/
theorem Pass.loop_eq {s s' : Nat × Run} (h : Pass q settings s s') :
    Run.loop q settings s.1 s.2 = Run.loop q settings s'.1 s'.2 := by
  cases h with
  | mk hqueue hpop hvisit =>
    conv_lhs => unfold Run.loop
    dsimp only
    rw [hqueue, if_neg Bool.false_ne_true, hpop]
    dsimp only
    rw [hvisit]

/-- A pass takes one turn. -/
theorem Pass.turn {s s' : Nat × Run} (h : Pass q settings s s') : Turn q settings s.2 s'.2 := by
  cases h with
  | mk hqueue hpop hvisit => exact ⟨_, _, hpop, hvisit⟩

/-- The loop gives the same from every state its passes lead to. -/
theorem loop_eq_of_passes {s s' : Nat × Run} (h : ReflTransGen (Pass q settings) s s') :
    Run.loop q settings s.1 s.2 = Run.loop q settings s'.1 s'.2 := by
  induction h with
  | refl => rfl
  | tail _ hpass ih => exact ih.trans hpass.loop_eq

theorem turns_of_passes {s s' : Nat × Run} (h : ReflTransGen (Pass q settings) s s') :
    ReflTransGen (Turn q settings) s.2 s'.2 :=
  h.lift Prod.snd fun _ _ => Pass.turn

/-- Passes lead to another state of the search. -/
theorem Reached.passes {s s' : Nat × Run} (h : Reached q settings measures f s.2)
    (hs : ReflTransGen (Pass q settings) s s') : Reached q settings measures f s'.2 :=
  h.turns (turns_of_passes hs)

/-- A larger budget allows the same passes. -/
theorem Pass.add {s s' : Nat × Run} (extra : Nat) (h : Pass q settings s s') :
    Pass q settings (s.1 + extra, s.2) (s'.1 + extra, s'.2) := by
  cases h with
  | @mk budget r r₁ r₂ id hqueue hpop hvisit =>
    have hbudget : budget + 1 + extra = budget + extra + 1 := Nat.add_right_comm budget 1 extra
    dsimp only
    rw [hbudget]
    exact .mk hqueue hpop hvisit

/-- A larger budget takes the same passes and keeps the difference. -/
theorem passes_add {s s' : Nat × Run} (extra : Nat) (h : ReflTransGen (Pass q settings) s s') :
    ReflTransGen (Pass q settings) (s.1 + extra, s.2) (s'.1 + extra, s'.2) :=
  h.lift (fun s => (s.1 + extra, s.2)) fun _ _ => Pass.add extra

/-- A queue that holds something gives something. -/
theorem Reached.pop_of_queue (hq : q.Sound) (hf : f.Blank) (h : Reached q settings measures f r)
    (hqueue : r.frontier.queue.isEmpty = false) : ∃ id r', r.pop = (some id, r') := by
  obtain ⟨order, hs⟩ := h.sound hq hf
  cases hpop : r.pop with
  | mk id? r' =>
    cases id? with
    | some id => exact ⟨id, r', rfl⟩
    | none =>
      have hnil : r.frontier.queue.items = [] :=
        List.map_eq_nil_iff.1 (frontier_of_pop_none hs hpop).2
      rw [(BucketQueue.isEmpty_iff hs.queue).2 hnil] at hqueue
      cases hqueue

/-- A loop makes passes, and ends where none follows. -/
theorem Reached.loop_ends (hq : q.Sound) (hf : f.Blank) (h : Reached q settings measures f r)
    (budget : Nat) : ∃ s, ReflTransGen (Pass q settings) (budget, r) s ∧
      Ends q settings s (Run.loop q settings budget r) := by
  induction budget generalizing r with
  | zero =>
    refine ⟨_, .refl, ?_⟩
    unfold Run.loop
    split
    · next hqueue => exact .empty 0 hqueue
    · next hqueue => exact .spent (Bool.eq_false_iff.2 hqueue)
  | succ budget ih =>
    by_cases hqueue : r.frontier.queue.isEmpty = true
    · refine ⟨_, .refl, ?_⟩
      unfold Run.loop
      rw [if_pos hqueue]
      exact .empty _ hqueue
    · have hqueue' := Bool.eq_false_iff.2 hqueue
      obtain ⟨id, r₁, hpop⟩ := h.pop_of_queue hq hf hqueue'
      cases hvisit : r₁.visit q settings id with
      | error halt =>
        refine ⟨_, .refl, ?_⟩
        unfold Run.loop
        rw [if_neg hqueue, hpop]
        dsimp only
        rw [hvisit]
        exact .fault budget hqueue' hpop hvisit
      | ok r₂ =>
        have hpass : Pass q settings (budget + 1, r) (budget, r₂) := .mk hqueue' hpop hvisit
        obtain ⟨s, hpasses, hends⟩ := ih (h.visit hpop hvisit)
        refine ⟨s, .head hpass hpasses, ?_⟩
        rw [hpass.loop_eq]
        exact hends

/-- A loop makes turns until it ends; and unless the budget was spent, nothing is left in
the queue then. -/
theorem Reached.turns_of_loop (hq : q.Sound) (hf : f.Blank)
    (h : Reached q settings measures f r) {budget : Nat}
    (hloop : Run.loop q settings budget r = .ok r') :
    ∃ r₁, ReflTransGen (Turn q settings) r r₁ ∧ r'.frontier = r₁.frontier ∧
      (r'.statistics.budgetSpent = false → r₁.frontier.queued = []) := by
  obtain ⟨s, hpasses, hends⟩ := h.loop_ends hq hf budget
  rw [hloop] at hends
  refine ⟨s.2, turns_of_passes hpasses, ?_⟩
  cases hends with
  | empty budget hqueue =>
    obtain ⟨order, hs⟩ := (h.passes hpasses).sound hq hf
    exact ⟨rfl, fun _ => Frontier.queued_eq_nil ((BucketQueue.isEmpty_iff hs.queue).1 hqueue)⟩
  | spent hqueue => exact ⟨rfl, fun hb => Bool.noConfusion hb⟩

/-! ## The whole search -/

theorem frontier_finish (r : Run) : r.finish.frontier = r.frontier := by
  unfold Run.finish
  split <;> rfl

/-- Finishing leaves it as it is whether the budget was spent. -/
theorem budgetSpent_finish (r : Run) :
    r.finish.statistics.budgetSpent = r.statistics.budgetSpent := by
  unfold Run.finish
  split <;> rfl

/-- A search succeeds exactly if its starts and its loop do. -/
theorem run_eq_ok : q.run settings measures f = .ok r ↔
    ∃ r₀ last, Run.start q settings measures f = .ok r₀ ∧
      Run.loop q settings settings.maxLabels r₀ = .ok last ∧ r = last.finish := by
  unfold Query.run
  rw [Fallible.bind_eq_ok]
  refine exists_congr fun r₀ => ?_
  rw [exists_and_left, Fallible.bind_eq_ok]
  refine and_congr_right fun _ => exists_congr fun last => and_congr_right fun _ => ?_
  exact ⟨fun h => (Except.ok.inj h).symm, fun h => congrArg Except.ok h.symm⟩

/-- A search fails with a fault of its starts or of its loop. -/
theorem run_eq_error {halt : Halt} : q.run settings measures f = .error halt ↔
    Run.start q settings measures f = .error halt ∨
      ∃ r₀, Run.start q settings measures f = .ok r₀ ∧
        Run.loop q settings settings.maxLabels r₀ = .error halt := by
  unfold Query.run
  rw [Fallible.bind_eq_error]
  refine or_congr_right (exists_congr fun r₀ => and_congr_right fun _ => ?_)
  rw [Fallible.bind_eq_error]
  exact ⟨fun h => h.resolve_right fun ⟨_, _, h⟩ => (by cases h), Or.inl⟩

/-- A search makes turns from where its start labels are queued; and unless the budget was
spent, nothing is left in the queue when it ends. -/
theorem turns_of_run (hq : q.Sound) (hf : f.Blank) (h : q.run settings measures f = .ok r) :
    ∃ r₀ r₁, Run.start q settings measures f = .ok r₀ ∧ ReflTransGen (Turn q settings) r₀ r₁ ∧
      r.frontier = r₁.frontier ∧
      (r.statistics.budgetSpent = false → r₁.frontier.queued = []) := by
  obtain ⟨r₀, last, hstart, hloop, rfl⟩ := run_eq_ok.1 h
  obtain ⟨r₁, hturns, hframe, hspent⟩ := (Reached.start hstart).turns_of_loop hq hf hloop
  rw [budgetSpent_finish]
  exact ⟨r₀, r₁, hstart, hturns, (frontier_finish last).trans hframe, hspent⟩

/-- What a search ends with is one of its states. -/
theorem reached_of_run (hq : q.Sound) (hf : f.Blank) (h : q.run settings measures f = .ok r) :
    ∃ r₁, Reached q settings measures f r₁ ∧ r.frontier = r₁.frontier ∧
      (r.statistics.budgetSpent = false → r₁.frontier.queued = []) := by
  obtain ⟨r₀, r₁, hstart, hturns, hend⟩ := turns_of_run hq hf h
  exact ⟨r₁, (Reached.start hstart).turns hturns, hend⟩

end Run

end JourneyPlanner
