import JourneyPlanner.Proofs.Query.Bounds
import JourneyPlanner.Proofs.Search.Turns

/-!
# Room to spare

Storage that has been used over a larger timetable keeps a list for every node of that
one. A search over fewer nodes does not notice (`Query.run_withRoom`): it does the same
as in storage that has no list to spare, fault or no fault, and what it leaves behind
differs in the spare lists alone.

The spare lists stay empty because no label is settled there. A label at a node that the
timetable does not have is beyond every limit (`Label.within_of_not_isBeyond`), so that
all labels of a search are at nodes of its own (`Frontier.Within`). None of this asks what
timetable it is.
-/

namespace JourneyPlanner

/-! ## Nodes that there are -/

/-- A node from where the goal can be reached is one of the timetable. -/
theorem LowerBounds.lt_size_of_distanceAt_ne {graph : QueryGraph} {goal node : NodeId}
    {direction : Direction} {weight : EdgeKind → Nat}
    (h : distanceAt (distances graph goal direction weight) node ≠ Bounded.ceiling) :
    node < graph.timetable.nodes.size := by
  by_contra hge
  have hsize : (distances graph goal direction weight).size ≤ node :=
    size_distances.trans_le (Nat.le_of_not_lt hge)
  exact h (distanceAt_of_size_le hsize)

/-- A bound below the ceiling is that of a node of the timetable, whatever it is a bound of. -/
theorem lt_size_of_boundOf_ne {graph : QueryGraph} {goal : NodeId} {direction : Direction}
    {context : BoundContext} {measure : Measure} {current : Nat}
    (h : Criterion.boundOf (.compute graph goal direction) context measure current ≠
      Bounded.ceiling) : context.node < graph.timetable.nodes.size := by
  have hadd : ∀ a b : Nat, Bounded.add a b ≠ Bounded.ceiling → b ≠ Bounded.ceiling := by
    intro a b hb heq
    unfold Bounded.add at hb
    omega
  cases measure with
  | time => exact LowerBounds.lt_size_of_distanceAt_ne (hadd _ _ h)
  | transfers =>
    unfold Criterion.boundOf Criterion.transferBound at h
    dsimp only at h
    split at h
    · exact absurd rfl h
    · next hne => exact LowerBounds.lt_size_of_distanceAt_ne hne
  | price => exact LowerBounds.lt_size_of_distanceAt_ne (hadd _ _ h)

/-! ## Labels at nodes of the timetable -/

/-- A label is at one of so many nodes, and has criteria. -/
def Label.Within (nodes : Nat) (label : Label) : Prop :=
  label.node < nodes ∧ label.criteria ≠ []

/-- A label that has criteria and that the limits allow is at a node of the timetable. -/
theorem Label.within_of_not_isBeyond {q : Query} {settings : Settings} {label : Label}
    (hbounds : q.bounds = .compute q.graph q.target.goal q.direction)
    (hsome : label.criteria ≠ [])
    (hall : ∀ c ∈ label.criteria, ∃ current,
      c.lowerBound = Criterion.boundOf q.bounds label.context c.measure current)
    (hin : label.criteria.isBeyond settings = false) :
    label.Within q.graph.timetable.nodes.size := by
  obtain ⟨c, hc⟩ := List.exists_mem_of_ne_nil label.criteria hsome
  obtain ⟨current, heq⟩ := hall c hc
  have hne := lowerBound_ne_ceiling hin hc
  rw [heq, hbounds] at hne
  exact ⟨lt_size_of_boundOf_ne hne, hsome⟩

/-- There is a list for each of so many nodes, and all labels are at these nodes. The
first block of the pool has `first` slots. -/
structure Frontier.Within (nodes first : Nat) (f : Frontier) : Prop where
  laid : f.pool.Laid
  first_eq : f.pool.firstBlock = first
  room : nodes ≤ f.settled.size
  labels : ∀ id label, f.pool.get? id = some label → label.Within nodes

namespace Frontier.Within

variable {nodes first : Nat} {f : Frontier}

/-- Entering a label that is at one of the nodes keeps all labels at them. -/
theorem push (h : f.Within nodes first) {label : Label} (hlabel : label.Within nodes) :
    (f.push label).2.Within nodes first := by
  cases hpush : f.push label with
  | mk taken f' =>
    cases taken with
    | false =>
      have hsame : f' = f := by
        unfold Frontier.push at hpush
        dsimp only at hpush
        split at hpush
        · next pool halloc =>
          cases hpush
          rw [Pool.eq_of_alloc_none halloc]
        · cases hpush
      rw [hsame]
      exact h
    | true =>
      obtain ⟨id, -, hnew, hother, -, hlaid, -⟩ := push_spec h.laid hpush
      obtain ⟨_, halloc, -, hsettled, -⟩ := push_eq_true hpush
      refine ⟨hlaid, ?_, by rw [hsettled]; exact h.room, fun other l hl => ?_⟩
      · rw [← h.first_eq, ← Pool.firstBlock_alloc f.pool label, halloc]
      · by_cases hid : other = id
        · rw [hid, hnew] at hl
          cases hl
          exact hlabel
        · rw [hother other hid] at hl
          exact h.labels other l hl

/-- A label that is given back is at no node, and the others stay where they are. -/
theorem discard (h : f.Within nodes first) {id : LabelId} {label : Label}
    (hget : f.pool.get? id = some label) : (f.discard id).Within nodes first := by
  obtain ⟨hnone, hother, hlaid, -⟩ := Pool.dealloc_spec h.laid hget
  refine ⟨hlaid, (Pool.firstBlock_dealloc f.pool id).trans h.first_eq, h.room,
    fun other l hl => ?_⟩
  have hl' : (f.pool.dealloc id).2.get? other = some l := hl
  by_cases hid : other = id
  · rw [hid, hnone] at hl'
    cases hl'
  · rw [hother other hid] at hl'
    exact h.labels other l hl'

/-- Settling changes neither the labels nor how many lists there are. -/
theorem settle (h : f.Within nodes first) (node : NodeId) (id : LabelId) :
    (f.settle node id).Within nodes first := by
  refine ⟨h.laid, h.first_eq, ?_, h.labels⟩
  show nodes ≤ (f.settled.modify node (id :: ·)).size
  rw [Array.size_modify]
  exact h.room

end Frontier.Within

namespace Run

variable {q : Query} {settings : Settings} {measures : List Measure} {nodes first : Nat}
  {r r' : Run}

/-- What every item keeps, however its step ends, holds of what a list of items leaves. -/
theorem left_foldlM {α : Type} {P : Run → Prop} {step : Run → α → Except Halt Run}
    (hstep : ∀ r a, P r → P (left (step r a))) (l : List α) (hr : P r) :
    P (left (l.foldlM step r)) := by
  induction l generalizing r with
  | nil => exact hr
  | cons a l ih =>
    have ha := hstep r a hr
    rw [List.foldlM_cons]
    cases hs : step r a with
    | error halt =>
      rw [hs] at ha
      exact ha
    | ok r' =>
      rw [hs] at ha
      exact ih ha

/-- What an entered label leaves behind is the same whether the run goes on or stops. -/
theorem frontier_left_push (r : Run) (label : Label) :
    (left (r.push label)).frontier = (r.frontier.push label).2 := by
  unfold Run.push
  dsimp only
  split
  · next f hf =>
    rw [hf]
    rfl
  · next f hf =>
    rw [hf]
    rfl

/-- What leaves the labels and the lists alone keeps all labels at the nodes. -/
theorem left_map_within {f : Run → Run} (hf : ∀ r, (f r).frontier = r.frontier)
    {outcome : Except Halt Run} (h : (left outcome).frontier.Within nodes first) :
    (left (outcome.map f)).frontier.Within nodes first := by
  cases outcome with
  | error halt => exact h
  | ok r =>
    show (f r).frontier.Within nodes first
    rw [hf]
    exact h

/-- A start label within the limits is at a node of the timetable. -/
theorem startLabel_within (hbounds : q.bounds = .compute q.graph q.target.goal q.direction)
    (hsome : measures ≠ []) {time : Time}
    (hin : (startLabel q measures time).criteria.isBeyond settings = false) :
    (startLabel q measures time).Within q.graph.timetable.nodes.size := by
  refine Label.within_of_not_isBeyond hbounds (fun hnil => ?_) (fun c hc => ?_) hin
  · exact hsome (List.map_eq_nil_iff.1 hnil)
  · obtain ⟨measure, -, rfl⟩ := List.mem_map.1 hc
    exact ⟨0, rfl⟩

/-- A label reached within the limits is at a node of the timetable. -/
theorem expandEdge_within (hbounds : q.bounds = .compute q.graph q.target.goal q.direction)
    {id : LabelId} {label next : Label} {ref : EdgeRef} (hsome : label.criteria ≠ [])
    (hnext : expandEdge q settings id label ref = .ok (some next))
    (hin : next.criteria.isBeyond settings = false) :
    next.Within q.graph.timetable.nodes.size := by
  obtain ⟨cost, now, -, -, rfl⟩ := expandEdge_eq_some_iff.1 hnext
  refine Label.within_of_not_isBeyond hbounds (fun hnil => ?_) (fun c hc => ?_) hin
  · exact hsome (List.map_eq_nil_iff.1 hnil)
  · obtain ⟨c', -, rfl⟩ := List.mem_map.1 hc
    exact ⟨_, rfl⟩

/-- A start that is tried leaves all labels at nodes of the timetable. -/
theorem pushStart_within (hbounds : q.bounds = .compute q.graph q.target.goal q.direction)
    (hsome : measures ≠ []) (time : Time)
    (hr : r.frontier.Within q.graph.timetable.nodes.size first) :
    (left (pushStart q settings measures r time)).frontier.Within
      q.graph.timetable.nodes.size first := by
  unfold pushStart
  dsimp only
  split
  · exact hr
  · next hin =>
    have hpushed : (left (r.push (startLabel q measures time))).frontier.Within
        q.graph.timetable.nodes.size first := by
      rw [frontier_left_push]
      exact hr.push (startLabel_within hbounds hsome (Bool.eq_false_iff.2 hin))
    apply left_map_within _ hpushed
    intro r
    rfl

/-- An edge that is tried leaves all labels at nodes of the timetable. -/
theorem pushEdge_within (hbounds : q.bounds = .compute q.graph q.target.goal q.direction)
    {id : LabelId} {label : Label} (hsome : label.criteria ≠ []) (ref : EdgeRef)
    (hr : r.frontier.Within q.graph.timetable.nodes.size first) :
    (left (pushEdge q settings id label r ref)).frontier.Within
      q.graph.timetable.nodes.size first := by
  unfold pushEdge
  split
  · exact hr
  · exact hr
  · next next hnext =>
    split
    · exact hr
    · next hin =>
      rw [frontier_left_push]
      exact hr.push (expandEdge_within hbounds hsome hnext (Bool.eq_false_iff.2 hin))

/-- A label that is visited leaves all labels at nodes of the timetable. -/
theorem visit_within (hbounds : q.bounds = .compute q.graph q.target.goal q.direction)
    (id : LabelId) (hr : r.frontier.Within q.graph.timetable.nodes.size first) :
    (left (r.visit q settings id)).frontier.Within q.graph.timetable.nodes.size first := by
  cases hget : r.frontier.label? id with
  | none =>
    unfold Run.visit
    rw [hget]
    exact hr
  | some label =>
    by_cases hbeaten : r.frontier.beatenByResult label = true ∨
        r.frontier.beatenAtNode label q.direction = true
    · obtain ⟨r', hr', hframe⟩ := visit_of_beaten hget hbeaten
      rw [hr', left_ok, hframe]
      exact hr.discard hget
    · rw [not_or, Bool.not_eq_true, Bool.not_eq_true] at hbeaten
      rw [visit_of_kept hget hbeaten.1 hbeaten.2]
      have hsettled := hr.settle label.node id
      split
      · rw [left_ok, frontier_report]
        exact ⟨hsettled.laid, hsettled.first_eq, hsettled.room, hsettled.labels⟩
      · have hcriteria := (hr.labels id label hget).2
        exact left_foldlM (P := fun r => r.frontier.Within q.graph.timetable.nodes.size first)
          (fun _ ref hr' => pushEdge_within hbounds hcriteria ref hr') _ hsettled

end Run

/-! ## Lists to spare -/

/-- The storage with `spare` more lists for settled labels. -/
def Frontier.withRoom (f : Frontier) (spare : Nat) : Frontier :=
  { f with settled := f.settled ++ Array.replicate spare [] }

namespace Frontier

variable {f : Frontier} {spare : Nat} {label : Label}

/-- Entering a label does not notice lists to spare. -/
theorem push_withRoom : (f.withRoom spare).push label =
    ((f.push label).1, (f.push label).2.withRoom spare) := by
  unfold Frontier.push withRoom
  dsimp only
  split <;> rfl

/-- Whether a label is beaten at a node of its own does not depend on lists to spare. -/
theorem beatenAtNode_withRoom (direction : Direction) (h : label.node < f.settled.size) :
    (f.withRoom spare).beatenAtNode label direction = f.beatenAtNode label direction := by
  have hlist : (f.settled ++ Array.replicate spare [])[label.node]? = f.settled[label.node]? := by
    rw [Array.getElem?_append, if_pos h]
  unfold Frontier.beatenAtNode withRoom
  dsimp only
  rw [hlist]

/-- Settling at a node of its own does not notice lists to spare. -/
theorem settle_withRoom {node : NodeId} {id : LabelId} (h : node < f.settled.size) :
    (f.withRoom spare).settle node id = (f.settle node id).withRoom spare := by
  have hlists : (f.settled ++ Array.replicate spare []).modify node (id :: ·) =
      f.settled.modify node (id :: ·) ++ Array.replicate spare [] := by
    apply Array.ext_getElem?
    intro i
    rw [Array.getElem?_modify, Array.getElem?_append, Array.getElem?_append, Array.size_modify,
      Array.getElem?_modify]
    by_cases hi : node = i
    · subst hi
      rw [if_pos rfl, if_pos rfl, if_pos h, if_pos h]
    · rw [if_neg hi, if_neg hi]
  unfold Frontier.settle withRoom
  dsimp only
  rw [hlists]

/-- A list for each node is added where there are too few; those to spare are more than
that, or fewer. -/
theorem withNodes_withRoom (settings : Settings) (spare nodes : Nat) :
    ((new settings).withRoom spare).withNodes nodes =
      ((new settings).withNodes nodes).withRoom (spare - nodes) := by
  have hcount : spare + (nodes - spare) = nodes + (spare - nodes) := by omega
  unfold withNodes withRoom new
  simp only [Array.empty_append, Array.size_replicate, Array.size_empty, Nat.sub_zero,
    Array.replicate_append_replicate, hcount]

/-- Storage that has been reset is new, but for the lists to spare. -/
theorem reset_eq {settings : Settings}
    (h : f.pool.firstBlock = (new settings).pool.firstBlock) :
    f.reset settings = (new settings).withRoom f.settled.size := by
  have hlists : f.settled.map (fun _ => ([] : List LabelId)) =
      #[] ++ Array.replicate f.settled.size [] := by
    apply Array.ext_getElem?
    intro i
    rw [Array.empty_append, Array.getElem?_map, Array.getElem?_replicate]
    by_cases hi : i < f.settled.size
    · rw [if_pos hi, Array.getElem?_eq_getElem hi]
      rfl
    · rw [if_neg hi, Array.getElem?_eq_none (Nat.le_of_not_lt hi)]
      rfl
  unfold reset withRoom Pool.clear
  rw [hlists, h]
  rfl

end Frontier

namespace Run

variable {q : Query} {settings : Settings} {measures : List Measure} {first spare : Nat}
  {r r' : Run}

/-- The search in storage with more lists. -/
def withRoom (r : Run) (spare : Nat) : Run :=
  { r with frontier := r.frontier.withRoom spare }

/-- What comes of a search, in storage with more lists. -/
def roomy (spare : Nat) : Except Halt Run → Except Halt Run
  | .ok r => .ok (r.withRoom spare)
  | .error halt => .error { halt with run := halt.run.withRoom spare }

/-- A run that enters a label does not notice lists to spare. -/
theorem push_withRoom (label : Label) :
    (r.withRoom spare).push label = roomy spare (r.push label) := by
  cases hpush : r.frontier.push label with
  | mk taken f =>
    have hroomy : (r.frontier.withRoom spare).push label = (taken, f.withRoom spare) := by
      rw [Frontier.push_withRoom, hpush]
    unfold Run.push withRoom
    dsimp only
    rw [hroomy, hpush]
    cases taken <;> rfl

/-- A start that is tried does not notice lists to spare. -/
theorem pushStart_withRoom (time : Time) :
    pushStart q settings measures (r.withRoom spare) time =
      roomy spare (pushStart q settings measures r time) := by
  unfold pushStart
  dsimp only
  split
  · rfl
  · rw [push_withRoom]
    cases r.push (startLabel q measures time) <;> rfl

/-- An edge that is tried does not notice lists to spare. -/
theorem pushEdge_withRoom (id : LabelId) (label : Label) (ref : EdgeRef) :
    pushEdge q settings id label (r.withRoom spare) ref =
      roomy spare (pushEdge q settings id label r ref) := by
  unfold pushEdge
  split
  · rfl
  · rfl
  · split
    · rfl
    · exact push_withRoom _

/-- Steps that do not notice lists to spare do not notice them one after the other. -/
theorem foldlM_withRoom {α : Type} {step : Run → α → Except Halt Run}
    (hstep : ∀ r a, step (r.withRoom spare) a = roomy spare (step r a)) (l : List α) :
    l.foldlM step (r.withRoom spare) = roomy spare (l.foldlM step r) := by
  induction l generalizing r with
  | nil => rfl
  | cons a l ih =>
    rw [List.foldlM_cons, List.foldlM_cons, hstep]
    cases step r a with
    | error halt => rfl
    | ok r' => exact ih

/-- Reporting a label does not notice lists to spare. -/
theorem report_withRoom (id : LabelId) :
    (r.withRoom spare).report id = (r.report id).withRoom spare := by
  unfold Run.report withRoom Frontier.withRoom
  dsimp only
  split <;> rfl

theorem pop_withRoom : (r.withRoom spare).pop = (r.pop.1, r.pop.2.withRoom spare) := rfl

/-- Lists to spare have no part in handling a label. -/
theorem visit_withRoom (id : LabelId)
    (hr : r.frontier.Within q.graph.timetable.nodes.size first) :
    (r.withRoom spare).visit q settings id = roomy spare (r.visit q settings id) := by
  have hlabel : (r.withRoom spare).frontier.label? id = r.frontier.label? id := rfl
  have hfree : ∀ label, (r.withRoom spare).frontier.beatenByResult label =
      r.frontier.beatenByResult label := fun _ => rfl
  unfold Run.visit
  rw [hlabel]
  split
  · rfl
  · next label hget =>
    have hroom : label.node < r.frontier.settled.size :=
      Nat.lt_of_lt_of_le (hr.labels id label hget).1 hr.room
    have hplace : (r.withRoom spare).frontier.beatenAtNode label q.direction =
        r.frontier.beatenAtNode label q.direction :=
      Frontier.beatenAtNode_withRoom q.direction hroom
    have hsettled : (r.withRoom spare).settled label.node id =
        (r.settled label.node id).withRoom spare := by
      unfold Run.settled
      rw [show (r.withRoom spare).frontier = r.frontier.withRoom spare from rfl,
        Frontier.settle_withRoom hroom]
      rfl
    dsimp only
    rw [hfree, hplace]
    split
    · rfl
    · split
      · rfl
      · split
        · show Except.ok (((r.withRoom spare).settled label.node id).report id) = _
          rw [hsettled, report_withRoom]
          rfl
        · show ((r.withRoom spare).settled label.node id).expand q settings id label = _
          rw [hsettled]
          exact foldlM_withRoom (fun _ ref => pushEdge_withRoom id label ref) _

/-- Nor have they a part in a loop, which keeps its labels at nodes that there are. -/
theorem loop_withRoom (hbounds : q.bounds = .compute q.graph q.target.goal q.direction)
    (budget : Nat) (hr : r.frontier.Within q.graph.timetable.nodes.size first) :
    loop q settings budget (r.withRoom spare) = roomy spare (loop q settings budget r) ∧
      (left (loop q settings budget r)).frontier.Within q.graph.timetable.nodes.size first := by
  have hqueue : ∀ r : Run, (r.withRoom spare).frontier.queue = r.frontier.queue := fun _ => rfl
  induction budget generalizing r with
  | zero =>
    unfold Run.loop
    rw [hqueue]
    split
    · exact ⟨rfl, hr⟩
    · exact ⟨rfl, hr⟩
  | succ budget ih =>
    unfold Run.loop
    rw [hqueue, pop_withRoom]
    split
    · exact ⟨rfl, hr⟩
    · cases hpop : r.pop with
      | mk next r₁ =>
        have hr₁ : r₁.frontier.Within q.graph.timetable.nodes.size first := by
          rw [(frontier_pop hpop).2]
          exact ⟨hr.laid, hr.first_eq, hr.room, hr.labels⟩
        cases next with
        | none => exact ⟨rfl, hr₁⟩
        | some id =>
          have hvisited : (left (r₁.visit q settings id)).frontier.Within
              q.graph.timetable.nodes.size first := visit_within hbounds id hr₁
          dsimp only
          rw [visit_withRoom id hr₁]
          cases hvisit : r₁.visit q settings id with
          | error halt =>
            rw [hvisit] at hvisited
            exact ⟨rfl, hvisited⟩
          | ok r₂ =>
            rw [hvisit] at hvisited
            exact ih hvisited

/-- Finishing does not notice lists to spare. -/
theorem finish_withRoom : (r.withRoom spare).finish = r.finish.withRoom spare := by
  unfold Run.finish
  rw [show (r.withRoom spare).frontier.results = r.frontier.results from rfl]
  split <;> rfl

/-- New storage has a list for each node it is made ready for, and no label. -/
theorem new_within (settings : Settings) (nodes : Nat) :
    ((Frontier.new settings).withNodes nodes).Within nodes
      (Frontier.new settings).pool.firstBlock := by
  refine ⟨Pool.new_laid _, rfl, ?_, fun id label hget => ?_⟩
  · show nodes ≤ (#[] ++ Array.replicate (nodes - 0) ([] : List LabelId)).size
    rw [Array.empty_append, Array.size_replicate]
    exact Nat.le_refl _
  · have hnone : (Frontier.new settings).pool.get? id = none :=
      (Frontier.new_blank settings).unused id
    have hget' : (Frontier.new settings).pool.get? id = some label := hget
    rw [hnone] at hget'
    cases hget'

/-- Starting uses up as many of the lists to spare as there are nodes. -/
theorem start_withRoom (spare : Nat) :
    start q settings measures ((Frontier.new settings).withRoom spare) =
      roomy (spare - q.graph.timetable.nodes.size)
        (start q settings measures (Frontier.new settings)) := by
  have hopening : opening q ((Frontier.new settings).withRoom spare) =
      (opening q (Frontier.new settings)).withRoom (spare - q.graph.timetable.nodes.size) := by
    unfold opening
    rw [Frontier.withNodes_withRoom]
    rfl
  show q.startTimes.foldlM (pushStart q settings measures) (opening q _) = _
  rw [hopening]
  exact foldlM_withRoom (fun _ time => pushStart_withRoom time) _

/-- After the start all labels are at nodes of the timetable. -/
theorem start_within (hbounds : q.bounds = .compute q.graph q.target.goal q.direction)
    (hsome : measures ≠ []) :
    (left (start q settings measures (Frontier.new settings))).frontier.Within
      q.graph.timetable.nodes.size (Frontier.new settings).pool.firstBlock :=
  left_foldlM
    (P := fun r => r.frontier.Within q.graph.timetable.nodes.size
      (Frontier.new settings).pool.firstBlock)
    (fun _ time hr => pushStart_within hbounds hsome time hr) _ (new_within settings _)

end Run

/-- Lists to spare have no part in a search, which leaves all labels at nodes that there
are. -/
theorem Query.run_withRoom {q : Query} (settings : Settings) {measures : List Measure}
    (hbounds : q.bounds = .compute q.graph q.target.goal q.direction) (hsome : measures ≠ [])
    (spare : Nat) :
    q.run settings measures ((Frontier.new settings).withRoom spare) =
        Run.roomy (spare - q.graph.timetable.nodes.size)
          (q.run settings measures (Frontier.new settings)) ∧
      (Run.left (q.run settings measures (Frontier.new settings))).frontier.Within
        q.graph.timetable.nodes.size (Frontier.new settings).pool.firstBlock := by
  have hstarted : (Run.left (Run.start q settings measures (Frontier.new settings))).frontier.Within
      q.graph.timetable.nodes.size (Frontier.new settings).pool.firstBlock :=
    Run.start_within hbounds hsome
  have hroomy : Run.start q settings measures ((Frontier.new settings).withRoom spare) =
      Run.roomy (spare - q.graph.timetable.nodes.size)
        (Run.start q settings measures (Frontier.new settings)) := Run.start_withRoom spare
  cases hstart : Run.start q settings measures (Frontier.new settings) with
  | error halt =>
    rw [hstart] at hstarted hroomy
    rw [Run.left_run_of_start_error hstart]
    refine ⟨?_, hstarted⟩
    unfold Query.run
    rw [hroomy, hstart]
    rfl
  | ok r =>
    rw [hstart, Run.left_ok] at hstarted
    rw [hstart] at hroomy
    obtain ⟨hloop, hwithin⟩ :
        Run.loop q settings settings.maxLabels
            (r.withRoom (spare - q.graph.timetable.nodes.size)) =
          Run.roomy (spare - q.graph.timetable.nodes.size)
            (Run.loop q settings settings.maxLabels r) ∧ _ :=
      Run.loop_withRoom hbounds settings.maxLabels hstarted
    rw [Run.left_run_of_start_ok hstart]
    refine ⟨?_, hwithin⟩
    unfold Query.run
    rw [hroomy, hstart]
    show (Run.loop q settings settings.maxLabels (r.withRoom _) >>= fun r => pure r.finish) =
      Run.roomy _ (Run.loop q settings settings.maxLabels r >>= fun r => pure r.finish)
    rw [hloop]
    cases Run.loop q settings settings.maxLabels r with
    | error halt => rfl
    | ok r₁ => exact congrArg Except.ok Run.finish_withRoom

end JourneyPlanner
