import JourneyPlanner.Proofs.Query.Graph
import JourneyPlanner.Proofs.Storage.Queue
import Mathlib.Algebra.BigOperators.Group.List.Basic
import Mathlib.Data.List.Nodup
import Mathlib.Data.List.Perm.Subperm

/-!
# Lower bounds are lower bounds

The main results of this file say what the distances are once nothing is left on the
agenda:

> the distance of a node is at most what the edges of any way from there to the
> goal come to, however long the way is (`distanceAt_le`); and a distance below the
> ceiling is what the edges of some way come to (`exists_way`).

The invariant is `Spread.Sound`. Each distance is that of a way, which `reach` keeps
since it goes on by one edge. Each node is either `Relaxed`, so that no edge leads from
anywhere to it by which one would come nearer, or on the agenda with the distance
that it has; an entry that has been overtaken is of no use to either. So when the
agenda is empty every node is relaxed, and the distances of a way can be followed from
the goal.

That the agenda becomes empty is the other half (`Spread.Sound.settle`). Each entry
that goes on it has cost some node at least one unit of distance, which pays for the
entry and for the turn in which it is taken off again (`Spread.allowance`).
-/

namespace JourneyPlanner.LowerBounds

open Bounded

/-- A way to `goal`: the nodes that it passes, and what its edges come to. -/
inductive Way (graph : QueryGraph) (direction : Direction) (weight : EdgeKind → Nat)
    (goal : NodeId) : List NodeId → Nat → Prop
  | goal (h : goal < graph.timetable.nodes.size) : Way graph direction weight goal [goal] 0
  | step {node : NodeId} {ref : EdgeRef} {rest : List NodeId} {total : Nat}
      (href : ref ∈ graph.edgesAt node direction)
      (way : Way graph direction weight goal (graph.target ref direction :: rest) total) :
      Way graph direction weight goal (node :: graph.target ref direction :: rest)
        (weight (graph.edge ref).kind + total)

variable {graph : QueryGraph} {direction : Direction} {weight : EdgeKind → Nat} {goal : NodeId}

/-! ## Ways -/

section Ways

variable {nodes : List NodeId} {total : Nat}

theorem Way.lt_size (hg : graph.Sound) (h : Way graph direction weight goal nodes total) :
    ∀ node ∈ nodes, node < graph.timetable.nodes.size := by
  induction h with
  | goal h =>
    intro node hnode
    rw [List.mem_singleton.1 hnode]
    exact h
  | step href way ih =>
    intro node hnode
    rcases List.mem_cons.1 hnode with rfl | hnode
    · exact hg.node_lt href
    · exact ih node hnode

/-- From any node that it passes a way goes on to the goal. -/
theorem Way.suffix (h : Way graph direction weight goal nodes total) {node : NodeId}
    (hnode : node ∈ nodes) :
    ∃ rest total', Way graph direction weight goal (node :: rest) total' ∧ total' ≤ total ∧
      (node :: rest).Sublist nodes := by
  induction h with
  | goal h =>
    rw [List.mem_singleton.1 hnode]
    exact ⟨[], 0, .goal h, Nat.le_refl _, List.Sublist.refl _⟩
  | @step first ref rest total href way ih =>
    rcases List.mem_cons.1 hnode with rfl | hnode
    · exact ⟨_, _, .step href way, Nat.le_refl _, List.Sublist.refl _⟩
    · obtain ⟨rest', total', way', hle, hsub⟩ := ih hnode
      exact ⟨rest', total', way', by omega, hsub.cons first⟩

/-- A way can be cut short until it passes no node twice. -/
theorem Way.exists_nodup (h : Way graph direction weight goal nodes total) :
    ∃ node rest rest' total', nodes = node :: rest ∧
      Way graph direction weight goal (node :: rest') total' ∧ total' ≤ total ∧
      (node :: rest').Nodup := by
  induction h with
  | goal h => exact ⟨goal, [], [], 0, rfl, .goal h, Nat.le_refl _, List.nodup_singleton _⟩
  | @step first ref rest total href way ih =>
    obtain ⟨node, rest₁, rest₂, total', heq, way', hle, hnodup⟩ := ih
    cases heq
    by_cases hmem : first ∈ graph.target ref direction :: rest₂
    · obtain ⟨rest₃, total'', way'', hle', hsub⟩ := way'.suffix hmem
      exact ⟨first, _, rest₃, total'', rfl, way'', by omega, hnodup.sublist hsub⟩
    · exact ⟨first, _, graph.target ref direction :: rest₂, _, rfl, .step href way', by omega,
        List.nodup_cons.2 ⟨hmem, hnodup⟩⟩

/-- A way that passes no node twice has no more nodes than there are. -/
theorem Way.length_le (hg : graph.Sound) (h : Way graph direction weight goal nodes total)
    (hnodup : nodes.Nodup) : nodes.length ≤ graph.timetable.nodes.size := by
  have hsub : nodes ⊆ List.range graph.timetable.nodes.size :=
    fun n hn => List.mem_range.2 (h.lt_size hg n hn)
  have hlen := (List.subperm_of_subset hnodup hsub).length_le
  rw [List.length_range] at hlen
  exact hlen

end Ways

/-! ## Distances -/

theorem distanceAt_of_size_le {distances : Array Nat} {node : NodeId} (h : distances.size ≤ node) :
    distanceAt distances node = ceiling := by
  unfold distanceAt
  rw [Array.getElem?_eq_none h]
  rfl

theorem distanceAt_set {distances : Array Nat} {node : NodeId} (h : node < distances.size)
    (distance : Nat) (other : NodeId) :
    distanceAt (distances.setIfInBounds node distance) other =
      if other = node then distance else distanceAt distances other := by
  unfold distanceAt
  rw [Array.getElem?_setIfInBounds]
  by_cases heq : node = other
  · rw [if_pos heq, if_pos h, if_pos heq.symm, Option.getD_some]
  · rw [if_neg heq, if_neg (Ne.symm heq)]

/-- What one node comes nearer by, all of them come nearer by together. -/
theorem sum_set_add {distances : Array Nat} {node : NodeId} (h : node < distances.size)
    (distance : Nat) :
    (distances.setIfInBounds node distance).toList.sum + distanceAt distances node =
      distances.toList.sum + distance := by
  have hlt : node < distances.toList.length := by simpa using h
  have hown : distanceAt distances node = distances.toList[node] := by
    simp [distanceAt, h]
  have hsplit : distances.toList.sum = (distances.toList.take node).sum +
      (distances.toList[node] + (distances.toList.drop (node + 1)).sum) := by
    rw [← List.sum_cons, List.getElem_cons_drop, List.sum_take_add_sum_drop]
  rw [Array.toList_setIfInBounds, List.sum_set, if_pos hlt, hsplit, hown]
  omega

namespace Spread

theorem allowance_eq (s : Spread) :
    s.allowance = 2 * s.distances.toList.sum + s.agenda.length := rfl

/-! ## Coming nearer -/

/-- What reaching nodes does to the distances and to the agenda, whichever nodes they are. -/
structure Nears (s s' : Spread) : Prop where
  size_eq : s'.distances.size = s.distances.size
  le : ∀ node, distanceAt s'.distances node ≤ distanceAt s.distances node
  kept : ∀ entry ∈ s.agenda, entry ∈ s'.agenda
  /-- A node that has come nearer is on the agenda. -/
  listed : ∀ node, distanceAt s'.distances node = distanceAt s.distances node ∨
    ⟨distanceAt s'.distances node, node⟩ ∈ s'.agenda
  /-- An entry that is new gives the distance at which its node was at the time, or less is known
  by now. -/
  added : ∀ entry ∈ s'.agenda, entry ∈ s.agenda ∨
    distanceAt s'.distances entry.node ≤ entry.distance
  allowance_le : s'.allowance ≤ s.allowance

theorem Nears.refl (s : Spread) : Nears s s :=
  { size_eq := rfl
    le := fun _ => Nat.le_refl _
    kept := fun _ h => h
    listed := fun _ => Or.inl rfl
    added := fun _ h => Or.inl h
    allowance_le := Nat.le_refl _ }

theorem Nears.trans {s s' s'' : Spread} (h : Nears s s') (h' : Nears s' s'') : Nears s s'' where
  size_eq := h'.size_eq.trans h.size_eq
  le node := Nat.le_trans (h'.le node) (h.le node)
  kept entry hentry := h'.kept entry (h.kept entry hentry)
  listed node := by
    rcases h'.listed node with heq | hmem
    · rw [heq]
      exact (h.listed node).imp_right (h'.kept _)
    · exact Or.inr hmem
  added entry hentry := by
    rcases h'.added entry hentry with hmem | hle
    · exact (h.added entry hmem).imp_right (Nat.le_trans (h'.le _))
    · exact Or.inr hle
  allowance_le := Nat.le_trans h'.allowance_le h.allowance_le

theorem nears_reach (s : Spread) (node : NodeId) (distance : Nat) :
    Nears s (s.reach node distance) := by
  unfold reach
  split
  · next hnear =>
    obtain ⟨hnode, hlt⟩ := hnear
    refine ⟨Array.size_setIfInBounds, fun other => ?_, fun entry hentry => ?_, fun other => ?_,
      fun entry hentry => ?_, ?_⟩
    · dsimp only
      rw [distanceAt_set hnode]
      split
      · next heq =>
        rw [heq]
        exact Nat.le_of_lt hlt
      · exact Nat.le_refl _
    · exact BucketQueue.mem_insertSorted.2 (Or.inr hentry)
    · dsimp only
      rw [distanceAt_set hnode]
      split
      · next heq =>
        rw [heq]
        exact Or.inr (BucketQueue.mem_insertSorted.2 (Or.inl rfl))
      · exact Or.inl rfl
    · rcases BucketQueue.mem_insertSorted.1 hentry with rfl | hentry
      · dsimp only
        rw [distanceAt_set hnode, if_pos rfl]
        exact Or.inr (Nat.le_refl _)
      · exact Or.inl hentry
    · have hsum := sum_set_add hnode distance
      have hlength := (BucketQueue.insertSorted_perm Entry.order ⟨distance, node⟩
        s.agenda).length_eq
      rw [List.length_cons] at hlength
      rw [allowance_eq, allowance_eq]
      dsimp only
      omega
  · exact .refl s

/-- A node that was reached is no farther away than that. -/
theorem distanceAt_reach_le {s : Spread} {node : NodeId} (hnode : node < s.distances.size)
    (distance : Nat) : distanceAt (s.reach node distance).distances node ≤ distance := by
  unfold reach
  split
  · dsimp only
    rw [distanceAt_set hnode, if_pos rfl]
  · next hfar => exact Nat.le_of_not_lt fun hlt => hfar ⟨hnode, hlt⟩

/-- Reaching one node after another brings all of them as near as they were reached. -/
theorem nears_foldl_reach {α : Type} (node : α → NodeId) (distance : α → Nat) (list : List α)
    (s : Spread) :
    Nears s (list.foldl (fun s a => s.reach (node a) (distance a)) s) ∧
      ∀ a ∈ list, node a < s.distances.size →
        distanceAt (list.foldl (fun s a => s.reach (node a) (distance a)) s).distances (node a) ≤
          distance a := by
  induction list generalizing s with
  | nil => exact ⟨.refl s, fun a ha => absurd ha List.not_mem_nil⟩
  | cons first list ih =>
    have hfirst := nears_reach s (node first) (distance first)
    obtain ⟨hrest, hall⟩ := ih (s.reach (node first) (distance first))
    refine ⟨hfirst.trans hrest, fun a ha hnode => ?_⟩
    rcases List.mem_cons.1 ha with rfl | ha
    · exact Nat.le_trans (hrest.le _) (distanceAt_reach_le hnode _)
    · exact hall a ha (hfirst.size_eq.symm ▸ hnode)

theorem nears_expand (graph : QueryGraph) (direction : Direction) (weight : EdgeKind → Nat)
    (s : Spread) (entry : Entry) : Nears s (s.expand graph direction weight entry) :=
  (nears_foldl_reach _ _ _ s).1

/-- The nodes from which an edge leads to the one that is expanded are as near as that edge
brings them. -/
theorem distanceAt_expand_le (hg : graph.Sound) {s : Spread}
    (hsize : s.distances.size = graph.timetable.nodes.size) {entry : Entry} {ref : EdgeRef}
    (href : ref ∈ graph.edgesAt entry.node direction.reverse) :
    distanceAt (s.expand graph direction weight entry).distances
        (graph.target ref direction.reverse) ≤
      add entry.distance (weight (graph.edge ref).kind) := by
  have hnode := hg.node_lt (hg.mem_edgesAt_reverse.1 href).1
  exact (nears_foldl_reach (fun ref => graph.target ref direction.reverse)
    (fun ref => add entry.distance (weight (graph.edge ref).kind)) _ s).2 ref href
    (hsize.symm ▸ hnode)

theorem size_turn (s : Spread) :
    (s.turn graph direction weight).distances.size = s.distances.size := by
  unfold turn
  split
  · rfl
  · dsimp only
    split
    · rfl
    · exact (nears_expand ..).size_eq

theorem size_settle (turns : Nat) (s : Spread) :
    (s.settle graph direction weight turns).distances.size = s.distances.size := by
  induction turns generalizing s with
  | zero => rfl
  | succ turns ih =>
    unfold settle
    split
    · rfl
    · rw [ih, size_turn]

/-- Every turn uses some of the allowance up. -/
theorem allowance_turn_lt (graph : QueryGraph) (direction : Direction) (weight : EdgeKind → Nat)
    {s : Spread} (h : s.agenda ≠ []) :
    (s.turn graph direction weight).allowance < s.allowance := by
  unfold turn
  split
  · next hnil => exact absurd hnil h
  · next entry rest hcons =>
    have hrest : ({ s with agenda := rest } : Spread).allowance < s.allowance := by
      unfold allowance
      rw [hcons]
      exact Nat.lt_succ_self _
    dsimp only
    split
    · exact hrest
    · exact Nat.lt_of_le_of_lt (nears_expand ..).allowance_le hrest

/-! ## Distances are attained -/

/-- Each distance below the ceiling is that of some way. -/
def Attained (graph : QueryGraph) (direction : Direction) (weight : EdgeKind → Nat)
    (goal : NodeId) (s : Spread) : Prop :=
  ∀ node, distanceAt s.distances node < ceiling →
    ∃ rest, Way graph direction weight goal (node :: rest) (distanceAt s.distances node)

theorem Attained.reach {s : Spread} (h : s.Attained graph direction weight goal) {node : NodeId}
    {distance : Nat}
    (hway : distance < ceiling → ∃ rest, Way graph direction weight goal (node :: rest) distance) :
    (s.reach node distance).Attained graph direction weight goal := by
  unfold Spread.reach
  split
  · next hnear =>
    intro other
    dsimp only
    rw [distanceAt_set hnear.1]
    split
    · next heq =>
      rw [heq]
      exact hway
    · exact h other
  · exact h

/-- An edge leads on to a way from where the entry is. -/
theorem Attained.expand (hg : graph.Sound) {s : Spread} (h : s.Attained graph direction weight goal)
    {entry : Entry} (hway : entry.distance < ceiling →
      ∃ rest, Way graph direction weight goal (entry.node :: rest) entry.distance) :
    (s.expand graph direction weight entry).Attained graph direction weight goal := by
  unfold Spread.expand
  refine List.foldlRecOn _ _ h fun s hs ref href => hs.reach fun hlt => ?_
  obtain ⟨hback, htarget⟩ := hg.mem_edgesAt_reverse.1 href
  have hsum : add entry.distance (weight (graph.edge ref).kind) =
      weight (graph.edge ref).kind + entry.distance := by
    unfold add at hlt ⊢
    omega
  obtain ⟨rest, way⟩ := hway (by omega)
  rw [← htarget] at way
  rw [hsum]
  exact ⟨_, .step hback way⟩

/-! ## The invariant -/

/-- No node can come nearer by an edge to this one. -/
def Relaxed (graph : QueryGraph) (direction : Direction) (weight : EdgeKind → Nat)
    (s : Spread) (node : NodeId) : Prop :=
  ∀ ref ∈ graph.edgesAt node direction.reverse,
    distanceAt s.distances (graph.target ref direction.reverse) ≤
      add (distanceAt s.distances node) (weight (graph.edge ref).kind)

/-- What holds between two turns. -/
structure Sound (graph : QueryGraph) (direction : Direction) (weight : EdgeKind → Nat)
    (goal : NodeId) (s : Spread) : Prop where
  size_eq : s.distances.size = graph.timetable.nodes.size
  goal_le : distanceAt s.distances goal ≤ 0
  le_ceiling : ∀ node, distanceAt s.distances node ≤ ceiling
  attained : s.Attained graph direction weight goal
  /-- No entry is too near; it may have been overtaken. -/
  listed : ∀ entry ∈ s.agenda, distanceAt s.distances entry.node ≤ entry.distance
  pending : ∀ node, ⟨distanceAt s.distances node, node⟩ ∈ s.agenda ∨
    s.Relaxed graph direction weight node

theorem distanceAt_opening (h : goal < graph.timetable.nodes.size) (node : NodeId) :
    distanceAt (opening graph.timetable.nodes.size goal).distances node =
      if node = goal then 0 else ceiling := by
  have hsize : goal < (Array.replicate graph.timetable.nodes.size ceiling).size := by
    rw [Array.size_replicate]
    exact h
  unfold opening
  dsimp only
  rw [distanceAt_set hsize]
  unfold distanceAt
  rw [Array.getElem?_replicate]
  split
  · rfl
  · split <;> rfl

theorem sound_opening (h : goal < graph.timetable.nodes.size) :
    (opening graph.timetable.nodes.size goal).Sound graph direction weight goal := by
  have hat := distanceAt_opening h
  have hle : ∀ node,
      distanceAt (opening graph.timetable.nodes.size goal).distances node ≤ ceiling := by
    intro node
    rw [hat]
    split
    · exact Nat.zero_le _
    · exact Nat.le_refl _
  refine ⟨?_, ?_, hle, fun node hlt => ?_, fun entry hentry => ?_, fun node => ?_⟩
  · exact Array.size_setIfInBounds.trans Array.size_replicate
  · rw [hat, if_pos rfl]
  · rw [hat] at hlt ⊢
    split at hlt
    · next heq =>
      rw [if_pos heq, heq]
      exact ⟨[], .goal h⟩
    · exact absurd hlt (Nat.lt_irrefl _)
  · rw [List.mem_singleton.1 hentry, hat, if_pos rfl]
  · by_cases heq : node = goal
    · rw [hat, if_pos heq, heq]
      exact Or.inl (List.mem_singleton_self _)
    · -- nothing comes nearer by an edge to a node that is out of reach itself
      refine Or.inr fun ref _ => Nat.le_trans (hle _) ?_
      rw [hat node, if_neg heq]
      unfold add
      omega

section Turn

variable {s : Spread} {entry : Entry} {rest : List Entry}

/-- An entry that has been overtaken stands for no node any more. -/
theorem Sound.pass (h : s.Sound graph direction weight goal) (hagenda : s.agenda = entry :: rest)
    (hfar : distanceAt s.distances entry.node < entry.distance) :
    ({ s with agenda := rest } : Spread).Sound graph direction weight goal where
  size_eq := h.size_eq
  goal_le := h.goal_le
  le_ceiling := h.le_ceiling
  attained := h.attained
  listed other hother := h.listed other (hagenda ▸ List.mem_cons_of_mem entry hother)
  pending node := by
    refine (h.pending node).imp_left fun hmem => ?_
    rw [hagenda] at hmem
    rcases List.mem_cons.1 hmem with heq | hmem
    · rw [← heq] at hfar
      exact absurd hfar (Nat.lt_irrefl _)
    · exact hmem

/-- Going on from an entry relaxes its node. The others stay as they were, or are on the agenda
with the distance by which they came nearer. -/
theorem Sound.expand (hg : graph.Sound) (h : s.Sound graph direction weight goal)
    (hagenda : s.agenda = entry :: rest)
    (hnear : ¬ distanceAt s.distances entry.node < entry.distance) :
    (({ s with agenda := rest } : Spread).expand graph direction weight entry).Sound
      graph direction weight goal := by
  have hentry : distanceAt s.distances entry.node = entry.distance :=
    Nat.le_antisymm (h.listed entry (hagenda ▸ List.mem_cons_self)) (Nat.le_of_not_lt hnear)
  have hnears := nears_expand graph direction weight { s with agenda := rest } entry
  refine ⟨hnears.size_eq.trans h.size_eq, Nat.le_trans (hnears.le _) h.goal_le,
    fun node => Nat.le_trans (hnears.le _) (h.le_ceiling node), ?_, fun other hother => ?_,
    fun node => ?_⟩
  · have hattained : ({ s with agenda := rest } : Spread).Attained graph direction weight goal :=
      h.attained
    refine hattained.expand hg fun hlt => ?_
    rw [← hentry] at hlt ⊢
    exact h.attained _ hlt
  · rcases hnears.added other hother with hmem | hle
    · exact Nat.le_trans (hnears.le _)
        (h.listed other (hagenda ▸ List.mem_cons_of_mem entry hmem))
    · exact hle
  · rcases hnears.listed node with hsame | hmem
    · rcases h.pending node with hmem | hrelaxed
      · rw [hagenda] at hmem
        rcases List.mem_cons.1 hmem with heq | hmem
        · refine Or.inr fun ref href => ?_
          have hnode : node = entry.node := congrArg Entry.node heq
          rw [hsame, hnode, hentry]
          have hsize : ({ s with agenda := rest } : Spread).distances.size =
            graph.timetable.nodes.size := h.size_eq
          exact distanceAt_expand_le hg hsize (hnode ▸ href)
        · rw [hsame]
          exact Or.inl (hnears.kept _ hmem)
      · refine Or.inr fun ref href => ?_
        rw [hsame]
        exact Nat.le_trans (hnears.le _) (hrelaxed ref href)
    · exact Or.inl hmem

end Turn

theorem Sound.turn (hg : graph.Sound) {s : Spread} (h : s.Sound graph direction weight goal) :
    (s.turn graph direction weight).Sound graph direction weight goal := by
  unfold Spread.turn
  split
  · exact h
  · next hagenda =>
    dsimp only
    split
    · next hfar => exact h.pass hagenda hfar
    · next hnear => exact h.expand hg hagenda hnear

/-- With as many turns as the allowance grants, nothing is left on the agenda. -/
theorem Sound.settle (hg : graph.Sound) {s : Spread} (h : s.Sound graph direction weight goal)
    {turns : Nat} (hturns : s.allowance ≤ turns) :
    (s.settle graph direction weight turns).Sound graph direction weight goal ∧
      (s.settle graph direction weight turns).agenda = [] := by
  induction turns generalizing s with
  | zero =>
    refine ⟨h, List.eq_nil_of_length_eq_zero ?_⟩
    unfold allowance at hturns
    show s.agenda.length = 0
    omega
  | succ turns ih =>
    unfold Spread.settle
    split
    · next hempty => exact ⟨h, List.isEmpty_iff.1 hempty⟩
    · next hmore =>
      have hlt := allowance_turn_lt graph direction weight
        fun hnil => hmore (List.isEmpty_iff.2 hnil)
      exact ih (h.turn hg) (by omega)

end Spread

/-! ## The bounds of a graph -/

theorem size_distances :
    (distances graph goal direction weight).size = graph.timetable.nodes.size :=
  (Spread.size_settle _ _).trans (Array.size_setIfInBounds.trans Array.size_replicate)

section Graph

variable (hg : graph.Sound) (hgoal : goal < graph.timetable.nodes.size)

include hg hgoal

/-- The distances have spread as far as they can. -/
theorem spread_spec :
    (spread graph goal direction weight).Sound graph direction weight goal ∧
      (spread graph goal direction weight).agenda = [] :=
  (Spread.sound_opening hgoal).settle hg (Nat.le_refl _)

theorem distanceAt_le_ceiling (node : NodeId) :
    distanceAt (distances graph goal direction weight) node ≤ ceiling :=
  (spread_spec hg hgoal).1.le_ceiling node

theorem distanceAt_goal : distanceAt (distances graph goal direction weight) goal = 0 :=
  Nat.le_zero.1 (spread_spec hg hgoal).1.goal_le

/-- No edge leads to a node that is nearer to the goal by more than its weight. -/
theorem distanceAt_le_add {node : NodeId} {ref : EdgeRef}
    (href : ref ∈ graph.edgesAt node direction) :
    distanceAt (distances graph goal direction weight) node ≤
      add (distanceAt (distances graph goal direction weight) (graph.target ref direction))
        (weight (graph.edge ref).kind) := by
  obtain ⟨hsound, hempty⟩ :
      (spread graph goal direction weight).Sound graph direction weight goal ∧ _ :=
    spread_spec hg hgoal
  obtain ⟨hhas, hsource⟩ := hg.mem_edgesAt.1 href
  have hback : graph.target ref direction.reverse = node := by
    rw [QueryGraph.target, Edge.target_reverse, hsource]
  have hrev : ref ∈ graph.edgesAt (graph.target ref direction) direction.reverse := by
    rw [hg.mem_edgesAt_reverse, hback]
    exact ⟨href, rfl⟩
  rcases hsound.pending (graph.target ref direction) with hmem | hrelaxed
  · rw [hempty] at hmem
    cases hmem
  · have hle := hrelaxed ref hrev
    rw [hback] at hle
    exact hle

/-- A distance is at most what any way to the goal comes to. -/
theorem distanceAt_le {node : NodeId} {rest : List NodeId} {total : Nat}
    (h : Way graph direction weight goal (node :: rest) total) :
    distanceAt (distances graph goal direction weight) node ≤ total := by
  generalize hnodes : node :: rest = nodes at h
  induction h generalizing node rest with
  | goal h =>
    cases hnodes
    exact Nat.le_of_eq (distanceAt_goal hg hgoal)
  | @step first ref rest' total href way ih =>
    cases hnodes
    have hrest := ih rfl
    have hedge : distanceAt (distances graph goal direction weight) first ≤ _ :=
      distanceAt_le_add hg hgoal href
    unfold add at hedge
    omega

/-- A distance below the ceiling is that of some way to the goal. -/
theorem exists_way {node : NodeId}
    (h : distanceAt (distances graph goal direction weight) node < ceiling) :
    ∃ rest, Way graph direction weight goal (node :: rest)
      (distanceAt (distances graph goal direction weight) node) :=
  (spread_spec hg hgoal).1.attained node h

end Graph

theorem eq_of_distanceAt_eq {distances distances' : Array Nat}
    (hsize : distances.size = distances'.size)
    (h : ∀ node, distanceAt distances node = distanceAt distances' node) :
    distances = distances' := by
  refine Array.ext hsize fun node hnode hnode' => ?_
  have hnode'' := h node
  unfold distanceAt at hnode''
  rw [Array.getElem?_eq_getElem hnode, Array.getElem?_eq_getElem hnode'] at hnode''
  exact hnode''

/-- A graph whose ways come to no more has no greater distances. -/
theorem distanceAt_le_of_ways {graph' : QueryGraph} {node : NodeId} (hg : graph.Sound)
    (hgoal : goal < graph.timetable.nodes.size) (hg' : graph'.Sound)
    (hgoal' : goal < graph'.timetable.nodes.size)
    (hways : ∀ rest total, Way graph' direction weight goal (node :: rest) total →
      ∃ rest' total', Way graph direction weight goal (node :: rest') total' ∧ total' ≤ total) :
    distanceAt (distances graph goal direction weight) node ≤
      distanceAt (distances graph' goal direction weight) node := by
  by_cases hlt : distanceAt (distances graph' goal direction weight) node < ceiling
  · obtain ⟨rest, way⟩ := exists_way hg' hgoal' hlt
    obtain ⟨rest', total', way', hle⟩ := hways rest _ way
    exact Nat.le_trans (distanceAt_le hg hgoal way') hle
  · exact Nat.le_trans (distanceAt_le_ceiling hg hgoal node) (Nat.le_of_not_lt hlt)

end JourneyPlanner.LowerBounds
