import JourneyPlanner.Itinerary.Draft
import JourneyPlanner.Proofs.Query.Graph

/-!
# The path of a request

A request names the stations of its path in the order of travel; a search meets their nodes
in its own. `Target.travelPath` puts what a search is after back into the order of travel:

> `Request.travelPath_eq`: a query is after the nodes of the path of its request.
> `Request.stations_eq`: the stations at these nodes are the ones that the path names.
-/

namespace JourneyPlanner

/-- The nodes that a search has to come by, in the order of travel. -/
def Target.travelPath (target : Target) : Direction → List NodeId
  | .forward => target.origin :: target.vias ++ [target.goal]
  | .backward => target.goal :: target.vias.reverse ++ [target.origin]

namespace Request

variable {tt : Timetable} {request : Request}

/-- A path that is accepted has the nodes of the target, and no more to pass than can be
counted. -/
theorem target_eq_ok {target : Target} (h : request.target tt = .ok target) :
    request.pathNodes tt = .ok (target.travelPath request.direction) ∧
      target.vias.length ≤ maxVias := by
  unfold Request.target at h
  obtain ⟨nodes, hnodes, h⟩ := Fallible.bind_eq_ok.1 h
  split at h
  · cases h
  · next first rest =>
    dsimp only at h
    split at h
    · cases h
    · next hends =>
      -- a path of one station has the same ends
      have hrest : rest ≠ [] := by
        rintro rfl
        exact hends ⟨rfl, rfl⟩
      have hlast : rest = rest.dropLast ++ [rest.getLast?.getD first] := by
        rw [List.getLast?_eq_some_getLast hrest]
        exact (List.dropLast_append_getLast hrest).symm
      split at h
      · cases h
      · next hvias =>
        have hvias := Nat.le_of_not_lt hvias
        split at h
        · next hd =>
          cases h
          rw [hnodes, hd]
          exact ⟨congrArg (fun l => Except.ok (first :: l)) hlast, hvias⟩
        · next hd =>
          cases h
          rw [hnodes, hd]
          refine ⟨?_, by rw [List.length_reverse]; exact hvias⟩
          unfold Target.travelPath
          dsimp only
          rw [List.reverse_reverse]
          exact congrArg (fun l => Except.ok (first :: l)) hlast

/-- A query is after the nodes of the path of its request. -/
theorem travelPath_eq {q : Query} (h : request.toQuery tt = .ok q) :
    request.pathNodes tt = .ok (q.target.travelPath request.direction) ∧
      q.target.vias.length ≤ maxVias := by
  obtain ⟨target, begin, finish, -, ht, -, rfl⟩ := toQuery_eq_ok.1 h
  exact target_eq_ok ht

/-- All nodes to pass are those of stations. -/
theorem isStation_of_mem_vias (hs : tt.Sound) {q : Query} (h : request.toQuery tt = .ok q) :
    ∀ via ∈ q.target.vias, Node.IsStation tt.nodes via := by
  intro via hvia
  refine isStation_of_pathNodes hs (travelPath_eq h).1 via ?_
  cases request.direction with
  | forward => exact List.mem_cons_of_mem _ (List.mem_append_left _ hvia)
  | backward =>
    exact List.mem_cons_of_mem _ (List.mem_append_left _ (List.mem_reverse.2 hvia))

/-- The station at the node that is found for an identifier is the one so called. -/
theorem stopAt_of_stationNode? (hs : tt.Sound) {id : String} {node : NodeId}
    (h : tt.stationNode? id = some node) : (Draft.stopAt tt node).station = id := by
  obtain ⟨index, station, hstation, hname, rfl⟩ := Timetable.exists_of_stationNode? h
  have hat : tt.stationAt? station.node = some station := by
    unfold Timetable.stationAt? Timetable.node
    rw [hs.parts.station index station hstation]
    exact hstation
  unfold Draft.stopAt
  rw [hat]
  exact hname

/-- The stations at the nodes of a path are the ones that the path names. -/
theorem stations_eq (hs : tt.Sound) {nodes : List NodeId}
    (h : request.pathNodes tt = .ok nodes) :
    request.path.map PathStop.station = nodes.map fun node => (Draft.stopAt tt node).station := by
  unfold Request.pathNodes at h
  generalize request.path = path at h
  induction path generalizing nodes with
  | nil =>
    cases h
    rfl
  | cons stop path ih =>
    rw [List.mapM_cons] at h
    obtain ⟨node, hnode, h⟩ := Fallible.bind_eq_ok.1 h
    obtain ⟨rest, hrest, h⟩ := Fallible.bind_eq_ok.1 h
    cases h
    rw [List.map_cons, List.map_cons, ih hrest]
    split at hnode
    · next found hfound =>
      cases hnode
      rw [stopAt_of_stationNode? hs hfound]
    · cases hnode

end Request

end JourneyPlanner
