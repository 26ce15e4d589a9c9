import JourneyPlanner.Proofs.Search.Trail
import JourneyPlanner.Proofs.Storage.Pool
import JourneyPlanner.Proofs.Storage.Queue

/-!
# The labels of a search

What holds of the labels of a search whenever one of them has been handled:

* a slot is in the queue or settled, never both and never twice, and it is in
  use; no other slot is;
* the slots from a label back to its start make a trail, and were settled in
  that order;
* the labels settled at a node are there, and the results are among them, at the
  goal.

`Frontier.Sound` says so of a frontier and of the list of all settled slots, the
last first. That list is not kept by the search. It is what makes the slots of a
trail distinct: they are a sublist of it.

Between the moment in which a label is taken from the queue and its being
settled or released it is in neither place, so `Sound` takes a third list, of
the slots that are held.
-/

namespace JourneyPlanner.Frontier

/-- The slots from one back to its start, with their labels. -/
inductive Links (pool : Pool Label) : Option LabelId → List (LabelId × Label) → Prop
  | nil : Links pool none []
  | cons {id : LabelId} {label : Label} {links : List (LabelId × Label)}
      (hget : pool.get? id = some label) (rest : Links pool label.pred links) :
      Links pool (some id) ((id, label) :: links)

/-- The slots in the queue. -/
def queued (f : Frontier) : List LabelId := f.queue.items.map (·.id)

/-- With nothing in the queue no slot is queued. -/
theorem queued_eq_nil {f : Frontier} (h : f.queue.items = []) : f.queued = [] := by
  unfold queued
  rw [h]
  rfl

/-- The slots settled at a node. -/
def settledAt (f : Frontier) (node : NodeId) : List LabelId := f.settled[node]?.getD []

/-- The label in a slot, with its way back: a trail, over slots that have been
settled. -/
structure Traced (q : Query) (settings : Settings) (measures : List Measure) (pool : Pool Label)
    (order : List LabelId) (id : LabelId) (label : Label) (links : List (LabelId × Label)) :
    Prop where
  linked : Links pool (some id) ((id, label) :: links)
  trail : Trail q settings measures (label :: links.map (·.2))
  sublist : (links.map (·.1)).Sublist order

/-- What holds of the labels of a search; see the head of this file. -/
structure Sound (q : Query) (settings : Settings) (measures : List Measure) (f : Frontier)
    (order held : List LabelId) : Prop where
  laid : f.pool.Laid
  queue : f.queue.Sound
  nodup : (order ++ (held ++ f.queued)).Nodup
  live_eq : f.pool.live = order.length + held.length + f.queued.length
  waiting : ∀ id ∈ held ++ f.queued, ∃ label links,
    Traced q settings measures f.pool order id label links
  passed : ∀ id ∈ order, ∃ label links, Traced q settings measures f.pool order id label links ∧
    (id :: links.map (·.1)).Sublist order
  settled : ∀ (node : NodeId) (id : LabelId), id ∈ f.settledAt node ↔
    id ∈ order ∧ ∃ label, f.pool.get? id = some label ∧ label.node = node
  results : ∀ id ∈ f.results, id ∈ order ∧
    ∃ label, f.pool.get? id = some label ∧ q.target.isGoal label = true
  room : q.graph.timetable.nodes.size ≤ f.settled.size

/-- Labels have been added, and nothing else has changed. -/
structure Grows (f f' : Frontier) : Prop where
  keeps : ∀ id label, f.pool.get? id = some label → f'.pool.get? id = some label
  queued : ∀ id ∈ f.queued, id ∈ f'.queued
  settled_eq : f'.settled = f.settled
  results_eq : f'.results = f.results

theorem Grows.refl (f : Frontier) : f.Grows f := ⟨fun _ _ h => h, fun _ h => h, rfl, rfl⟩

/-- A slot in use keeps its label when labels are added. -/
theorem Grows.get?_eq {f f' : Frontier} {id : LabelId} (h : f.Grows f')
    (hid : ∃ label, f.pool.get? id = some label) : f'.pool.get? id = f.pool.get? id := by
  obtain ⟨label, hget⟩ := hid
  rw [h.keeps id label hget, hget]

/-- Labels that are added in two goes are all there. -/
theorem Grows.trans {f f' f'' : Frontier} (h : f.Grows f') (h' : f'.Grows f'') : f.Grows f'' :=
  ⟨fun id label hget => h'.keeps id label (h.keeps id label hget),
    fun id hid => h'.queued id (h.queued id hid), h'.settled_eq.trans h.settled_eq,
    h'.results_eq.trans h.results_eq⟩

/-! ## Ways back -/

section Links

variable {pool pool' : Pool Label}

/-- The way back from a slot begins with its own label. -/
theorem Links.get? {id : LabelId} {label : Label} {links : List (LabelId × Label)}
    (h : Links pool (some id) ((id, label) :: links)) : pool.get? id = some label := by
  cases h
  assumption

/-- All labels of the way back are in their slots. -/
theorem Links.get?_of_mem {start : Option LabelId} {links : List (LabelId × Label)}
    (h : Links pool start links) {link : LabelId × Label} (hlink : link ∈ links) :
    pool.get? link.1 = some link.2 := by
  induction h with
  | nil => cases hlink
  | cons hget rest ih =>
    rcases List.mem_cons.1 hlink with rfl | hlink
    · exact hget
    · exact ih hlink

/-- There is one way back from a slot. -/
theorem Links.eq {start : Option LabelId} {links links' : List (LabelId × Label)}
    (h : Links pool start links) (h' : Links pool start links') : links = links' := by
  induction h generalizing links' with
  | nil =>
    cases h'
    rfl
  | cons hget rest ih =>
    cases h' with
    | cons hget' rest' =>
      rw [hget] at hget'
      cases hget'
      rw [ih rest']

/-- A way back stays as long as its own slots do. -/
theorem Links.congr {start : Option LabelId} {links : List (LabelId × Label)}
    (h : Links pool start links)
    (hsame : ∀ id ∈ links.map (·.1), pool'.get? id = pool.get? id) :
    Links pool' start links := by
  induction h with
  | nil => exact .nil
  | cons hget rest ih =>
    refine .cons ?_ (ih fun id hid => hsame id (List.mem_cons_of_mem _ hid))
    rw [hsame _ List.mem_cons_self]
    exact hget

variable {q : Query} {settings : Settings} {measures : List Measure} {order order' : List LabelId}
  {id : LabelId} {label : Label} {links : List (LabelId × Label)}

/-- A traced label is in its slot. -/
theorem Traced.get? (h : Traced q settings measures pool order id label links) :
    pool.get? id = some label := h.linked.get?

/-- A trace depends on the labels in its own slots alone. -/
theorem Traced.congr (h : Traced q settings measures pool order id label links)
    (hid : pool'.get? id = pool.get? id)
    (hsame : ∀ other ∈ order, pool'.get? other = pool.get? other) :
    Traced q settings measures pool' order id label links := by
  refine ⟨h.linked.congr fun other hother => ?_, h.trail, h.sublist⟩
  rcases List.mem_cons.1 hother with rfl | hother
  · exact hid
  · exact hsame other (h.sublist.subset hother)

/-- A trace stays one when more slots are settled. -/
theorem Traced.grow (h : Traced q settings measures pool order id label links)
    (hsub : order.Sublist order') : Traced q settings measures pool order' id label links :=
  ⟨h.linked, h.trail, h.sublist.trans hsub⟩

end Links

section Steps

variable {q : Query} {settings : Settings} {measures : List Measure} {f f' : Frontier}
  {order held : List LabelId}

/-- The slot of a label that is queued, held or settled is in use. -/
theorem Sound.isSome (h : Sound q settings measures f order held) {id : LabelId}
    (hid : id ∈ order ++ (held ++ f.queued)) : ∃ label, f.pool.get? id = some label := by
  rcases List.mem_append.1 hid with hid | hid
  · obtain ⟨label, links, ht, -⟩ := h.passed id hid
    exact ⟨label, ht.get?⟩
  · obtain ⟨label, links, ht⟩ := h.waiting id hid
    exact ⟨label, ht.get?⟩

/-- Where nothing has been settled, no node has settled labels. -/
theorem Sound.settledAt_eq_nil (h : Sound q settings measures f [] held) (node : NodeId) :
    f.settledAt node = [] := by
  refine List.eq_nil_iff_forall_not_mem.2 fun id hid => ?_
  exact absurd ((h.settled node id).1 hid).1 List.not_mem_nil

/-- The label held in the hand has a trace. -/
theorem Sound.traced_of_held {id : LabelId} (h : Sound q settings measures f order [id])
    {label : Label} (hget : f.pool.get? id = some label) :
    ∃ links, Traced q settings measures f.pool order id label links := by
  obtain ⟨label', links, ht⟩ := h.waiting id List.mem_cons_self
  have heq := ht.get?
  rw [hget] at heq
  cases heq
  exact ⟨links, ht⟩

/-- A settled label has a trace, over slots settled in that order. -/
theorem Sound.traced_of_passed (h : Sound q settings measures f order held) {id : LabelId}
    (hid : id ∈ order) {label : Label} (hget : f.pool.get? id = some label) :
    ∃ links, Traced q settings measures f.pool order id label links ∧
      (id :: links.map (·.1)).Sublist order := by
  obtain ⟨label', links, ht, hsub⟩ := h.passed id hid
  have heq := ht.get?
  rw [hget] at heq
  cases heq
  exact ⟨links, ht, hsub⟩

/-- A result is the end of a trail. -/
theorem Sound.trail_of_result (h : Sound q settings measures f order held) {id : LabelId}
    (hid : id ∈ f.results) {label : Label} (hget : f.pool.get? id = some label) :
    ∃ before, Trail q settings measures (label :: before) := by
  obtain ⟨links, ht, -⟩ := h.traced_of_passed (h.results id hid).1 hget
  exact ⟨_, ht.trail⟩

/-- The slot in the hand is neither settled nor in the queue. -/
theorem Sound.ne_of_held {id other : LabelId} (h : Sound q settings measures f order [id])
    (ho : other ∈ order ++ f.queued) : other ≠ id := by
  intro heq
  have hnd := h.nodup
  rw [List.singleton_append, List.perm_middle.nodup_iff, List.nodup_cons] at hnd
  exact hnd.1 (heq ▸ ho)

/-! What is said of the settled labels holds in any pool that has the same ones. -/

section Same

variable {pool : Pool Label}

/-- The settled labels keep their traces where their slots stay. -/
theorem Sound.passed_congr (h : Sound q settings measures f order held)
    (hsame : ∀ other ∈ order, pool.get? other = f.pool.get? other) :
    ∀ id ∈ order, ∃ label links, Traced q settings measures pool order id label links ∧
      (id :: links.map (·.1)).Sublist order := by
  intro id hid
  obtain ⟨label, links, ht, hs⟩ := h.passed id hid
  exact ⟨label, links, ht.congr (hsame id hid) hsame, hs⟩

/-- The lists of the nodes still hold the settled labels where their slots stay. -/
theorem Sound.settled_congr (h : Sound q settings measures f order held)
    (hsame : ∀ other ∈ order, pool.get? other = f.pool.get? other) (node : NodeId)
    (id : LabelId) :
    id ∈ f.settledAt node ↔
      id ∈ order ∧ ∃ label, pool.get? id = some label ∧ label.node = node := by
  rw [h.settled node id]
  constructor
  · rintro ⟨hid, label, hget, hnode⟩
    exact ⟨hid, label, (hsame id hid).trans hget, hnode⟩
  · rintro ⟨hid, label, hget, hnode⟩
    exact ⟨hid, label, (hsame id hid).symm.trans hget, hnode⟩

/-- The results are still labels at the goal where the settled slots stay. -/
theorem Sound.results_congr (h : Sound q settings measures f order held)
    (hsame : ∀ other ∈ order, pool.get? other = f.pool.get? other) :
    ∀ id ∈ f.results, id ∈ order ∧
      ∃ label, pool.get? id = some label ∧ q.target.isGoal label = true := by
  intro id hid
  obtain ⟨hin, label, hget, hgoal⟩ := h.results id hid
  exact ⟨hin, label, (hsame id hin).trans hget, hgoal⟩

end Same

/-! ## Taking from the queue -/

/-- Taking the next label from the queue puts it into the hand. -/
theorem Sound.pop (h : Sound q settings measures f order []) {item : Queued}
    {queue : BucketQueue Queued} (hp : f.queue.items.Perm (item :: queue.items))
    (hq : queue.Sound) :
    Sound q settings measures { f with queue } order [item.id] := by
  have hperm : f.queued.Perm (item.id :: queue.items.map (·.id)) := hp.map _
  have hmem : ∀ id, id ∈ [item.id] ++ queue.items.map (·.id) → id ∈ [] ++ f.queued := by
    intro id hid
    exact hperm.mem_iff.2 hid
  refine ⟨h.laid, hq, ?_, ?_, fun id hid => h.waiting id (hmem id hid), h.passed, h.settled,
    h.results, h.room⟩
  · exact (hperm.append_left order).nodup_iff.1 h.nodup
  · have hl := hperm.length_eq
    have hlive := h.live_eq
    simp only [List.length_nil, List.length_cons, Frontier.queued] at hl hlive ⊢
    omega

/-! ## Queueing a label -/

/-- A label that is taken in gets a slot and waits in the queue under its own criteria. -/
theorem push_eq_true {label : Label} (h : f.push label = (true, f')) :
    ∃ id, f.pool.alloc label = (some id, f'.pool) ∧
      f'.queue =
        f.queue.push Queued.order label.criteria.bucket { id, criteria := label.criteria } ∧
      f'.settled = f.settled ∧ f'.results = f.results := by
  unfold Frontier.push at h
  dsimp only at h
  split at h
  · cases h
  · next id pool halloc =>
    cases h
    exact ⟨id, halloc, rfl, rfl, rfl⟩

/-- A label that is queued goes into a slot that was not in use, and nothing else
changes. -/
theorem push_spec {label : Label} (hlaid : f.pool.Laid) (h : f.push label = (true, f')) :
    ∃ id, f.pool.get? id = none ∧ f'.pool.get? id = some label ∧
      (∀ other, other ≠ id → f'.pool.get? other = f.pool.get? other) ∧
      f'.queued.Perm (id :: f.queued) ∧ f'.pool.Laid ∧ f'.pool.live = f.pool.live + 1 := by
  obtain ⟨id, halloc, hqueue, -, -⟩ := push_eq_true h
  obtain ⟨hfree, hnew, hother, hlaid', hlive⟩ := Pool.alloc_spec hlaid halloc
  refine ⟨id, hfree, hnew, hother, ?_, hlaid', hlive⟩
  unfold Frontier.queued
  rw [hqueue]
  exact BucketQueue.items_push.map _

/-- A label may be queued if its way back is settled and it goes on from there
as a trail. -/
theorem Sound.push (h : Sound q settings measures f order held) {label : Label}
    (links : List (LabelId × Label)) (hlinks : Links f.pool label.pred links)
    (htrail : Trail q settings measures (label :: links.map (·.2)))
    (hsub : (links.map (·.1)).Sublist order) (hpush : f.push label = (true, f')) :
    Sound q settings measures f' order held ∧ f.Grows f' ∧
      ∃ id ∈ f'.queued, f'.pool.get? id = some label := by
  obtain ⟨_, -, hqueue, hsettled, hresults⟩ := push_eq_true hpush
  obtain ⟨id, hfree, hnew, hother, hperm, hlaid, hlive⟩ := push_spec h.laid hpush
  -- the slot is a fresh one, so that no label there was changes
  have hfresh : ∀ other l, f.pool.get? other = some l → other ≠ id := by
    intro other l hl heq
    rw [heq, hfree] at hl
    cases hl
  have hkeep : ∀ other l, f.pool.get? other = some l → f'.pool.get? other = some l := by
    intro other l hl
    rw [hother other (hfresh other l hl)]
    exact hl
  have hsame : ∀ other ∈ order ++ (held ++ f.queued), f'.pool.get? other = f.pool.get? other := by
    intro other ho
    obtain ⟨l, hl⟩ := h.isSome ho
    exact hother other (hfresh other l hl)
  have hsameOrder : ∀ other ∈ order, f'.pool.get? other = f.pool.get? other :=
    fun other ho => hsame other (List.mem_append_left _ ho)
  have hqueued : ∀ other ∈ f.queued, other ∈ f'.queued :=
    fun other ho => hperm.mem_iff.2 (List.mem_cons_of_mem id ho)
  refine ⟨⟨hlaid, ?_, ?_, ?_, ?_, ?_, ?_, ?_, ?_⟩, ⟨hkeep, hqueued, hsettled, hresults⟩, id,
    hperm.mem_iff.2 List.mem_cons_self, hnew⟩
  · rw [hqueue]
    exact h.queue.push
  · have hnotin : id ∉ order ++ (held ++ f.queued) := by
      intro hid
      obtain ⟨l, hl⟩ := h.isSome hid
      exact hfresh id l hl rfl
    have hp : (order ++ (held ++ f'.queued)).Perm (id :: (order ++ (held ++ f.queued))) := by
      refine (List.Perm.append_left order (List.Perm.append_left held hperm)).trans ?_
      refine (List.Perm.append_left order List.perm_middle).trans ?_
      exact List.perm_middle
    exact hp.nodup_iff.2 (List.nodup_cons.2 ⟨hnotin, h.nodup⟩)
  · have := h.live_eq
    have hl := hperm.length_eq
    rw [List.length_cons] at hl
    omega
  · intro other ho
    rcases List.mem_append.1 ho with ho | ho
    · obtain ⟨l, links', ht⟩ := h.waiting other (List.mem_append_left _ ho)
      exact ⟨l, links', ht.congr (hsame other
        (List.mem_append_right _ (List.mem_append_left _ ho))) hsameOrder⟩
    · rcases List.mem_cons.1 (hperm.mem_iff.1 ho) with rfl | ho
      · refine ⟨label, links, ⟨.cons hnew (hlinks.congr fun o hmem => ?_), htrail, hsub⟩⟩
        exact hsameOrder o (hsub.subset hmem)
      · obtain ⟨l, links', ht⟩ := h.waiting other (List.mem_append_right _ ho)
        exact ⟨l, links', ht.congr (hsame other
          (List.mem_append_right _ (List.mem_append_right _ ho))) hsameOrder⟩
  · exact h.passed_congr hsameOrder
  · intro node other
    rw [Frontier.settledAt, hsettled]
    exact h.settled_congr hsameOrder node other
  · rw [hresults]
    exact h.results_congr hsameOrder
  · rw [hsettled]
    exact h.room

/-! ## Releasing and settling the label in the hand -/

/-- Giving back the label in the hand keeps the storage sound, and the other slots. -/
theorem Sound.discard {id : LabelId} (h : Sound q settings measures f order [id]) :
    Sound q settings measures (f.discard id) order [] ∧
      ∀ other, other ≠ id → (f.discard id).pool.get? other = f.pool.get? other := by
  obtain ⟨label, links, ht⟩ := h.waiting id (by simp)
  obtain ⟨hnone, hother, hlaid, hlive⟩ := Pool.dealloc_spec h.laid ht.get?
  have hnd := h.nodup
  rw [List.singleton_append, List.perm_middle.nodup_iff, List.nodup_cons] at hnd
  have hsame : ∀ other ∈ order ++ f.queued,
      (f.discard id).pool.get? other = f.pool.get? other :=
    fun other ho => hother other (h.ne_of_held ho)
  have hsameOrder : ∀ other ∈ order, (f.discard id).pool.get? other = f.pool.get? other :=
    fun other ho => hsame other (List.mem_append_left _ ho)
  refine ⟨⟨hlaid, h.queue, hnd.2, ?_, ?_, ?_, ?_, ?_, h.room⟩, hother⟩
  · have hl := h.live_eq
    show (f.pool.dealloc id).2.live = order.length + 0 + f.queued.length
    rw [hlive]
    rw [List.length_singleton] at hl
    omega
  · intro other ho
    have ho' : other ∈ f.queued := ho
    obtain ⟨l, links', ht'⟩ := h.waiting other (List.mem_append_right _ ho')
    exact ⟨l, links', ht'.congr (hsame other (List.mem_append_right _ ho')) hsameOrder⟩
  · exact h.passed_congr hsameOrder
  · exact h.settled_congr hsameOrder
  · exact h.results_congr hsameOrder

/-- Settling puts the slot in front of the list of its own node. -/
theorem settledAt_settle {node : NodeId} {id : LabelId} (h : node < f.settled.size)
    (other : NodeId) : (f.settle node id).settledAt other =
      if node = other then id :: f.settledAt other else f.settledAt other := by
  unfold Frontier.settledAt Frontier.settle
  rw [Array.getElem?_modify]
  split
  · next heq =>
    subst heq
    rw [Array.getElem?_eq_getElem h]
    rfl
  · rfl

/-- There is a list for the node of the label in the hand. -/
theorem Sound.node_lt (hq : q.Sound) {id : LabelId} (h : Sound q settings measures f order [id])
    {label : Label} (hget : f.pool.get? id = some label) : label.node < f.settled.size := by
  obtain ⟨links, ht⟩ := h.traced_of_held hget
  have hp := ht.trail.placed hq
  apply Nat.lt_of_lt_of_le _ h.room
  by_cases hf : label.OnFoot
  · exact (hp.station hf).lt_size
  · exact (hp.stop hf).lt_size

/-- Settling the label in the hand keeps the storage sound. -/
theorem Sound.settle (hq : q.Sound) {id : LabelId} (h : Sound q settings measures f order [id])
    {label : Label} (hget : f.pool.get? id = some label) :
    Sound q settings measures (f.settle label.node id) (id :: order) [] := by
  obtain ⟨links, ht⟩ := h.traced_of_held hget
  have hsub : order.Sublist (id :: order) := List.sublist_cons_self id order
  have hroom := h.node_lt hq hget
  refine ⟨h.laid, h.queue, ?_, ?_, ?_, ?_, ?_, ?_, ?_⟩
  · have hnd := h.nodup
    rw [List.singleton_append] at hnd
    exact List.perm_middle.nodup_iff.1 hnd
  · have hl := h.live_eq
    show f.pool.live = (order.length + 1) + 0 + f.queued.length
    rw [List.length_singleton] at hl
    omega
  · intro other ho
    obtain ⟨l, links', ht'⟩ := h.waiting other (List.mem_append_right _ ho)
    exact ⟨l, links', ht'.grow hsub⟩
  · intro other ho
    rcases List.mem_cons.1 ho with rfl | ho
    · exact ⟨label, links, ht.grow hsub, ht.sublist.cons_cons _⟩
    · obtain ⟨l, links', ht', hs⟩ := h.passed other ho
      exact ⟨l, links', ht'.grow hsub, hs.trans hsub⟩
  · intro node other
    rw [settledAt_settle hroom]
    have hold := h.settled node other
    split
    · next hnode =>
      rw [List.mem_cons, hold, List.mem_cons]
      constructor
      · rintro (rfl | ⟨ho, hl⟩)
        · exact ⟨Or.inl rfl, label, hget, hnode⟩
        · exact ⟨Or.inr ho, hl⟩
      · rintro ⟨rfl | ho, hl⟩
        · exact Or.inl rfl
        · exact Or.inr ⟨ho, hl⟩
    · next hnode =>
      -- the label in the hand is at its own node only
      rw [hold, List.mem_cons]
      constructor
      · rintro ⟨ho, hl⟩
        exact ⟨Or.inr ho, hl⟩
      · rintro ⟨rfl | ho, l, hl, hn⟩
        · have hl' : f.pool.get? other = some l := hl
          rw [hget] at hl'
          cases hl'
          exact absurd hn hnode
        · exact ⟨ho, l, hl, hn⟩
  · intro other ho
    obtain ⟨hin, l, hl, hg⟩ := h.results other ho
    exact ⟨List.mem_cons_of_mem _ hin, l, hl, hg⟩
  · show _ ≤ (f.settled.modify label.node (id :: ·)).size
    rw [Array.size_modify]
    exact h.room

/-- The results may be any settled labels at the goal. -/
theorem Sound.setResults (h : Sound q settings measures f order held) {results : List LabelId}
    (hall : ∀ id ∈ results, id ∈ f.results ∨ id ∈ order ∧
      ∃ label, f.pool.get? id = some label ∧ q.target.isGoal label = true) :
    Sound q settings measures { f with results } order held := by
  refine ⟨h.laid, h.queue, h.nodup, h.live_eq, h.waiting, h.passed, h.settled, ?_, h.room⟩
  intro id hid
  rcases hall id hid with hid | hid
  · exact h.results id hid
  · exact hid

end Steps

end JourneyPlanner.Frontier
