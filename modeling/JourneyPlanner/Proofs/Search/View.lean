import JourneyPlanner.Proofs.Search.Order
import JourneyPlanner.Proofs.Search.Results
import JourneyPlanner.Proofs.Storage.Line

/-!
# A search without its slots

Two searches over one query may hold the same labels in different slots, since slots are
taken and released in the order in which labels come and go. A `View` tells what labels
there are and leaves out where they lie: those that wait, in the order in which they go,
those settled at each node, and the results. A label is seen without the slot of the one
it came from (`Label.bare`), which is all that its slots leave in it.

What a search does with the label that goes first can be said of views alone
(`View.handle`), and a turn of the search does just that to what is seen of it:

> `Turn.view`: the first that waits is taken, and what is seen after the turn is what
> becomes of it.

The equations behind it follow the operations of the frontier one by one.
-/

namespace JourneyPlanner

/-- A label without the slot of the one that it came from. -/
def Label.bare (label : Label) : Label := { label with pred := none }

/-- Where one label stands to another among those that wait. -/
def Label.place (sorted : Bool) (a b : Label) : Ordering :=
  BucketQueue.place Criteria.bucket sorted Criteria.order a.criteria b.criteria

/-- Whether one result beats another. -/
def Label.beats (a b : Label) : Bool := a.criteria.dominates false b.criteria

/-- Whether two results are the same. -/
def Label.sameResult (a b : Label) : Bool :=
  a.criteria == b.criteria && a.start == b.start && a.now == b.now

/-- Whether the limits allow a label. -/
def Label.allowed (settings : Settings) (label : Label) : Bool := !label.criteria.isBeyond settings

theorem Label.allowed_iff {settings : Settings} {label : Label} :
    label.allowed settings = true ↔ label.criteria.isBeyond settings = false := by
  unfold Label.allowed
  rw [Bool.not_eq_true']

/-- The labels that a search starts from, but for those that a limit rules out. -/
def Query.starts (q : Query) (settings : Settings) : List Label :=
  (q.startTimes.map (Run.startLabel q Measure.all)).filter (Label.allowed settings)

/-- Where an edge leads from a label, unless a limit rules it out. -/
def Query.next? (q : Query) (settings : Settings) (label : Label) (ref : EdgeRef) : Option Label :=
  match Run.expandEdge q settings 0 label ref with
  | .ok (some next) => if next.allowed settings then some next.bare else none
  | _ => none

/-- Where the edges lead from a label, one after the other. -/
def Query.nexts (q : Query) (settings : Settings) (label : Label) : List Label :=
  (q.graph.edgesAt label.node q.direction).filterMap (q.next? settings label)

/-- The labels of a search, whatever slots they lie in. -/
@[ext]
structure View where
  /-- Those in the queue, in the order in which they go. -/
  waiting : List Label
  settled : NodeId → List Label
  results : List Label

namespace View

/-- Puts a label among those that wait. -/
def enqueue (sorted : Bool) (v : View) (label : Label) : View :=
  { v with waiting := BucketQueue.insertSorted (Label.place sorted) label v.waiting }

/-- Settles a label at its node. -/
def settle (v : View) (label : Label) : View :=
  { v with
    settled := fun node =>
      if label.node = node then label :: v.settled node else v.settled node }

/-- Takes a label among the results, unless a result beats it or is the same. -/
def report (v : View) (label : Label) : View :=
  { v with results := (Front.insert Label.beats Label.sameResult v.results label).2 }

/-- Whether a result beats the best that a label can come to, or a label settled at its node
replaces it. -/
def beaten (direction : Direction) (v : View) (label : Label) : Bool :=
  v.results.any (fun result => result.criteria.dominates true label.criteria) ||
    (v.settled label.node).any fun other => Frontier.replaces direction other label

/-- What becomes of a label that has been taken: it is dropped, becomes a result, or is
expanded. -/
def handle (q : Query) (settings : Settings) (v : View) (label : Label) : View :=
  if v.beaten q.direction label then v
  else if q.target.isGoal label then (v.settle label).report label
  else (q.nexts settings label).foldl (enqueue settings.sortedBuckets) (v.settle label)

end View

/-- What is seen of the label in a slot. -/
def Frontier.bare? (f : Frontier) (id : LabelId) : Option Label := (f.label? id).map Label.bare

/-- What is seen of a frontier. -/
def Frontier.view (f : Frontier) : View where
  waiting := f.queued.filterMap f.bare?
  settled node := (f.settledAt node).filterMap f.bare?
  results := f.results.filterMap f.bare?

/-! ## Taking an edge -/

/-- The slot that a label lies in makes no difference to where an edge leads from it, nor
that of the label it came from. -/
theorem Query.next?_bare (q : Query) (settings : Settings) (id : LabelId) (label : Label)
    (ref : EdgeRef) : q.next? settings label.bare ref =
      match Run.expandEdge q settings id label ref with
      | .ok (some next) => if next.allowed settings then some next.bare else none
      | _ => none := by
  have hcost : edgeCost q.graph label.bare ref q.direction settings.maxMinutes =
      edgeCost q.graph label ref q.direction settings.maxMinutes := rfl
  have hnow : label.bare.now = label.now := rfl
  unfold Query.next? Run.expandEdge
  rw [hcost, hnow]
  cases edgeCost q.graph label ref q.direction settings.maxMinutes with
  | error fault => rfl
  | ok found =>
    cases found with
    | none => rfl
    | some cost =>
      dsimp only
      cases Run.timeAfter? label.now cost.time q.direction with
      | none => rfl
      | some now => rfl

/-! ## The operations of a frontier -/

namespace Frontier

variable {q : Query} {settings : Settings} {f f' : Frontier} {order held : List LabelId}
  {id : LabelId} {label : Label}

theorem bare?_eq (hget : f.pool.get? id = some label) : f.bare? id = some label.bare := by
  unfold bare? label?
  rw [hget]
  rfl

theorem filterMap_bare?_congr {ids : List LabelId}
    (hsame : ∀ id ∈ ids, f'.pool.get? id = f.pool.get? id) :
    ids.filterMap f'.bare? = ids.filterMap f.bare? := by
  refine List.filterMap_congr fun id hid => ?_
  unfold bare? label?
  rw [hsame id hid]

/-- As long as the settled labels stay, only those that wait can look different. -/
theorem Sound.view_eq (hs : Sound q settings Measure.all f order held)
    (hsettled : f'.settled = f.settled) (hresults : f'.results = f.results)
    (hsame : ∀ id ∈ order, f'.pool.get? id = f.pool.get? id) :
    f'.view = { f.view with waiting := f'.view.waiting } := by
  apply View.ext
  · rfl
  · funext node
    show (f'.settledAt node).filterMap f'.bare? = (f.settledAt node).filterMap f.bare?
    have hat : f'.settledAt node = f.settledAt node := by
      unfold settledAt
      rw [hsettled]
    rw [hat]
    exact filterMap_bare?_congr fun id hid => hsame id ((hs.settled node id).1 hid).1
  · show f'.results.filterMap f'.bare? = f.results.filterMap f.bare?
    rw [hresults]
    exact filterMap_bare?_congr fun id hid => hsame id (hs.results id hid).1

/-- A label that is queued under its own key is put in its place among those that wait. -/
theorem Sound.view_push (hs : Sound q settings Measure.all f order held)
    (hl : f.InLine settings) (hfull : label.criteria.Full)
    (hin : label.criteria.isBeyond settings = false)
    (hcursor : f.queue.cursor ≤ label.criteria.bucket) (hpush : f.push label = (true, f')) :
    f'.view = f.view.enqueue settings.sortedBuckets label.bare := by
  obtain ⟨id, halloc, hqueue, hsettled, hresults⟩ := push_eq_true hpush
  obtain ⟨hfree, hnew, hother, -, -⟩ := Pool.alloc_spec hs.laid halloc
  -- the slot is a fresh one, so that no label there was looks different
  have hsame : ∀ other ∈ order ++ (held ++ f.queued),
      f'.pool.get? other = f.pool.get? other := by
    intro other ho
    obtain ⟨l, hl⟩ := hs.isSome ho
    refine hother other fun heq => ?_
    rw [heq, hfree] at hl
    cases hl
  have hkey : f.queue.bucketOf (Queued.key ⟨id, label.criteria⟩) =
      Queued.key ⟨id, label.criteria⟩ := hl.bucketOf_eq hfull hin hcursor
  have hitems : f'.queue.items = BucketQueue.insertSorted
      (BucketQueue.place Queued.key f.queue.sorted Queued.order) ⟨id, label.criteria⟩
      f.queue.items := by
    rw [hqueue]
    show (f.queue.push Queued.order (Queued.key ⟨id, label.criteria⟩)
      ⟨id, label.criteria⟩).items = _
    rw [hl.ranked.items_push hkey]
  have hwaiting : f'.view.waiting =
      BucketQueue.insertSorted (Label.place settings.sortedBuckets) label.bare f.view.waiting := by
    have hold : f.view.waiting = f.queue.items.filterMap fun item => f'.bare? item.id := by
      show f.queued.filterMap f.bare? = _
      rw [← filterMap_bare?_congr fun other ho => hsame other
        (List.mem_append_right _ (List.mem_append_right _ ho))]
      exact List.filterMap_map
    have hall : f'.view.waiting = f'.queue.items.filterMap fun item => f'.bare? item.id :=
      List.filterMap_map
    have hpick : f'.bare? id = some label.bare := bare?_eq hnew
    have hcompare : ∀ item ∈ f.queue.items, Queued.order item ⟨id, label.criteria⟩ ≠ .gt ↔
        Queued.rank item ≤ Queued.rank ⟨id, label.criteria⟩ :=
      fun item hitem => hl.order_ne_gt_iff hfull hitem
    -- each item carries the criteria of its label
    have hplace : ∀ item ∈ f.queue.items, ∀ l ∈ f'.bare? item.id, ∀ b ∈ f'.bare? id,
        BucketQueue.place Queued.key f.queue.sorted Queued.order item ⟨id, label.criteria⟩ =
          Label.place f.queue.sorted l b := by
      intro item hitem y hy b hb
      obtain ⟨l, hget, hcriteria⟩ := hl.tagged item hitem
      have hget' : f'.pool.get? item.id = some l := by
        rw [hsame item.id (List.mem_append_right _
          (List.mem_append_right _ (List.mem_map_of_mem hitem)))]
        exact hget
      rw [bare?_eq hget'] at hy
      rw [hpick] at hb
      cases hy
      cases hb
      show _ = BucketQueue.place Criteria.bucket _ Criteria.order l.criteria label.criteria
      rw [hcriteria]
      rfl
    rw [hall, hitems, BucketQueue.filterMap_insertSorted hplace
      (hl.ranked.pairwise_items.imp_of_mem fun {x y} hx hy hfirst hgt =>
        hfirst.place_eq_gt (hcompare x hx) (hcompare y hy) hgt)]
    dsimp only
    rw [hpick, hold, hl.sorted_eq]
  rw [hs.view_eq hsettled hresults fun other ho => hsame other (List.mem_append_left _ ho),
    hwaiting]
  rfl

/-- A label that is released had gone from sight when it was taken. -/
theorem Sound.view_discard (hs : Sound q settings Measure.all f order [id]) :
    (f.discard id).view = f.view := by
  have hsame := fun other ho => hs.discard.2 other (hs.ne_of_held ho)
  have hview : (f.discard id).view = { f.view with waiting := (f.discard id).view.waiting } :=
    hs.view_eq rfl rfl fun other ho => hsame other (List.mem_append_left _ ho)
  have hwaiting : (f.discard id).view.waiting = f.view.waiting :=
    filterMap_bare?_congr fun other ho => hsame other (List.mem_append_right _ ho)
  rw [hview, hwaiting]

theorem view_settle (hget : f.pool.get? id = some label) (hroom : label.node < f.settled.size) :
    (f.settle label.node id).view = f.view.settle label.bare := by
  apply View.ext
  · rfl
  · funext node
    show ((f.settle label.node id).settledAt node).filterMap f.bare? = if label.node = node then _
      else _
    rw [settledAt_settle hroom]
    split
    · rw [List.filterMap_cons_some (bare?_eq hget)]
      rfl
    · rfl
  · rfl

/-- The label of a result. -/
theorem Sound.result (hs : Sound q settings Measure.all f order held) (hid : id ∈ f.results) :
    ∃ l, f.bare? id = some l.bare ∧ f.pool.get? id = some l := by
  obtain ⟨-, l, hl, -⟩ := hs.results id hid
  exact ⟨l, bare?_eq hl, hl⟩

theorem Sound.view_results (hs : Sound q settings Measure.all f order held)
    (hget : f.pool.get? id = some label) :
    (Front.insert (beats f.pool) (sameResult f.pool) f.results id).2.filterMap f.bare? =
      (Front.insert Label.beats Label.sameResult f.view.results label.bare).2 := by
  refine Front.filterMap_insert (bare?_eq hget) (fun other ho _ => ?_) fun other ho y hy => ?_
  · obtain ⟨l, hl, -⟩ := hs.result ho
    rw [hl]
    exact Option.some_ne_none _
  · obtain ⟨l, hl, hl'⟩ := hs.result ho
    rw [hl] at hy
    cases hy
    unfold beats sameResult criteriaIn
    rw [hget, hl']
    exact ⟨rfl, rfl, rfl⟩

/-- A label is beaten by what is seen, and by nothing else. -/
theorem Sound.view_beaten (hs : Sound q settings Measure.all f order held)
    (direction : Direction) (label : Label) : f.view.beaten direction label.bare =
      (f.beatenByResult label || f.beatenAtNode label direction) := by
  have hresults : f.view.results.any (fun r => r.criteria.dominates true label.bare.criteria) =
      f.beatenByResult label := by
    show (f.results.filterMap f.bare?).any _ = f.results.any _
    rw [List.any_filterMap]
    refine Bool.eq_iff_iff.2 ?_
    rw [List.any_eq_true, List.any_eq_true]
    refine exists_congr fun id => and_congr_right fun hid => ?_
    obtain ⟨l, hl, hl'⟩ := hs.result hid
    unfold criteriaIn
    rw [hl, hl']
    rfl
  have hplace : (f.view.settled label.bare.node).any (fun other =>
      replaces direction other label.bare) = f.beatenAtNode label direction := by
    show ((f.settledAt label.node).filterMap f.bare?).any _ = (f.settledAt label.node).any _
    rw [List.any_filterMap]
    refine congrArg _ (funext fun id => ?_)
    unfold bare? label?
    cases f.pool.get? id <;> rfl
  unfold View.beaten
  rw [hresults, hplace]

end Frontier

/-! ## The start of a search -/

namespace Run

variable {q : Query} {settings : Settings} {f : Frontier} {r r' : Run}

/-- A search that has not begun is seen empty. -/
theorem view_opening (hf : f.Blank) :
    (opening q f).frontier.view = ⟨[], fun _ => [], []⟩ := by
  have hs : Frontier.Sound q {} Measure.all (opening q f).frontier [] [] := hf.sound
  apply View.ext
  · show (f.queue.items.map (·.id)).filterMap _ = []
    rw [hf.items_eq]
    rfl
  · funext node
    show ((opening q f).frontier.settledAt node).filterMap _ = []
    rw [hs.settledAt_eq_nil node]
    rfl
  · show f.results.filterMap _ = []
    rw [hf.results_eq]
    rfl

theorem Starting.view_pushStart (hq : q.Sound) (hr : Starting q settings r) {time : Time}
    (hpush : Run.pushStart q settings Measure.all r time = .ok r') :
    r'.frontier.view =
      if (startLabel q Measure.all time).allowed settings then
        r.frontier.view.enqueue settings.sortedBuckets (startLabel q Measure.all time)
      else r.frontier.view := by
  unfold Label.allowed
  rcases frontier_pushStart hpush with ⟨hbeyond, heq⟩ | ⟨hin, hpush'⟩
  · rw [hbeyond, heq]
    rfl
  · rw [hin]
    have hcursor : r.frontier.queue.cursor ≤ (startLabel q Measure.all time).criteria.bucket := by
      rw [hr.cursor_eq]
      exact Nat.zero_le _
    exact hr.sound.view_push hr.inLine (Label.Proper.start hq time).full hin hcursor hpush'

/-- The start puts the start labels among those that wait. -/
theorem view_start (hq : q.Sound) (hf : f.Blank)
    (hqueue : f.queue = .new settings.maxBucket settings.sortedBuckets)
    (h : Run.start q settings Measure.all f = .ok r) :
    r.frontier.view =
      (q.starts settings).foldl (View.enqueue settings.sortedBuckets) ⟨[], fun _ => [], []⟩ := by
  have hall : ∀ times : List Time, (∀ time ∈ times, time ∈ q.startTimes) →
      ∀ r₀, Starting q settings r₀ →
      times.foldlM (Run.pushStart q settings Measure.all) r₀ = .ok r →
      r.frontier.view =
        ((times.map (startLabel q Measure.all)).filter (Label.allowed settings)).foldl
          (View.enqueue settings.sortedBuckets) r₀.frontier.view := by
    intro times
    induction times with
    | nil =>
      intro _ r₀ _ h
      cases h
      rfl
    | cons time times ih =>
      intro htimes r₀ hr h
      rw [List.foldlM_cons] at h
      obtain ⟨r₁, hpush, h⟩ := Fallible.bind_eq_ok.1 h
      have hview := hr.view_pushStart hq hpush
      rw [ih (fun t ht => htimes t (List.mem_cons_of_mem _ ht)) r₁
        (hr.pushStart hq (htimes time List.mem_cons_self) hpush) h, hview, List.map_cons,
        List.filter_cons]
      split <;> rfl
  rw [hall q.startTimes (fun _ ht => ht) (opening q f) (starting_opening hf hqueue) h,
    view_opening hf]
  rfl

end Run

/-! ## A turn of the search -/

namespace Run

variable {q : Query} {settings : Settings} {r r' r₁ : Run} {order : List LabelId} {id : LabelId}
  {label : Label}

/-- What is taken is the first that waits. -/
theorem view_pop (hs : Frontier.Sound q settings Measure.all r.frontier order [])
    (hpop : r.pop = (some id, r₁)) (hget : r₁.frontier.pool.get? id = some label) :
    r.frontier.view =
      { r₁.frontier.view with waiting := label.bare :: r₁.frontier.view.waiting } := by
  obtain ⟨item, queue, hpop', rfl, hframe⟩ := exists_item_of_pop hpop
  have hitems := BucketQueue.items_pop hs.queue hpop'
  have hget' : r.frontier.pool.get? item.id = some label := by
    rw [hframe] at hget
    exact hget
  rw [hframe]
  have hwaiting : r.frontier.view.waiting =
      label.bare :: (queue.items.map (·.id)).filterMap r.frontier.bare? := by
    show (r.frontier.queue.items.map (·.id)).filterMap r.frontier.bare? = _
    rw [hitems, List.map_cons, List.filterMap_cons_some (Frontier.bare?_eq hget')]
  apply View.ext
  · exact hwaiting
  · rfl
  · rfl

theorem Expanding.view_pushEdge (hq : q.Sound) {links : List (LabelId × Label)}
    (he : Expanding q settings order id label links r) {ref : EdgeRef}
    (href : ref ∈ q.graph.edgesAt label.node q.direction)
    (hpush : Run.pushEdge q settings id label r ref = .ok r') :
    r'.frontier.view =
      match q.next? settings label.bare ref with
      | some next => r.frontier.view.enqueue settings.sortedBuckets next
      | none => r.frontier.view := by
  rw [q.next?_bare settings id]
  rcases frontier_pushEdge hpush with
    ⟨hnone, heq⟩ | ⟨next, hnext, ⟨hbeyond, heq⟩ | ⟨hin, hpush'⟩⟩
  · rw [hnone, heq]
  · have hnot : next.allowed settings = false := by
      unfold Label.allowed
      rw [hbeyond]
      rfl
    rw [hnext, heq]
    dsimp only
    rw [hnot]
    rfl
  · obtain ⟨hfull, hprecedes⟩ := he.precedes hq href hnext
    have hcursor : r.frontier.queue.cursor ≤ next.criteria.bucket := by
      rw [he.cursor_eq]
      exact hprecedes.1
    rw [hnext]
    dsimp only
    rw [Label.allowed_iff.2 hin]
    exact he.sound.view_push he.inLine hfull hin hcursor hpush'

/-- Expanding a label puts what its edges lead to among those that wait. -/
theorem Expanding.view_expand (hq : q.Sound) {links : List (LabelId × Label)}
    (he : Expanding q settings order id label links r)
    (h : r.expand q settings id label = .ok r') :
    r'.frontier.view = (q.nexts settings label.bare).foldl
      (View.enqueue settings.sortedBuckets) r.frontier.view := by
  -- over any of the edges, so that the rest of them can be taken from where the first has led
  have hall : ∀ refs : List EdgeRef, (∀ ref ∈ refs, ref ∈ q.graph.edgesAt label.node q.direction) →
      ∀ r, Expanding q settings order id label links r →
      refs.foldlM (Run.pushEdge q settings id label) r = .ok r' →
      r'.frontier.view = (refs.filterMap (q.next? settings label.bare)).foldl
        (View.enqueue settings.sortedBuckets) r.frontier.view := by
    intro refs
    induction refs with
    | nil =>
      intro _ r _ h
      cases h
      rfl
    | cons ref refs ih =>
      intro hrefs r he h
      rw [List.foldlM_cons] at h
      obtain ⟨r₁, hpush, h⟩ := Fallible.bind_eq_ok.1 h
      have href := hrefs ref List.mem_cons_self
      have hview := he.view_pushEdge hq href hpush
      rw [ih (fun ref' h' => hrefs ref' (List.mem_cons_of_mem _ h')) r₁
        (he.pushEdge hq href hpush).1 h, hview]
      cases hnext : q.next? settings label.bare ref with
      | none => rw [List.filterMap_cons_none hnext]
      | some next => rw [List.filterMap_cons_some hnext, List.foldl_cons]
  exact hall _ (fun _ href => href) r he h

/-- Handling the label in the hand does to what is seen what `View.handle` says. -/
theorem Visits.view (hq : q.Sound) {f f' : Frontier}
    (hs : Frontier.Sound q settings Measure.all f order [id])
    (hget : f.pool.get? id = some label) (hl : f.InLine settings)
    (hcursor : f.queue.cursor = label.criteria.bucket) (hv : Visits q settings f id label f') :
    f'.view = f.view.handle q settings label.bare := by
  have hbeaten := hs.view_beaten q.direction label
  have hgoal_eq : q.target.isGoal label.bare = q.target.isGoal label := rfl
  have hsettle := Frontier.view_settle hget (hs.node_lt hq hget)
  unfold View.handle
  rw [hbeaten, hgoal_eq]
  cases hv with
  | beaten hb =>
    rw [if_pos (Bool.or_eq_true _ _ ▸ hb)]
    exact hs.view_discard
  | result hgoal hkept =>
    rw [hkept.1, hkept.2, hgoal, ← hsettle]
    show View.mk _ _ _ = View.mk _ _ _
    congr 1
    exact hs.view_results hget
  | expanded r r' hgoal hr hexp hkept =>
    obtain ⟨links, he⟩ := expanding_of_settle hq hs hget hl hcursor hgoal hr
    rw [hkept.1, hkept.2, hgoal, ← hsettle, ← hr]
    exact he.view_expand hq hexp

/-- A turn takes the first that waits, and handles it. -/
theorem Turn.view (hq : q.Sound) {f : Frontier} (hf : f.Blank)
    (hqueue : f.queue = .new settings.maxBucket settings.sortedBuckets)
    (h : Reached q settings Measure.all f r) (ht : Turn q settings r r') :
    ∃ label rest, r.frontier.view.waiting = label :: rest ∧
      r'.frontier.view = { r.frontier.view with waiting := rest }.handle q settings label := by
  obtain ⟨id, r₁, hpop, hvisit⟩ := ht
  obtain ⟨order, label, links, hs, hs₁, htraced⟩ := h.popped hq hf hpop
  obtain ⟨hl₁, hcursor, -⟩ := pop_inLine hs (h.inLine hq hf hqueue) hpop htraced.get?
  have hview := view_pop hs hpop htraced.get?
  refine ⟨label.bare, r₁.frontier.view.waiting, by rw [hview], ?_⟩
  rw [hview]
  exact (visits_of_visit htraced.get? hvisit).view hq hs₁ htraced.get? hl₁ hcursor

end Run

end JourneyPlanner
