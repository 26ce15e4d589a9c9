import JourneyPlanner.Proofs.Itinerary.Steps
import JourneyPlanner.Proofs.Search.Nights
import JourneyPlanner.Proofs.Search.View

/-!
# A search with the ways of its labels

A `View` shows the labels of a search, and no more of the ways that they have come. A
journey is written out from the whole way, and the edges of a way are known by numbers that
mean something in one graph only. A `Survey` shows each label as a `Course`: the label and
all that lead back from it, each with the edge by which it came in place of the number of
that edge. It also keeps the buckets of the queue apart, so that nothing need be known of
what orders them, whatever the criteria are.

Of the labels that wait, only those are surveyed whose way has passed no night at a hotel.
What a search does with a label that it has taken can be said of surveys alone
(`Survey.handle`), as long as no label with a night on its way is ever settled:

> `Turn.survey`: after a turn of the search either the same is surveyed, a night having
> been taken and dropped, or the first that waits has been taken and handled.

Since a survey tells what comes next (`Survey.Next.eq`), two searches of which the same is
surveyed at the start go on alike.
-/

namespace JourneyPlanner

/-- A label without references, with the edge by which its node was reached. -/
structure Sight where
  label : Label
  edge : Option Edge

/-- A label and those that lead back from it to its start, the latest first. -/
structure Course where
  here : Sight
  past : List Sight

/-- What a label shows in a graph. -/
def Label.sight (graph : QueryGraph) (label : Label) : Sight :=
  { label := { label with edge := none, pred := none }, edge := label.edge.map graph.edge }

namespace Course

/-- The label that a course has come to. -/
def label (course : Course) : Label := course.here.label

/-- The course of a label that is given with those that lead back from it. -/
def of (graph : QueryGraph) (label : Label) (before : List Label) : Course :=
  { here := label.sight graph, past := before.map (Label.sight graph) }

/-- The course that goes on to one more label. -/
def extend (graph : QueryGraph) (course : Course) (next : Label) : Course :=
  { here := next.sight graph, past := course.here :: course.past }

/-- Which of two courses in one bucket goes first. -/
def order (a b : Course) : Ordering := a.label.criteria.order b.label.criteria

end Course

/-- The courses on which an edge goes on from a label, but for those to a night at a hotel and
those that a limit rules out. -/
def Query.onward (q : Query) (settings : Settings) (course : Course) : List Course :=
  ((q.nexts settings course.label).filter (!·.hotel)).map (course.extend q.graph)

/-- The courses of a search that has just begun. -/
def Query.openings (q : Query) (settings : Settings) (measures : List Measure) : List Course :=
  ((q.startTimes.map (Run.startLabel q measures)).filter (Label.allowed settings)).map
    (Course.of q.graph · [])

/-- The labels of a search with their ways. -/
@[ext]
structure Survey where
  /-- Those in each bucket of the queue, in the order in which they go. -/
  waiting : Nat → List Course
  settled : NodeId → List Course
  results : List Course

namespace Survey

/-- Changes what waits in one bucket. -/
def inBucket (s : Survey) (bucket : Nat) (change : List Course → List Course) : Survey :=
  { s with waiting := fun i => if bucket = i then change (s.waiting i) else s.waiting i }

/-- Puts a course among those that wait, where the queue stands at a bucket. -/
def enqueue (settings : Settings) (cursor : Nat) (s : Survey) (course : Course) : Survey :=
  s.inBucket (min (max course.label.criteria.bucket cursor) settings.maxBucket) fun bucket =>
    if settings.sortedBuckets = true then BucketQueue.insertSorted Course.order course bucket
    else course :: bucket

/-- Settles a course at its node. -/
def settle (s : Survey) (course : Course) : Survey :=
  { s with
    settled := fun node =>
      if course.label.node = node then course :: s.settled node else s.settled node }

/-- Takes a course among the results, unless a result beats it or is the same. -/
def report (s : Survey) (course : Course) : Survey :=
  { s with
    results := (Front.insert (fun a b => Label.beats a.label b.label)
      (fun a b => Label.sameResult a.label b.label) s.results course).2 }

/-- Whether a result beats the best that a label can come to, or one settled at its node
replaces it. -/
def beaten (direction : Direction) (s : Survey) (label : Label) : Bool :=
  s.results.any (fun result => result.label.criteria.dominates true label.criteria) ||
    (s.settled label.node).any fun other => Frontier.replaces direction other.label label

/-- What becomes of a course that has been taken from a bucket. -/
def handle (q : Query) (settings : Settings) (cursor : Nat) (s : Survey) (course : Course) :
    Survey :=
  if s.beaten q.direction course.label then s
  else if q.target.isGoal course.label then (s.settle course).report course
  else (q.onward settings course).foldl (enqueue settings cursor) (s.settle course)

/-- The first course that waits is taken and handled. -/
def Next (q : Query) (settings : Settings) (s s' : Survey) : Prop :=
  ∃ (bucket : Nat) (course : Course) (rest : Survey), (∀ i < bucket, s.waiting i = []) ∧
    s = rest.inBucket bucket (course :: ·) ∧ s' = rest.handle q settings bucket course

theorem inBucket_cons_eq {s s' : Survey} {bucket bucket' : Nat} {course course' : Course}
    (h : s.inBucket bucket (course :: ·) = s'.inBucket bucket' (course' :: ·))
    (hbelow : ∀ i < bucket, (s.inBucket bucket (course :: ·)).waiting i = [])
    (hbelow' : ∀ i < bucket', (s'.inBucket bucket' (course' :: ·)).waiting i = []) :
    bucket = bucket' ∧ course = course' ∧ s = s' := by
  have hwaiting := fun i => congrFun (congrArg Survey.waiting h) i
  have hself : ∀ (s : Survey) (bucket : Nat) (course : Course),
      (s.inBucket bucket (course :: ·)).waiting bucket ≠ [] := by
    intro s bucket course
    simp [inBucket]
  obtain rfl : bucket = bucket' := by
    rcases Nat.lt_trichotomy bucket bucket' with hlt | heq | hlt
    · exact absurd ((hwaiting bucket).trans (hbelow' bucket hlt)) (hself s bucket course)
    · exact heq
    · exact absurd ((hwaiting bucket').symm.trans (hbelow bucket' hlt)) (hself s' bucket' course')
  have hhead := hwaiting bucket
  simp only [inBucket, if_true, List.cons.injEq] at hhead
  refine ⟨rfl, hhead.1, Survey.ext (funext fun i => ?_) ?_ ?_⟩
  · by_cases hi : bucket = i
    · rw [← hi]
      exact hhead.2
    · have hother := hwaiting i
      simp only [inBucket, if_neg hi] at hother
      exact hother
  · have hsettled := congrArg Survey.settled h
    exact hsettled
  · have hresults := congrArg Survey.results h
    exact hresults

/-- There is one way to go on. -/
theorem Next.eq {q : Query} {settings : Settings} {s s₁ s₂ : Survey} (h : s.Next q settings s₁)
    (h' : s.Next q settings s₂) : s₁ = s₂ := by
  obtain ⟨bucket, course, rest, hbelow, rfl, rfl⟩ := h
  obtain ⟨bucket', course', rest', hbelow', heq, rfl⟩ := h'
  obtain ⟨rfl, rfl, rfl⟩ := inBucket_cons_eq heq hbelow (heq ▸ hbelow')
  rfl

end Survey

/-! ## What is surveyed of a frontier -/

namespace Frontier

/-- The course of the label in a slot. -/
def course? (graph : QueryGraph) (f : Frontier) (id : LabelId) : Option Course :=
  match (f.chain id).map (·.2) with
  | [] => none
  | label :: before => some (.of graph label before)

/-- The course of the label in a slot, unless a night at a hotel lies on it. -/
def wakeful? (graph : QueryGraph) (f : Frontier) (id : LabelId) : Option Course :=
  (f.course? graph id).filter (!·.label.hotel)

/-- What is surveyed of a frontier. -/
def survey (graph : QueryGraph) (f : Frontier) : Survey where
  waiting i := (f.queue.buckets[i]?.getD []).filterMap fun item => f.wakeful? graph item.id
  settled node := (f.settledAt node).filterMap (f.course? graph)
  results := f.results.filterMap (f.course? graph)

/-- Each label is queued with its own criteria, and the buckets ascend if they are to be kept
in order. -/
structure Filed (settings : Settings) (measures : List Measure) (f : Frontier) : Prop where
  maxBucket_eq : f.queue.maxBucket = settings.maxBucket
  sorted_eq : f.queue.sorted = settings.sortedBuckets
  ascends : settings.sortedBuckets = true → ∀ i : Nat,
    (f.queue.buckets[i]?.getD []).Pairwise fun x y => Queued.rank x ≤ Queued.rank y
  length_eq : ∀ item ∈ f.queue.items, item.criteria.length = measures.length
  tagged : ∀ item ∈ f.queue.items,
    ∃ label, f.pool.get? item.id = some label ∧ label.criteria = item.criteria

variable {q : Query} {settings : Settings} {measures : List Measure} {f f' : Frontier}
  {order order' held held' : List LabelId} {id : LabelId} {label : Label}
  {links : List (LabelId × Label)} {graph : QueryGraph}

/-! ### Courses -/

theorem Sound.traced (h : Sound q settings measures f order held)
    (hid : id ∈ order ++ (held ++ f.queued)) :
    ∃ label links, Traced q settings measures f.pool order id label links := by
  rcases List.mem_append.1 hid with hid | hid
  · obtain ⟨label, links, ht, -⟩ := h.passed id hid
    exact ⟨label, links, ht⟩
  · exact h.waiting id hid

theorem Sound.course?_eq (h : Sound q settings measures f order held)
    (hid : id ∈ order ++ (held ++ f.queued))
    (ht : Traced q settings measures f.pool order id label links) :
    f.course? graph id = some (.of graph label (links.map (·.2))) := by
  unfold course?
  rw [h.chain_eq hid ht]
  rfl

/-- A course is that of the label in its slot. -/
theorem Sound.course?_spec (h : Sound q settings measures f order held)
    (hid : id ∈ order ++ (held ++ f.queued)) (hget : f.pool.get? id = some label) :
    ∃ before, f.course? graph id = some (.of graph label before) := by
  obtain ⟨label', links, ht⟩ := h.traced hid
  have hsame := ht.get?
  rw [hget] at hsame
  cases hsame
  exact ⟨_, h.course?_eq hid ht⟩

/-- The course of a label stays as long as it and the settled labels do. -/
theorem Sound.course?_congr (h : Sound q settings measures f order held)
    (h' : Sound q settings measures f' order' held') (hid : id ∈ order ++ (held ++ f.queued))
    (hid' : id ∈ order' ++ (held' ++ f'.queued)) (hsub : order.Sublist order')
    (hsame : ∀ other ∈ order, f'.pool.get? other = f.pool.get? other)
    (hget : f'.pool.get? id = f.pool.get? id) : f'.course? graph id = f.course? graph id := by
  obtain ⟨label, links, ht⟩ := h.traced hid
  rw [h.course?_eq hid ht, h'.course?_eq hid' ((ht.congr hget hsame).grow hsub)]

theorem mem_queued {i : Nat} {item : Queued} (h : item ∈ f.queue.buckets[i]?.getD []) :
    item.id ∈ f.queued := List.mem_map_of_mem (BucketQueue.mem_items.2 ⟨i, h⟩)

/-- As long as the settled labels keep their courses, only what waits can look different. -/
theorem Sound.survey_eq (h : Sound q settings measures f order held)
    (hsettled : f'.settled = f.settled) (hresults : f'.results = f.results)
    (hkeep : ∀ id ∈ order, f'.course? graph id = f.course? graph id) :
    f'.survey graph = { f.survey graph with waiting := (f'.survey graph).waiting } := by
  refine Survey.ext rfl (funext fun node => ?_) ?_
  · show (f'.settledAt node).filterMap _ = (f.settledAt node).filterMap _
    have hat : f'.settledAt node = f.settledAt node := by
      unfold settledAt
      rw [hsettled]
    rw [hat]
    exact List.filterMap_congr fun id hid => hkeep id ((h.settled node id).1 hid).1
  · show f'.results.filterMap _ = f.results.filterMap _
    rw [hresults]
    exact List.filterMap_congr fun id hid => hkeep id (h.results id hid).1

/-! ### The operations of a frontier -/

theorem Filed.congr (h : f.Filed settings measures) (hqueue : f'.queue = f.queue)
    (hsame : ∀ id ∈ f.queued, f'.pool.get? id = f.pool.get? id) : f'.Filed settings measures := by
  obtain ⟨hmax, hsorted, hascends, hlength, htagged⟩ := h
  refine ⟨?_, ?_, ?_, ?_, Tagged.congr htagged hqueue hsame⟩
  · rw [hqueue]
    exact hmax
  · rw [hqueue]
    exact hsorted
  · rw [hqueue]
    exact hascends
  · rw [hqueue]
    exact hlength

/-- The comparison of the queue agrees with the ranks of the labels that are there. -/
theorem Filed.order_ne_gt_iff (h : f.Filed settings measures) {item other : Queued}
    (hitem : item ∈ f.queue.items) (hother : other.criteria.length = measures.length) :
    Queued.order item other ≠ .gt ↔ Queued.rank item ≤ Queued.rank other := by
  refine Criteria.order_ne_gt_iff ?_
  rw [h.length_eq item hitem, hother]

theorem Filed.push (h : f.Filed settings measures) (hlaid : f.pool.Laid)
    (hlength : label.criteria.length = measures.length) (hpush : f.push label = (true, f')) :
    f'.Filed settings measures ∧ f'.queue.cursor = f.queue.cursor := by
  obtain ⟨id, -, hqueue, -, -⟩ := push_eq_true hpush
  refine ⟨⟨?_, ?_, fun hs i => ?_, fun item hitem => ?_, Tagged.push h.tagged hlaid hpush⟩, ?_⟩
  · rw [hqueue, BucketQueue.maxBucket_push]
    exact h.maxBucket_eq
  · rw [hqueue, BucketQueue.sorted_push]
    exact h.sorted_eq
  · rw [hqueue, BucketQueue.getElem?_push, h.sorted_eq, if_pos hs]
    split
    · have hcompare : ∀ x ∈ f.queue.buckets[i]?.getD [],
          Queued.order x ⟨id, label.criteria⟩ ≠ .gt ↔
            Queued.rank x ≤ Queued.rank ⟨id, label.criteria⟩ :=
        fun x hx => h.order_ne_gt_iff (BucketQueue.mem_items.2 ⟨i, hx⟩) hlength
      refine BucketQueue.pairwise_insertSorted le_trans (h.ascends hs i) (fun x hx hgt => ?_)
        fun x hx hle => (hcompare x hx).1 hle
      exact le_of_lt (not_le.1 fun hle => (hcompare x hx).2 hle hgt)
    · exact h.ascends hs i
  · rcases (mem_items_push hqueue item).1 hitem with rfl | hold
    · exact hlength
    · exact h.length_eq item hold
  · rw [hqueue, BucketQueue.cursor_push]

theorem Filed.pop (h : f.Filed settings measures) {item : Queued} {queue : BucketQueue Queued}
    (hpop : f.queue.pop = (some item, queue)) :
    Filed settings measures { f with queue } := by
  obtain ⟨-, -, -, -, hmax, hsorted⟩ := BucketQueue.pop_eq hpop
  -- what is left was there before
  have hleft : ∀ i : Nat, (queue.buckets[i]?.getD []).Sublist (f.queue.buckets[i]?.getD []) := by
    intro i
    rw [BucketQueue.getElem?_of_pop hpop]
    split
    · exact List.sublist_cons_self _ _
    · exact List.Sublist.refl _
  have hmem : ∀ x ∈ queue.items, x ∈ f.queue.items := by
    intro x hx
    obtain ⟨i, hi⟩ := BucketQueue.mem_items.1 hx
    exact BucketQueue.mem_items.2 ⟨i, (hleft i).subset hi⟩
  exact ⟨hmax.trans h.maxBucket_eq, hsorted.trans h.sorted_eq,
    fun hs i => (h.ascends hs i).sublist (hleft i), fun x hx => h.length_eq x (hmem x hx),
    fun x hx => h.tagged x (hmem x hx)⟩

/-- Where a label goes in a bucket does not depend on those that are not surveyed. -/
theorem filterMap_insertSorted {items : List Queued} {item : Queued} {n : Nat}
    {pick : Queued → Option Course}
    (hcriteria : ∀ x ∈ item :: items, ∀ a ∈ pick x, a.label.criteria = x.criteria)
    (hlength : ∀ x ∈ item :: items, x.criteria.length = n)
    (hranks : items.Pairwise fun x y => Queued.rank x ≤ Queued.rank y) :
    (BucketQueue.insertSorted Queued.order item items).filterMap pick =
      match pick item with
      | some course => BucketQueue.insertSorted Course.order course (items.filterMap pick)
      | none => items.filterMap pick := by
  have hcompare : ∀ x ∈ items, Queued.order x item ≠ .gt ↔ Queued.rank x ≤ Queued.rank item := by
    intro x hx
    refine Criteria.order_ne_gt_iff ?_
    rw [hlength x (List.mem_cons_of_mem _ hx), hlength item List.mem_cons_self]
  have hsame : ∀ x ∈ items, ∀ a ∈ pick x, ∀ b ∈ pick item,
      Queued.order x item = Course.order a b := by
    intro x hx a ha b hb
    unfold Queued.order Course.order
    rw [hcriteria x (List.mem_cons_of_mem _ hx) a ha, hcriteria item List.mem_cons_self b hb]
  have hclosed : items.Pairwise fun x y =>
      Queued.order x item = .gt → Queued.order y item = .gt := by
    refine hranks.imp_of_mem fun {x y} hx hy hrank hgt => ?_
    by_contra hle
    exact (hcompare x hx).2 (le_trans hrank ((hcompare y hy).1 hle)) hgt
  rw [BucketQueue.filterMap_insertSorted hsame hclosed]
  cases pick item <;> rfl

theorem wakeful?_eq_some {course : Course} (h : course ∈ f.wakeful? graph id) :
    f.course? graph id = some course := by
  unfold wakeful? at h
  obtain ⟨hsome, -⟩ := Option.filter_eq_some_iff.1 h
  exact hsome

theorem wakeful?_of_course? {before : List Label}
    (h : f.course? graph id = some (.of graph label before)) : f.wakeful? graph id =
      if label.hotel = true then none else some (.of graph label before) := by
  unfold wakeful?
  rw [h, Option.filter_some]
  show (if (!label.hotel) = true then _ else _) = _
  cases label.hotel <;> rfl

/-- A course that waits has the criteria under which it was queued. -/
theorem Sound.criteria_eq (hs : Sound q settings measures f order held) (htagged : f.Tagged)
    {item : Queued} (hitem : item ∈ f.queue.items) {course : Course}
    (h : course ∈ f.wakeful? graph item.id) : course.label.criteria = item.criteria := by
  obtain ⟨l, hget, hcriteria⟩ := htagged item hitem
  have hid : item.id ∈ order ++ (held ++ f.queued) :=
    List.mem_append_right _ (List.mem_append_right _ (List.mem_map_of_mem hitem))
  obtain ⟨before, hcourse⟩ := hs.course?_spec hid hget
  rw [wakeful?_eq_some h] at hcourse
  cases hcourse
  exact hcriteria

/-- No label that was there takes another course when labels are added. -/
theorem Sound.course?_grow (hs : Sound q settings measures f order held)
    (hs' : Sound q settings measures f' order held) (hgrow : f.Grows f')
    (hid : id ∈ order ++ (held ++ f.queued)) : f'.course? graph id = f.course? graph id := by
  have hsame : ∀ other ∈ order ++ (held ++ f.queued),
      f'.pool.get? other = f.pool.get? other :=
    fun other ho => hgrow.get?_eq (hs.isSome ho)
  refine hs.course?_congr hs' hid ?_ (List.Sublist.refl _)
    (fun other ho => hsame other (List.mem_append_left _ ho)) (hsame id hid)
  simp only [List.mem_append] at hid ⊢
  exact hid.imp_right (Or.imp_right (hgrow.queued id))

/-- A label that is added has come on the way that its link leads back. -/
theorem Sound.course?_push (hs : Sound q settings measures f order held)
    (hs' : Sound q settings measures f' order held) (hgrow : f.Grows f')
    (hlinks : Links f.pool label.pred links)
    (htrail : Trail q settings measures (label :: links.map (·.2)))
    (hsub : (links.map (·.1)).Sublist order) (hget : f'.pool.get? id = some label)
    (hqueued : id ∈ f'.queued) :
    f'.course? graph id = some (.of graph label (links.map (·.2))) := by
  have hpassed : ∀ other ∈ links.map (·.1), f'.pool.get? other = f.pool.get? other :=
    fun other ho => hgrow.get?_eq (hs.isSome (List.mem_append_left _ (hsub.subset ho)))
  exact hs'.course?_eq (List.mem_append_right _ (List.mem_append_right _ hqueued))
    ⟨.cons hget (hlinks.congr hpassed), htrail, hsub⟩

/-- What waits in a bucket after a label has been put there, if it is surveyed at all. -/
theorem Filed.waiting_push (hfiled : f.Filed settings measures)
    (hfiled' : f'.Filed settings measures) (hs' : Sound q settings measures f' order held)
    (hqueue : f'.queue =
      f.queue.push Queued.order label.criteria.bucket { id, criteria := label.criteria })
    (hkeep : ∀ other ∈ f.queued, f'.course? graph other = f.course? graph other) (i : Nat) :
    (f'.survey graph).waiting i =
      if f.queue.bucketOf label.criteria.bucket = i then
        match f'.wakeful? graph id with
        | some course =>
          if settings.sortedBuckets = true then
            BucketQueue.insertSorted Course.order course ((f.survey graph).waiting i)
          else course :: (f.survey graph).waiting i
        | none => (f.survey graph).waiting i
      else (f.survey graph).waiting i := by
  have hold : (f.queue.buckets[i]?.getD []).filterMap (fun item => f'.wakeful? graph item.id) =
      (f.survey graph).waiting i := by
    refine List.filterMap_congr fun item hitem => ?_
    unfold wakeful?
    rw [hkeep item.id (mem_queued hitem)]
  show (f'.queue.buckets[i]?.getD []).filterMap (fun item => f'.wakeful? graph item.id) = _
  rw [hqueue, BucketQueue.getElem?_push, hfiled.sorted_eq, ← hold]
  split
  · split
    · next hsorted =>
      have hmem : ∀ x ∈ (⟨id, label.criteria⟩ : Queued) :: f.queue.buckets[i]?.getD [],
          x ∈ f'.queue.items := by
        intro x hx
        refine (mem_items_push hqueue x).2 ((List.mem_cons.1 hx).imp_right fun hx => ?_)
        exact BucketQueue.mem_items.2 ⟨i, hx⟩
      rw [filterMap_insertSorted
        (fun x hx a ha => hs'.criteria_eq hfiled'.tagged (hmem x hx) ha)
        (fun x hx => hfiled'.length_eq x (hmem x hx)) (hfiled.ascends hsorted i)]
    · cases hwakeful : f'.wakeful? graph id with
      | none => exact List.filterMap_cons_none hwakeful
      | some course => exact List.filterMap_cons_some hwakeful
  · rfl

/-- A label that is queued is put in its place among those that wait, unless a night lies on
its way. -/
theorem Sound.survey_push (hq : q.Sound) (hs : Sound q settings measures f order held)
    (hfiled : f.Filed settings measures) (hlinks : Links f.pool label.pred links)
    (htrail : Trail q settings measures (label :: links.map (·.2)))
    (hsub : (links.map (·.1)).Sublist order) (hpush : f.push label = (true, f')) :
    f'.Filed settings measures ∧ f'.queue.cursor = f.queue.cursor ∧
      f'.survey graph =
        if label.hotel = true then f.survey graph
        else (f.survey graph).enqueue settings f.queue.cursor
          (.of graph label (links.map (·.2))) := by
  have hlength : label.criteria.length = measures.length := by
    rw [htrail.criteria_eq hq, List.length_map]
  obtain ⟨hs', hgrow, -⟩ := hs.push links hlinks htrail hsub hpush
  obtain ⟨hfiled', hcursor⟩ := hfiled.push hs.laid hlength hpush
  refine ⟨hfiled', hcursor, ?_⟩
  obtain ⟨id, halloc, hqueue, hsettled, hresults⟩ := push_eq_true hpush
  obtain ⟨-, hnew, -⟩ := Pool.alloc_spec hs.laid halloc
  have hkeep : ∀ other ∈ order ++ (held ++ f.queued),
      f'.course? graph other = f.course? graph other :=
    fun other ho => hs.course?_grow hs' hgrow ho
  have hqueued : id ∈ f'.queued :=
    List.mem_map_of_mem ((mem_items_push hqueue _).2 (Or.inl rfl))
  have hcourse : f'.course? graph id = some (.of graph label (links.map (·.2))) :=
    hs.course?_push hs' hgrow hlinks htrail hsub hnew hqueued
  have hwaiting := hfiled.waiting_push hfiled' hs' hqueue fun other ho =>
    hkeep other (List.mem_append_right _ (List.mem_append_right _ ho))
  have hkey : f.queue.bucketOf label.criteria.bucket =
      min (max label.criteria.bucket f.queue.cursor) settings.maxBucket := by
    rw [← hfiled.maxBucket_eq]
    rfl
  rw [hs.survey_eq hsettled hresults fun other ho => hkeep other (List.mem_append_left _ ho)]
  rw [wakeful?_of_course? hcourse, hkey] at hwaiting
  split
  · next hnight =>
    refine Survey.ext (funext fun i => (hwaiting i).trans ?_) rfl rfl
    rw [if_pos hnight]
    split <;> rfl
  · next hday =>
    refine Survey.ext (funext fun i => (hwaiting i).trans ?_) rfl rfl
    rw [if_neg hday]
    rfl

/-- A label that is released had gone from sight when it was taken. -/
theorem Sound.survey_discard (hs : Sound q settings measures f order [id]) :
    (f.discard id).survey graph = f.survey graph := by
  have hsame := fun other ho => hs.discard.2 other (hs.ne_of_held ho)
  have hkeep : ∀ other ∈ order ++ f.queued,
      (f.discard id).course? graph other = f.course? graph other := by
    intro other ho
    refine hs.course?_congr hs.discard.1 ?_ ho (List.Sublist.refl _)
      (fun other ho => hsame other (List.mem_append_left _ ho)) (hsame other ho)
    simp only [List.mem_append] at ho ⊢
    exact ho.imp_right Or.inr
  have hpassed : (f.discard id).survey graph =
      { f.survey graph with waiting := ((f.discard id).survey graph).waiting } :=
    hs.survey_eq rfl rfl fun other ho => hkeep other (List.mem_append_left _ ho)
  rw [hpassed]
  refine Survey.ext (funext fun i => List.filterMap_congr fun item hitem => ?_) rfl rfl
  unfold wakeful?
  rw [hkeep item.id (List.mem_append_right _ (mem_queued hitem))]

theorem Sound.survey_settle (hs : Sound q settings measures f order held)
    (hid : id ∈ order ++ (held ++ f.queued))
    (ht : Traced q settings measures f.pool order id label links)
    (hroom : label.node < f.settled.size) :
    (f.settle label.node id).survey graph =
      (f.survey graph).settle (.of graph label (links.map (·.2))) := by
  refine Survey.ext rfl (funext fun node => ?_) rfl
  show ((f.settle label.node id).settledAt node).filterMap (f.course? graph) =
    if label.node = node then _ else _
  rw [settledAt_settle hroom]
  split
  · rw [List.filterMap_cons_some (hs.course?_eq hid ht)]
    rfl
  · rfl

theorem Sound.survey_results (hs : Sound q settings measures f order held)
    (hid : id ∈ order ++ (held ++ f.queued))
    (ht : Traced q settings measures f.pool order id label links) :
    (Front.insert (beats f.pool) (sameResult f.pool) f.results id).2.filterMap
        (f.course? graph) =
      ((f.survey graph).report (.of graph label (links.map (·.2)))).results := by
  have hresult : ∀ other ∈ f.results, ∃ l before, f.pool.get? other = some l ∧
      f.course? graph other = some (.of graph l before) := by
    intro other ho
    obtain ⟨hin, l, hl, -⟩ := hs.results other ho
    obtain ⟨before, hcourse⟩ := hs.course?_spec (List.mem_append_left _ hin) hl
    exact ⟨l, before, hl, hcourse⟩
  refine Front.filterMap_insert (hs.course?_eq hid ht) (fun other ho _ => ?_)
    fun other ho y hy => ?_
  · obtain ⟨l, before, -, hcourse⟩ := hresult other ho
    rw [hcourse]
    exact Option.some_ne_none _
  · obtain ⟨l, before, hl, hcourse⟩ := hresult other ho
    rw [hcourse] at hy
    cases hy
    unfold beats sameResult criteriaIn
    rw [ht.get?, hl]
    exact ⟨rfl, rfl, rfl⟩

/-- What is asked of the courses of settled labels may be asked of their slots. -/
theorem Sound.any_courses (hs : Sound q settings measures f order held) {ids : List LabelId}
    (hids : ∀ id ∈ ids, id ∈ order) {ask : Course → Bool} {askSlot : LabelId → Bool}
    (hsame : ∀ id label before, f.pool.get? id = some label →
      ask (.of graph label before) = askSlot id) :
    (ids.filterMap (f.course? graph)).any ask = ids.any askSlot := by
  rw [List.any_filterMap]
  refine Bool.eq_iff_iff.2 ?_
  rw [List.any_eq_true, List.any_eq_true]
  refine exists_congr fun id => and_congr_right fun hid => ?_
  have hin : id ∈ order ++ (held ++ f.queued) := List.mem_append_left _ (hids id hid)
  obtain ⟨label, links, ht⟩ := hs.traced hin
  rw [hs.course?_eq hin ht, ← hsame id label (links.map (·.2)) ht.get?]

/-- A label is beaten by what is surveyed, and by nothing else. -/
theorem Sound.survey_beaten (hs : Sound q settings measures f order held)
    (direction : Direction) (label : Label) : (f.survey graph).beaten direction label =
      (f.beatenByResult label || f.beatenAtNode label direction) := by
  have hresults : (f.survey graph).results.any
      (fun result => result.label.criteria.dominates true label.criteria) =
        f.beatenByResult label := by
    refine hs.any_courses (fun id hid => (hs.results id hid).1) fun id l before hl => ?_
    unfold criteriaIn
    rw [hl]
    rfl
  have hplace : ((f.survey graph).settled label.node).any
      (fun other => replaces direction other.label label) = f.beatenAtNode label direction := by
    refine hs.any_courses (fun id hid => ((hs.settled label.node id).1 hid).1)
      fun id l before hl => ?_
    rw [hl]
    rfl
  unfold Survey.beaten
  rw [hresults, hplace]

end Frontier

/-! ## A turn of the search -/

namespace Run

variable {q : Query} {settings : Settings} {measures : List Measure} {f f' : Frontier}
  {r r' r₁ : Run} {order : List LabelId} {id : LabelId} {label : Label}
  {links : List (LabelId × Label)} {graph : QueryGraph}

theorem filed_pop (hfiled : r.frontier.Filed settings measures) (hpop : r.pop = (some id, r₁)) :
    r₁.frontier.Filed settings measures := by
  obtain ⟨item, queue, hpop', -, hframe⟩ := exists_item_of_pop hpop
  rw [hframe]
  exact hfiled.pop hpop'

/-- What is taken was the first of the first bucket in which something waits, and is in sight
unless a night lies on its way. -/
theorem survey_pop (hs : Frontier.Sound q settings measures r.frontier order [])
    (hs₁ : Frontier.Sound q settings measures r₁.frontier order [id])
    (ht : Frontier.Traced q settings measures r₁.frontier.pool order id label links)
    (hpop : r.pop = (some id, r₁)) :
    (∀ i < r₁.frontier.queue.cursor, (r.frontier.survey graph).waiting i = []) ∧
      r.frontier.survey graph =
        if label.hotel = true then r₁.frontier.survey graph
        else (r₁.frontier.survey graph).inBucket r₁.frontier.queue.cursor
          (.of graph label (links.map (·.2)) :: ·) := by
  have hcourse : r₁.frontier.course? graph id = some (.of graph label (links.map (·.2))) :=
    hs₁.course?_eq (List.mem_append_right _ List.mem_cons_self) ht
  obtain ⟨item, queue, hpop', rfl, hframe⟩ := exists_item_of_pop hpop
  rw [hframe] at hcourse ⊢
  have hbuckets := BucketQueue.getElem?_of_pop hpop'
  -- the label lies where it did
  have hcourse' : r.frontier.course? graph item.id = _ := hcourse
  have hwakeful := Frontier.wakeful?_of_course? hcourse'
  refine ⟨fun i hi => ?_, ?_⟩
  · show (r.frontier.queue.buckets[i]?.getD []).filterMap _ = []
    rw [BucketQueue.getElem?_of_lt_cursor hs.queue hpop' hi]
    rfl
  · have hwaiting : ∀ i : Nat, (r.frontier.survey graph).waiting i =
        (if queue.cursor = i then item :: queue.buckets[i]?.getD []
          else queue.buckets[i]?.getD []).filterMap
            fun item => r.frontier.wakeful? graph item.id := by
      intro i
      rw [← hbuckets i]
      rfl
    split
    · next hnight =>
      rw [if_pos hnight] at hwakeful
      refine Survey.ext (funext fun i => (hwaiting i).trans ?_) rfl rfl
      split
      · exact List.filterMap_cons_none hwakeful
      · rfl
    · next hday =>
      rw [if_neg hday] at hwakeful
      refine Survey.ext (funext fun i => (hwaiting i).trans ?_) rfl rfl
      show _ = if queue.cursor = i then _ else _
      split
      · exact List.filterMap_cons_some hwakeful
      · rfl

/-- A search that is taking the edges of a label it has settled, from one bucket. -/
structure Spreading (q : Query) (settings : Settings) (measures : List Measure)
    (order : List LabelId) (id : LabelId) (label : Label) (links : List (LabelId × Label))
    (cursor : Nat) (r : Run) : Prop where
  sound : Frontier.Sound q settings measures r.frontier order []
  traced : Frontier.Traced q settings measures r.frontier.pool order id label links
  passed : (id :: links.map (·.1)).Sublist order
  goal : q.target.isGoal label = false
  filed : r.frontier.Filed settings measures
  cursor_eq : r.frontier.queue.cursor = cursor

/-- Nothing of a label but what is seen of it decides where an edge leads. -/
theorem next?_sight (q : Query) (settings : Settings) (id : LabelId) (label : Label)
    (ref : EdgeRef) : q.next? settings (label.sight q.graph).label ref =
      match expandEdge q settings id label ref with
      | .ok (some next) => if next.allowed settings then some next.bare else none
      | _ => none := by
  have hsame : q.next? settings (label.sight q.graph).label ref =
      q.next? settings label.bare ref := rfl
  rw [hsame]
  exact q.next?_bare settings id label ref

/-- Taking an edge puts where it leads to among those that wait, unless that is a night. -/
theorem Spreading.pushEdge (hq : q.Sound) {cursor : Nat}
    (he : Spreading q settings measures order id label links cursor r) {ref : EdgeRef}
    (href : ref ∈ q.graph.edgesAt label.node q.direction)
    (hpush : Run.pushEdge q settings id label r ref = .ok r') :
    Spreading q settings measures order id label links cursor r' ∧
      r'.frontier.survey q.graph =
        match (q.next? settings (label.sight q.graph).label ref).filter (!·.hotel) with
        | some next => (r.frontier.survey q.graph).enqueue settings cursor
            ((Course.of q.graph label (links.map (·.2))).extend q.graph next)
        | none => r.frontier.survey q.graph := by
  obtain ⟨hs', ht', -⟩ := pushEdge_sound he.sound he.traced he.passed he.goal href hpush
  rw [next?_sight q settings id]
  rcases frontier_pushEdge hpush with
    ⟨hnone, heq⟩ | ⟨next, hnext, ⟨hbeyond, heq⟩ | ⟨hin, hpush'⟩⟩
  · rw [hnone, heq]
    exact ⟨⟨hs', ht', he.passed, he.goal, heq ▸ he.filed, heq ▸ he.cursor_eq⟩, rfl⟩
  · have hnot : next.allowed settings = false := by
      unfold Label.allowed
      rw [hbeyond]
      rfl
    rw [hnext, heq]
    dsimp only
    rw [hnot]
    exact ⟨⟨hs', ht', he.passed, he.goal, heq ▸ he.filed, heq ▸ he.cursor_eq⟩, rfl⟩
  · have htrail : Trail q settings measures (next :: ((id, label) :: links).map (·.2)) :=
      .step id ref next label _ he.traced.trail he.goal href hnext hin
    have hsub : (((id, label) :: links).map (·.1)).Sublist order := he.passed
    obtain ⟨cost, now, -, -, rfl⟩ := expandEdge_eq_some_iff.1 hnext
    obtain ⟨hfiled', hcursor', hsurvey⟩ :=
      he.sound.survey_push hq he.filed he.traced.linked htrail hsub hpush'
    refine ⟨⟨hs', ht', he.passed, he.goal, hfiled', hcursor'.trans he.cursor_eq⟩, ?_⟩
    rw [hsurvey, hnext, he.cursor_eq]
    dsimp only
    have hbare : (q.after id label ref cost now).bare.hotel =
        (q.after id label ref cost now).hotel := rfl
    rw [Label.allowed_iff.2 hin, if_pos rfl, Option.filter_some, hbare]
    cases (q.after id label ref cost now).hotel <;> rfl

/-- Expanding a label puts what its edges lead to among those that wait, but for nights. -/
theorem Spreading.expand (hq : q.Sound) {cursor : Nat}
    (he : Spreading q settings measures order id label links cursor r)
    (h : r.expand q settings id label = .ok r') :
    r'.frontier.Filed settings measures ∧
      r'.frontier.survey q.graph =
        (q.onward settings (.of q.graph label (links.map (·.2)))).foldl
          (Survey.enqueue settings cursor) (r.frontier.survey q.graph) := by
  -- over any of the edges, so that the rest of them can be taken from where the first has led
  have hall : ∀ refs : List EdgeRef, (∀ ref ∈ refs, ref ∈ q.graph.edgesAt label.node q.direction) →
      ∀ r, Spreading q settings measures order id label links cursor r →
      refs.foldlM (Run.pushEdge q settings id label) r = .ok r' →
      r'.frontier.Filed settings measures ∧ r'.frontier.survey q.graph =
        (((refs.filterMap (q.next? settings (label.sight q.graph).label)).filter
          (!·.hotel)).map ((Course.of q.graph label (links.map (·.2))).extend q.graph)).foldl
            (Survey.enqueue settings cursor) (r.frontier.survey q.graph) := by
    intro refs
    induction refs with
    | nil =>
      intro _ r he h
      cases h
      exact ⟨he.filed, rfl⟩
    | cons ref refs ih =>
      intro hrefs r he h
      rw [List.foldlM_cons] at h
      obtain ⟨r₁, hpush, h⟩ := Fallible.bind_eq_ok.1 h
      obtain ⟨he₁, hsurvey⟩ := he.pushEdge hq (hrefs ref List.mem_cons_self) hpush
      obtain ⟨hfiled', hsurvey'⟩ := ih (fun ref' h' => hrefs ref' (List.mem_cons_of_mem _ h')) r₁
        he₁ h
      refine ⟨hfiled', ?_⟩
      rw [hsurvey', hsurvey, List.filter_filterMap, List.filter_filterMap, List.filterMap_cons]
      cases (q.next? settings (label.sight q.graph).label ref).filter (!·.hotel) <;> rfl
  exact hall _ (fun _ href => href) r he h

/-- Handling the label in the hand does to what is surveyed what `Survey.handle` says. -/
theorem Visits.survey (hq : q.Sound)
    (hs : Frontier.Sound q settings measures f order [id])
    (ht : Frontier.Traced q settings measures f.pool order id label links)
    (hfiled : f.Filed settings measures) (hv : Visits q settings f id label f') :
    f'.Filed settings measures ∧
      f'.survey q.graph = (f.survey q.graph).handle q settings f.queue.cursor
        (.of q.graph label (links.map (·.2))) := by
  have hid : id ∈ order ++ ([id] ++ f.queued) := List.mem_append_right _ List.mem_cons_self
  have hbeaten : (f.survey q.graph).beaten q.direction
      (Course.of q.graph label (links.map (·.2))).label =
        (f.beatenByResult label || f.beatenAtNode label q.direction) :=
    hs.survey_beaten q.direction _
  have hgoal_eq : q.target.isGoal (Course.of q.graph label (links.map (·.2))).label =
      q.target.isGoal label := rfl
  have hsettle : (f.settle label.node id).survey q.graph =
      (f.survey q.graph).settle (.of q.graph label (links.map (·.2))) :=
    hs.survey_settle hid ht (hs.node_lt hq ht.get?)
  have hunbeaten : f.beatenByResult label = false ∧ f.beatenAtNode label q.direction = false →
      ¬(f.beatenByResult label || f.beatenAtNode label q.direction) = true := by
    intro hkept
    rw [hkept.1, hkept.2]
    exact Bool.false_ne_true
  unfold Survey.handle
  rw [hbeaten, hgoal_eq]
  cases hv with
  | beaten hb =>
    refine ⟨hfiled.congr rfl fun other ho => ?_, ?_⟩
    · exact hs.discard.2 other (hs.ne_of_held (List.mem_append_right _ ho))
    · rw [if_pos (Bool.or_eq_true _ _ ▸ hb)]
      exact hs.survey_discard
  | result hgoal hkept =>
    refine ⟨hfiled.congr rfl fun _ _ => rfl, ?_⟩
    rw [if_neg (hunbeaten hkept), if_pos hgoal, ← hsettle]
    show Survey.mk _ _ _ = Survey.mk _ _ _
    congr 1
    exact hs.survey_results hid ht
  | expanded r r' hgoal hr hexp hkept =>
    have hsettled := hs.settle hq ht.get?
    have hfiled' : (f.settle label.node id).Filed settings measures :=
      hfiled.congr rfl fun _ _ => rfl
    obtain ⟨links', ht', hsub⟩ := hsettled.traced_of_passed List.mem_cons_self ht.get?
    cases ht.linked.eq ht'.linked
    rw [← hr] at hsettled hfiled' ht' hsettle
    have he : Spreading q settings measures (id :: order) id label links f.queue.cursor r :=
      ⟨hsettled, ht', hsub, hgoal, hfiled', by rw [hr]; rfl⟩
    rw [if_neg (hunbeaten hkept), if_neg (Bool.eq_false_iff.1 hgoal), ← hsettle]
    exact he.expand hq hexp

/-! ## The start of a search -/

/-- A search that is queueing its start labels, one after the other. -/
structure Opening (q : Query) (settings : Settings) (measures : List Measure) (r : Run) :
    Prop where
  sound : Frontier.Sound q settings measures r.frontier [] []
  filed : r.frontier.Filed settings measures
  cursor_eq : r.frontier.queue.cursor = 0

theorem opening_opening (hf : f.Blank)
    (hqueue : f.queue = .new settings.maxBucket settings.sortedBuckets) :
    Opening q settings measures (opening q f) := by
  have hnone : ∀ item, item ∉ (f.withNodes q.graph.timetable.nodes.size).queue.items := by
    intro item hitem
    have hitem' : item ∈ f.queue.items := hitem
    rw [hf.items_eq] at hitem'
    cases hitem'
  refine ⟨hf.sound, ⟨?_, ?_, fun _ i => ?_, fun item hitem => absurd hitem (hnone item),
    fun item hitem => absurd hitem (hnone item)⟩, ?_⟩
  · show f.queue.maxBucket = _
    rw [hqueue]
    rfl
  · show f.queue.sorted = _
    rw [hqueue]
    rfl
  · show (f.queue.buckets[i]?.getD []).Pairwise _
    rw [hqueue]
    simp [BucketQueue.new]
  · show f.queue.cursor = 0
    rw [hqueue]
    rfl

/-- Nothing is surveyed of a search that has not begun. -/
theorem survey_opening (hf : f.Blank)
    (hqueue : f.queue = .new settings.maxBucket settings.sortedBuckets) :
    (opening q f).frontier.survey graph = ⟨fun _ => [], fun _ => [], []⟩ := by
  have hs : Frontier.Sound q settings [] (opening q f).frontier [] [] := hf.sound
  refine Survey.ext (funext fun i => ?_) (funext fun node => ?_) ?_
  · show (f.queue.buckets[i]?.getD []).filterMap _ = []
    rw [hqueue]
    simp [BucketQueue.new]
  · show ((opening q f).frontier.settledAt node).filterMap _ = []
    rw [hs.settledAt_eq_nil node]
    rfl
  · show f.results.filterMap _ = []
    rw [hf.results_eq]
    rfl

theorem Opening.pushStart (hq : q.Sound) (hr : Opening q settings measures r) {time : Time}
    (htime : time ∈ q.startTimes)
    (hpush : Run.pushStart q settings measures r time = .ok r') :
    Opening q settings measures r' ∧ r'.frontier.survey graph =
      if (startLabel q measures time).allowed settings then
        (r.frontier.survey graph).enqueue settings 0 (.of graph (startLabel q measures time) [])
      else r.frontier.survey graph := by
  have hs' := pushStart_sound htime hr.sound hpush
  unfold Label.allowed
  rcases frontier_pushStart hpush with ⟨hbeyond, heq⟩ | ⟨hin, hpush'⟩
  · rw [hbeyond]
    exact ⟨⟨hs', heq ▸ hr.filed, heq ▸ hr.cursor_eq⟩, by rw [heq]; rfl⟩
  · have htrail : Trail q settings measures
        (startLabel q measures time :: ([] : List (LabelId × Label)).map (·.2)) :=
      .start time htime hin
    obtain ⟨hfiled', hcursor', hsurvey⟩ :=
      hr.sound.survey_push hq hr.filed .nil htrail (List.Sublist.refl _) hpush'
    refine ⟨⟨hs', hfiled', hcursor'.trans hr.cursor_eq⟩, ?_⟩
    rw [hsurvey, hin, hr.cursor_eq]
    rfl

/-- The start puts the start labels among those that wait. -/
theorem survey_start (hq : q.Sound) (hf : f.Blank)
    (hqueue : f.queue = .new settings.maxBucket settings.sortedBuckets)
    (h : Run.start q settings measures f = .ok r) :
    r.frontier.Filed settings measures ∧ r.frontier.survey q.graph =
      (q.openings settings measures).foldl (Survey.enqueue settings 0)
        ⟨fun _ => [], fun _ => [], []⟩ := by
  have hall : ∀ times : List Time, (∀ time ∈ times, time ∈ q.startTimes) →
      ∀ r₀, Opening q settings measures r₀ →
      times.foldlM (Run.pushStart q settings measures) r₀ = .ok r →
      r.frontier.Filed settings measures ∧ r.frontier.survey q.graph =
        (((times.map (startLabel q measures)).filter (Label.allowed settings)).map
          (Course.of q.graph · [])).foldl (Survey.enqueue settings 0)
            (r₀.frontier.survey q.graph) := by
    intro times
    induction times with
    | nil =>
      intro _ r₀ hr h
      cases h
      exact ⟨hr.filed, rfl⟩
    | cons time times ih =>
      intro htimes r₀ hr h
      rw [List.foldlM_cons] at h
      obtain ⟨r₁, hpush, h⟩ := Fallible.bind_eq_ok.1 h
      obtain ⟨hr₁, hsurvey⟩ := hr.pushStart hq (htimes time List.mem_cons_self) hpush
      obtain ⟨hfiled, hsurvey'⟩ := ih (fun t ht => htimes t (List.mem_cons_of_mem _ ht)) r₁ hr₁ h
      refine ⟨hfiled, ?_⟩
      rw [hsurvey', hsurvey, List.map_cons, List.filter_cons]
      split <;> rfl
  obtain ⟨hfiled, hsurvey⟩ :=
    hall q.startTimes (fun _ ht => ht) (opening q f) (opening_opening hf hqueue) h
  rw [survey_opening hf hqueue] at hsurvey
  exact ⟨hfiled, hsurvey⟩

theorem Reached.filed (hq : q.Sound) (hf : f.Blank)
    (hqueue : f.queue = .new settings.maxBucket settings.sortedBuckets)
    (h : Reached q settings measures f r) : r.frontier.Filed settings measures := by
  induction h with
  | start h => exact (survey_start hq hf hqueue h).1
  | visit h hpop hvisit ih =>
    obtain ⟨order, label, links, hs₁, ht, hv⟩ := h.taken hq hf hpop hvisit
    exact (hv.survey hq hs₁ ht (filed_pop ih hpop)).1

/-- After a turn either the same is surveyed, or the first that waits has been taken and
handled. -/
theorem Turn.survey (hq : q.Sound) (hf : f.Blank)
    (hqueue : f.queue = .new settings.maxBucket settings.sortedBuckets)
    (h : Reached q settings measures f r) (ht : Turn q settings r r') :
    r'.frontier.survey q.graph = r.frontier.survey q.graph ∨
      (r.frontier.survey q.graph).Next q settings (r'.frontier.survey q.graph) := by
  obtain ⟨id, r₁, hpop, hvisit⟩ := ht
  obtain ⟨order, label, links, hs, hs₁, ht⟩ := h.popped hq hf hpop
  have hfiled₁ := filed_pop (h.filed hq hf hqueue) hpop
  obtain ⟨hbelow, hsurvey⟩ := survey_pop hs hs₁ ht hpop
  obtain ⟨-, hhandled⟩ := (visits_of_visit ht.get? hvisit).survey hq hs₁ ht hfiled₁
  cases hnight : label.hotel with
  | false =>
    rw [if_neg (Bool.eq_false_iff.1 hnight)] at hsurvey
    exact Or.inr ⟨_, _, _, hbelow, hsurvey, hhandled⟩
  | true =>
    rw [if_pos hnight] at hsurvey
    -- the references of a label do not matter to what beats it
    have hbeaten : (r₁.frontier.survey q.graph).beaten q.direction label = true := by
      rw [hs₁.survey_beaten, h.beaten_of_hotel hq hf hpop hs₁ ht hnight, Bool.or_true]
    have hbeaten' : (r₁.frontier.survey q.graph).beaten q.direction
        (Course.of q.graph label (links.map (·.2))).label = true := hbeaten
    refine Or.inl ?_
    rw [hhandled, hsurvey]
    unfold Survey.handle
    rw [if_pos hbeaten']

end Run

end JourneyPlanner
