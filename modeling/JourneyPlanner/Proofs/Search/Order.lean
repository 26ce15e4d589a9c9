import JourneyPlanner.Proofs.Search.Leads
import JourneyPlanner.Proofs.Search.Turns
import JourneyPlanner.Proofs.Storage.Line

/-!
# The order in which labels are taken

A search takes its labels in ascending order of their buckets, and where buckets are
sorted, in ascending order of their bounds (`Criteria.Precedes`). The reason is that no
bound falls along an edge: a label is queued no sooner than the one that led to it, so
that its key is never below the cursor, nor above the last bucket, since that lies at the
limit. So no key is ever moved.

`Frontier.InLine` says of a queue that it holds its labels in this order, and
`Frontier.Behind` that all that wait go no sooner than something. What a turn takes goes
before all that wait afterwards, and what went before all of them still does
(`Run.Turn.inLine`).
-/

namespace JourneyPlanner

/-- The key of a label in the queue. -/
def Queued.key (item : Queued) : Nat := item.criteria.bucket

/-- What the labels of one bucket are ordered by. -/
def Queued.rank (item : Queued) : List Nat := item.criteria.bounds

namespace Criteria

/-- A label with the first criteria is taken no later than one with the second. -/
def Precedes (settings : Settings) (a b : Criteria) : Prop :=
  a.bucket ≤ b.bucket ∧ (settings.sortedBuckets = true → a.bounds ≤ b.bounds)

variable {settings : Settings} {a b c : Criteria}

theorem Precedes.refl (settings : Settings) (a : Criteria) : a.Precedes settings a :=
  ⟨Nat.le_refl _, fun _ => le_refl _⟩

/-- What is taken no later than something taken no later is taken no later. -/
theorem Precedes.trans (h : a.Precedes settings b) (h' : b.Precedes settings c) :
    a.Precedes settings c :=
  ⟨Nat.le_trans h.1 h'.1, fun hs => le_trans (h.2 hs) (h'.2 hs)⟩

/-- Criteria with no larger bound for any measure are taken no later. -/
theorem Precedes.of_least_le (ha : a.Full) (hb : b.Full) (h : ∀ m, a.least m ≤ b.least m) :
    a.Precedes settings b := by
  refine ⟨?_, fun _ => ha.bounds_le hb h⟩
  rw [ha.bucket_eq, hb.bucket_eq]
  exact h .time

end Criteria

namespace Frontier

/-- The queue holds its labels in order, each in the bucket of its own key. -/
structure InLine (settings : Settings) (f : Frontier) : Prop where
  maxBucket_eq : f.queue.maxBucket = settings.maxMinutes
  sorted_eq : f.queue.sorted = settings.sortedBuckets
  ranked : f.queue.Ranked Queued.key Queued.rank
  full : ∀ item ∈ f.queue.items, item.criteria.Full
  tagged : ∀ item ∈ f.queue.items,
    ∃ label, f.pool.get? item.id = some label ∧ label.criteria = item.criteria

/-- Each label is queued with its own criteria. -/
def Tagged (f : Frontier) : Prop :=
  ∀ item ∈ f.queue.items,
    ∃ label, f.pool.get? item.id = some label ∧ label.criteria = item.criteria

/-- All that wait are taken no sooner. -/
def Behind (settings : Settings) (f : Frontier) (criteria : Criteria) : Prop :=
  ∀ item ∈ f.queue.items, criteria.Precedes settings item.criteria

variable {q : Query} {settings : Settings} {f f' : Frontier} {order held : List LabelId}
  {id : LabelId} {label : Label} {criteria : Criteria}

/-- Labels stay queued with their own criteria where queue and slots stay. -/
theorem Tagged.congr (h : f.Tagged) (hqueue : f'.queue = f.queue)
    (hsame : ∀ id ∈ f.queued, f'.pool.get? id = f.pool.get? id) : f'.Tagged := by
  unfold Tagged
  rw [hqueue]
  intro item hitem
  rw [hsame item.id (List.mem_map_of_mem hitem)]
  exact h item hitem

/-- After a push the queue holds the new label and those that were there. -/
theorem mem_items_push (hqueue : f'.queue =
    f.queue.push Queued.order label.criteria.bucket { id, criteria := label.criteria })
    (item : Queued) :
    item ∈ f'.queue.items ↔ item = ⟨id, label.criteria⟩ ∨ item ∈ f.queue.items := by
  rw [hqueue, BucketQueue.items_push.mem_iff, List.mem_cons]

/-- A label that is added is queued with its own criteria. -/
theorem Tagged.push (h : f.Tagged) (hlaid : f.pool.Laid) (hpush : f.push label = (true, f')) :
    f'.Tagged := by
  obtain ⟨id, halloc, hqueue, -, -⟩ := push_eq_true hpush
  obtain ⟨hfree, hnew, hother, -, -⟩ := Pool.alloc_spec hlaid halloc
  intro item hitem
  rcases (mem_items_push hqueue item).1 hitem with rfl | hold
  · exact ⟨label, hnew, rfl⟩
  · obtain ⟨l, hl, heq⟩ := h item hold
    refine ⟨l, ?_, heq⟩
    rw [hother item.id fun hid => ?_]
    · exact hl
    · rw [hid, hfree] at hl
      cases hl

/-- A queue in order stays so where queue and slots stay. -/
theorem InLine.congr (h : f.InLine settings) (hqueue : f'.queue = f.queue)
    (hsame : ∀ id ∈ f.queued, f'.pool.get? id = f.pool.get? id) : f'.InLine settings := by
  obtain ⟨hmax, hsorted, hranked, hfull, htagged⟩ := h
  refine ⟨?_, ?_, ?_, ?_, ?_⟩
  · rw [hqueue]
    exact hmax
  · rw [hqueue]
    exact hsorted
  · rw [hqueue]
    exact hranked
  · rw [hqueue]
    exact hfull
  · exact Tagged.congr htagged hqueue hsame

/-- Who waits depends on the queue alone. -/
theorem Behind.congr (h : f.Behind settings criteria) (hqueue : f'.queue = f.queue) :
    f'.Behind settings criteria := by
  unfold Behind
  rw [hqueue]
  exact h

/-! ## Queueing -/

/-- A label within the limits is queued under its own key, unless it comes too late. -/
theorem InLine.bucketOf_eq (h : f.InLine settings) (hfull : criteria.Full)
    (hin : criteria.isBeyond settings = false) (hcursor : f.queue.cursor ≤ criteria.bucket) :
    f.queue.bucketOf criteria.bucket = criteria.bucket := by
  have hle : criteria.bucket ≤ f.queue.maxBucket := by
    rw [h.maxBucket_eq, hfull.bucket_eq]
    exact (hfull.isBeyond_eq_false_iff.1 hin .time).2
  unfold BucketQueue.bucketOf
  omega

/-- The comparison of the program compares ranks, as all labels are measured alike. -/
theorem InLine.order_ne_gt_iff (h : f.InLine settings) (hfull : criteria.Full) {item : Queued}
    (hitem : item ∈ f.queue.items) {id : LabelId} : Queued.order item ⟨id, criteria⟩ ≠ .gt ↔
      Queued.rank item ≤ Queued.rank ⟨id, criteria⟩ := by
  refine Criteria.order_ne_gt_iff ?_
  rw [(h.full item hitem).length_eq, hfull.length_eq]

/-- A push that does not come too late keeps the queue in order. -/
theorem InLine.push (h : f.InLine settings) (hlaid : f.pool.Laid)
    (hfull : label.criteria.Full) (hin : label.criteria.isBeyond settings = false)
    (hcursor : f.queue.cursor ≤ label.criteria.bucket) (hpush : f.push label = (true, f')) :
    f'.InLine settings ∧ f'.queue.cursor = f.queue.cursor ∧
      ∀ criteria : Criteria, criteria.Precedes settings label.criteria →
        f.Behind settings criteria → f'.Behind settings criteria := by
  obtain ⟨id, halloc, hqueue, -, -⟩ := push_eq_true hpush
  have hitems := mem_items_push hqueue
  have hkey : f.queue.bucketOf (Queued.key ⟨id, label.criteria⟩) =
      Queued.key ⟨id, label.criteria⟩ := h.bucketOf_eq hfull hin hcursor
  have hcompare : ∀ item ∈ f.queue.items, Queued.order item ⟨id, label.criteria⟩ ≠ .gt ↔
      Queued.rank item ≤ Queued.rank ⟨id, label.criteria⟩ :=
    fun item hitem => h.order_ne_gt_iff hfull hitem
  refine ⟨⟨?_, ?_, ?_, fun item hitem => ?_, Tagged.push h.tagged hlaid hpush⟩, ?_,
    fun criteria hfirst hbehind item hitem => ?_⟩
  · rw [hqueue, BucketQueue.maxBucket_push]
    exact h.maxBucket_eq
  · rw [hqueue, BucketQueue.sorted_push]
    exact h.sorted_eq
  · have hranked := BucketQueue.Ranked.push h.ranked hkey hcompare
    rw [hqueue]
    exact hranked
  · rcases (hitems item).1 hitem with rfl | hold
    · exact hfull
    · exact h.full item hold
  · rw [hqueue, BucketQueue.cursor_push]
  · rcases (hitems item).1 hitem with rfl | hold
    · exact hfirst
    · exact hbehind item hold

/-! ## Taking -/

/-- What is taken from a queue in order goes before all that are left. -/
theorem InLine.pop (h : f.InLine settings) (hs : f.queue.Sound) {item : Queued}
    {queue : BucketQueue Queued} (hpop : f.queue.pop = (some item, queue)) :
    Frontier.InLine settings { f with queue } ∧ queue.cursor = item.criteria.bucket ∧
      Frontier.Behind settings { f with queue } item.criteria ∧
      ∀ criteria, f.Behind settings criteria → criteria.Precedes settings item.criteria ∧
        Frontier.Behind settings { f with queue } criteria := by
  obtain ⟨hranked, hcursor, hfirst⟩ := h.ranked.pop hs hpop
  obtain ⟨-, -, -, -, hmax, hsorted⟩ := BucketQueue.pop_eq hpop
  have hitems : f.queue.items = item :: queue.items := BucketQueue.items_pop hs hpop
  have hitem : item ∈ f.queue.items := hitems ▸ List.mem_cons_self
  have hleft : ∀ x ∈ queue.items, x ∈ f.queue.items :=
    fun x hx => hitems ▸ List.mem_cons_of_mem _ hx
  refine ⟨⟨hmax.trans h.maxBucket_eq, hsorted.trans h.sorted_eq, hranked,
    fun x hx => h.full x (hleft x hx), fun x hx => h.tagged x (hleft x hx)⟩, hcursor,
    fun x hx => ?_, fun criteria hbehind => ⟨hbehind item hitem, fun x hx =>
      hbehind x (hleft x hx)⟩⟩
  obtain ⟨hkey, hrank⟩ := hfirst x hx
  refine ⟨hkey, fun hs' => ?_⟩
  rcases Nat.lt_or_eq_of_le hkey with hlt | heq
  · exact (h.full item hitem).bounds_le_of_bucket_lt (h.full x (hleft x hx)) hlt
  · exact hrank (h.sorted_eq.trans hs') heq

end Frontier

namespace Run

variable {q : Query} {settings : Settings} {f : Frontier} {r r' r₁ : Run}
  {order : List LabelId} {id : LabelId} {label : Label}

/-- The label to go next. -/
def next? (r : Run) : Option Label := r.pop.1.bind r.frontier.label?

/-- A label taken from a queue in order goes before all that still wait. -/
theorem pop_inLine (hs : Frontier.Sound q settings Measure.all r.frontier order [])
    (hl : r.frontier.InLine settings) (hpop : r.pop = (some id, r₁))
    (hget : r₁.frontier.pool.get? id = some label) :
    r₁.frontier.InLine settings ∧ r₁.frontier.queue.cursor = label.criteria.bucket ∧
      r₁.frontier.Behind settings label.criteria ∧
      ∀ criteria, r.frontier.Behind settings criteria →
        criteria.Precedes settings label.criteria ∧ r₁.frontier.Behind settings criteria := by
  obtain ⟨item, queue, hpop', rfl, hframe⟩ := exists_item_of_pop hpop
  have hmem : item ∈ r.frontier.queue.items :=
    BucketQueue.items_pop hs.queue hpop' ▸ List.mem_cons_self
  obtain ⟨l, hl', heq⟩ := hl.tagged item hmem
  rw [hframe] at hget
  have hsame : some l = some label := hl'.symm.trans hget
  cases hsame
  rw [hframe, heq]
  exact hl.pop hs.queue hpop'

/-- What an edge leads to from a label within the limits goes no sooner. -/
theorem precedes_of_expandEdge (hq : q.Sound) (hp : label.Proper q)
    (hin : label.criteria.isBeyond settings = false) {ref : EdgeRef} {next : Label}
    (href : ref ∈ q.graph.edgesAt label.node q.direction)
    (h : expandEdge q settings id label ref = .ok (some next)) :
    next.criteria.Full ∧ label.criteria.Precedes settings next.criteria := by
  have hleads : q.Leads settings label next := ⟨id, ref, href, h⟩
  have hp' := hp.leads hq hleads
  exact ⟨hp'.full, .of_least_le hp.full hp'.full fun m => hp.least_le hq hin (.single hleads) m⟩

/-- A search that is taking the edges of a label it has settled, one after the other. -/
structure Expanding (q : Query) (settings : Settings) (order : List LabelId) (id : LabelId)
    (label : Label) (links : List (LabelId × Label)) (r : Run) : Prop where
  sound : Frontier.Sound q settings Measure.all r.frontier order []
  traced : Frontier.Traced q settings Measure.all r.frontier.pool order id label links
  passed : (id :: links.map (·.1)).Sublist order
  goal : q.target.isGoal label = false
  inLine : r.frontier.InLine settings
  cursor_eq : r.frontier.queue.cursor = label.criteria.bucket

/-- An edge never leads to a label that should have been taken sooner. -/
theorem Expanding.precedes (hq : q.Sound) {links : List (LabelId × Label)}
    (he : Expanding q settings order id label links r) {ref : EdgeRef} {next : Label}
    (href : ref ∈ q.graph.edgesAt label.node q.direction)
    (hnext : expandEdge q settings id label ref = .ok (some next)) :
    next.criteria.Full ∧ label.criteria.Precedes settings next.criteria :=
  precedes_of_expandEdge hq (he.traced.trail.proper hq).1 he.traced.trail.not_isBeyond href hnext

/-- Taking an edge queues no label too late. -/
theorem Expanding.pushEdge (hq : q.Sound) {links : List (LabelId × Label)}
    (he : Expanding q settings order id label links r) {ref : EdgeRef}
    (href : ref ∈ q.graph.edgesAt label.node q.direction)
    (hpush : Run.pushEdge q settings id label r ref = .ok r') :
    Expanding q settings order id label links r' ∧
      ∀ criteria : Criteria, criteria.Precedes settings label.criteria →
        r.frontier.Behind settings criteria → r'.frontier.Behind settings criteria := by
  obtain ⟨hs', ht', -⟩ := pushEdge_sound he.sound he.traced he.passed he.goal href hpush
  rcases frontier_pushEdge hpush with ⟨-, heq⟩ | ⟨next, hnext, ⟨-, heq⟩ | ⟨hin, hpush'⟩⟩
  · rw [heq]
    exact ⟨⟨hs', ht', he.passed, he.goal, heq ▸ he.inLine, heq ▸ he.cursor_eq⟩,
      fun _ _ hbehind => hbehind⟩
  · rw [heq]
    exact ⟨⟨hs', ht', he.passed, he.goal, heq ▸ he.inLine, heq ▸ he.cursor_eq⟩,
      fun _ _ hbehind => hbehind⟩
  · obtain ⟨hfull, hprecedes⟩ := he.precedes hq href hnext
    have hcursor : r.frontier.queue.cursor ≤ next.criteria.bucket := by
      rw [he.cursor_eq]
      exact hprecedes.1
    obtain ⟨hl', hcursor', hbehind'⟩ := he.inLine.push he.sound.laid hfull hin hcursor hpush'
    exact ⟨⟨hs', ht', he.passed, he.goal, hl', hcursor'.trans he.cursor_eq⟩,
      fun criteria hfirst hbehind => hbehind' criteria (hfirst.trans hprecedes) hbehind⟩

/-- A label that is expanded queues nothing that goes before it. -/
theorem Expanding.expand (hq : q.Sound) {links : List (LabelId × Label)}
    (he : Expanding q settings order id label links r)
    (h : r.expand q settings id label = .ok r') :
    Expanding q settings order id label links r' ∧
      ∀ criteria : Criteria, criteria.Precedes settings label.criteria →
        r.frontier.Behind settings criteria → r'.frontier.Behind settings criteria := by
  refine Fallible.foldlM_keeps
    (P := fun r₁ : Run => Expanding q settings order id label links r₁ ∧
      ∀ criteria : Criteria, criteria.Precedes settings label.criteria →
        r.frontier.Behind settings criteria → r₁.frontier.Behind settings criteria)
    (fun r₁ ref r₂ href hr₁ hpush => ?_) ⟨he, fun _ _ hbehind => hbehind⟩ h
  obtain ⟨he₁, hbehind₁⟩ := hr₁
  obtain ⟨he₂, hbehind₂⟩ := he₁.pushEdge hq href hpush
  exact ⟨he₂, fun criteria hfirst hbehind =>
    hbehind₂ criteria hfirst (hbehind₁ criteria hfirst hbehind)⟩

/-- Once a label has been settled, its edges may be taken. -/
theorem expanding_of_settle (hq : q.Sound) {f : Frontier}
    (hs : Frontier.Sound q settings Measure.all f order [id])
    (hget : f.pool.get? id = some label) (hl : f.InLine settings)
    (hcursor : f.queue.cursor = label.criteria.bucket) (hgoal : q.target.isGoal label = false)
    (hr : r.frontier = f.settle label.node id) :
    ∃ links, Expanding q settings (id :: order) id label links r := by
  have hsettled := hs.settle hq hget
  have hl' : (f.settle label.node id).InLine settings := hl.congr rfl fun _ _ => rfl
  obtain ⟨links, ht, hsub⟩ := hsettled.traced_of_passed List.mem_cons_self hget
  rw [← hr] at hsettled hl' ht
  refine ⟨links, hsettled, ht, hsub, hgoal, hl', ?_⟩
  rw [hr]
  exact hcursor

/-- Visiting a label, whatever comes of it, queues nothing that goes before it. -/
theorem Visits.inLine (hq : q.Sound) {f f' : Frontier}
    (hs : Frontier.Sound q settings Measure.all f order [id])
    (hget : f.pool.get? id = some label) (hl : f.InLine settings)
    (hcursor : f.queue.cursor = label.criteria.bucket) (hv : Visits q settings f id label f') :
    f'.InLine settings ∧ ∀ criteria : Criteria, criteria.Precedes settings label.criteria →
      f.Behind settings criteria → f'.Behind settings criteria := by
  cases hv with
  | beaten hb =>
    refine ⟨hl.congr rfl fun other ho => ?_, fun _ _ hbehind => hbehind.congr rfl⟩
    exact hs.discard.2 other (hs.ne_of_held (List.mem_append_right _ ho))
  | result hgoal hkept =>
    exact ⟨hl.congr rfl fun _ _ => rfl, fun _ _ hbehind => hbehind.congr rfl⟩
  | expanded r r' hgoal hr hexp hkept =>
    obtain ⟨links, he⟩ := expanding_of_settle hq hs hget hl hcursor hgoal hr
    obtain ⟨he', hbehind'⟩ := he.expand hq hexp
    refine ⟨he'.inLine, fun criteria hfirst hbehind => hbehind' criteria hfirst ?_⟩
    rw [hr]
    exact hbehind.congr rfl

/-- A turn keeps the queue in order; what it takes, and what went before all that
waited, goes before all that wait afterwards. -/
theorem Turn.inLine (hq : q.Sound)
    (hs : Frontier.Sound q settings Measure.all r.frontier order [])
    (hl : r.frontier.InLine settings) (hpop : r.pop = (some id, r₁))
    (hget : r₁.frontier.pool.get? id = some label) (hvisit : r₁.visit q settings id = .ok r') :
    r'.frontier.InLine settings ∧ r'.frontier.Behind settings label.criteria ∧
      ∀ criteria, r.frontier.Behind settings criteria →
        criteria.Precedes settings label.criteria ∧ r'.frontier.Behind settings criteria := by
  obtain ⟨hs₁, -⟩ := pop_sound hs hpop
  obtain ⟨hl₁, hcursor, hbehind, hall⟩ := pop_inLine hs hl hpop hget
  obtain ⟨hl', hkeeps⟩ := (visits_of_visit hget hvisit).inLine hq hs₁ hget hl₁ hcursor
  refine ⟨hl', hkeeps _ (.refl _ _) hbehind, fun criteria hb => ?_⟩
  obtain ⟨hfirst, hb₁⟩ := hall criteria hb
  exact ⟨hfirst, hkeeps criteria hfirst hb₁⟩

/-- A search that is queueing its start labels, one after the other. -/
structure Starting (q : Query) (settings : Settings) (r : Run) : Prop where
  sound : Frontier.Sound q settings Measure.all r.frontier [] []
  inLine : r.frontier.InLine settings
  cursor_eq : r.frontier.queue.cursor = 0

/-- Before the first start label the queue is empty and in order. -/
theorem starting_opening (hf : f.Blank)
    (hqueue : f.queue = .new settings.maxBucket settings.sortedBuckets) :
    Starting q settings (opening q f) := by
  have hnone : ∀ item, item ∉ (f.withNodes q.graph.timetable.nodes.size).queue.items := by
    intro item hitem
    have hitem' : item ∈ f.queue.items := hitem
    rw [hf.items_eq] at hitem'
    cases hitem'
  refine ⟨hf.sound, ⟨?_, ?_, ?_, fun item hitem => absurd hitem (hnone item),
    fun item hitem => absurd hitem (hnone item)⟩, ?_⟩
  · show f.queue.maxBucket = _
    rw [hqueue]
    rfl
  · show f.queue.sorted = _
    rw [hqueue]
    rfl
  · show f.queue.Ranked _ _
    rw [hqueue]
    exact BucketQueue.new_ranked _ _
  · show f.queue.cursor = 0
    rw [hqueue]
    rfl

/-- A start label is queued in order. -/
theorem Starting.pushStart (hq : q.Sound) (hr : Starting q settings r) {time : Time}
    (htime : time ∈ q.startTimes)
    (hpush : Run.pushStart q settings Measure.all r time = .ok r') : Starting q settings r' := by
  have hs' := pushStart_sound htime hr.sound hpush
  rcases frontier_pushStart hpush with ⟨-, heq⟩ | ⟨hin, hpush'⟩
  · exact ⟨hs', heq ▸ hr.inLine, heq ▸ hr.cursor_eq⟩
  · have hfull := (Label.Proper.start hq time).full
    obtain ⟨hl', hcursor', -⟩ :=
      hr.inLine.push hr.sound.laid hfull hin (by rw [hr.cursor_eq]; exact Nat.zero_le _) hpush'
    exact ⟨hs', hl', hcursor'.trans hr.cursor_eq⟩

/-- After the starts the queue is in order. -/
theorem start_inLine (hq : q.Sound) (hf : f.Blank)
    (hqueue : f.queue = .new settings.maxBucket settings.sortedBuckets)
    (h : Run.start q settings Measure.all f = .ok r) : r.frontier.InLine settings :=
  (Fallible.foldlM_keeps (P := Starting q settings)
    (fun _ _ _ htime hr hpush => hr.pushStart hq htime hpush) (starting_opening hf hqueue) h).inLine

/-- In every state of a search the queue is in order. -/
theorem Reached.inLine (hq : q.Sound) (hf : f.Blank)
    (hqueue : f.queue = .new settings.maxBucket settings.sortedBuckets)
    (h : Reached q settings Measure.all f r) : r.frontier.InLine settings := by
  induction h with
  | start h => exact start_inLine hq hf hqueue h
  | visit h hpop hvisit ih =>
    obtain ⟨order, hs⟩ := h.sound hq hf
    obtain ⟨order₁, label, links, -, ht, -⟩ := h.taken hq hf hpop hvisit
    exact (Turn.inLine hq hs ih hpop ht.get? hvisit).1

/-- What a turn takes goes before all that wait afterwards, and what went before all
that waited goes before it and them. -/
theorem Reached.takes_first (hq : q.Sound) (hf : f.Blank)
    (hqueue : f.queue = .new settings.maxBucket settings.sortedBuckets)
    (h : Reached q settings Measure.all f r) (hpop : r.pop = (some id, r₁))
    (hget : r₁.frontier.pool.get? id = some label) (hvisit : r₁.visit q settings id = .ok r') :
    r'.frontier.Behind settings label.criteria ∧
      ∀ criteria, r.frontier.Behind settings criteria →
        criteria.Precedes settings label.criteria ∧ r'.frontier.Behind settings criteria := by
  obtain ⟨order, hs⟩ := h.sound hq hf
  exact (Turn.inLine hq hs (h.inLine hq hf hqueue) hpop hget hvisit).2

end Run

/-! ## What has been settled -/

namespace Frontier

/-- A label has been settled. -/
def Holds (f : Frontier) (label : Label) : Prop :=
  ∃ id ∈ f.settledAt label.node, f.pool.get? id = some label

/-- A label is among the results. -/
def Reports (f : Frontier) (label : Label) : Prop :=
  ∃ id ∈ f.results, f.pool.get? id = some label

/-- No settled label has lost its place, or been beaten, by one of an earlier bucket. -/
structure Apart (direction : Direction) (f : Frontier) : Prop where
  places : ∀ a b, f.Holds a → f.Holds b → a.node = b.node →
    a.criteria.bucket < b.criteria.bucket → replaces direction a b = false
  results : ∀ a b, f.Reports a → f.Holds b → a.criteria.bucket < b.criteria.bucket →
    a.criteria.dominates true b.criteria = false

variable {q : Query} {settings : Settings} {measures : List Measure} {f : Frontier}
  {order held : List LabelId} {label : Label}

/-- A result has been settled. -/
theorem Sound.holds_of_reports (h : Sound q settings measures f order held)
    (hr : f.Reports label) : f.Holds label := by
  obtain ⟨id, hid, hget⟩ := hr
  exact ⟨id, (h.settled label.node id).2 ⟨(h.results id hid).1, label, hget, rfl⟩, hget⟩

end Frontier

namespace Run

variable {q : Query} {settings : Settings} {measures : List Measure} {f f' : Frontier}
  {r r' r₁ : Run} {order : List LabelId} {id : LabelId} {label : Label}

/-- Taking a label from the queue settles none. -/
theorem pop_holds_iff {x : Label} (hpop : r.pop = (some id, r₁)) :
    r₁.frontier.Holds x ↔ r.frontier.Holds x := by
  rw [(frontier_pop hpop).2]
  rfl

/-- Taking a label from the queue changes no result. -/
theorem pop_reports_iff {x : Label} (hpop : r.pop = (some id, r₁)) :
    r₁.frontier.Reports x ↔ r.frontier.Reports x := by
  rw [(frontier_pop hpop).2]
  rfl

/-- A label is settled only if no result beats it and none settled at its node replaces
it. -/
theorem Visits.holds (hq : q.Sound) (hs : Frontier.Sound q settings measures f order [id])
    (hget : f.pool.get? id = some label) (hv : Visits q settings f id label f') {x : Label}
    (hx : f'.Holds x) : f.Holds x ∨ x = label ∧
      (∀ a, f.Reports a → a.criteria.dominates true label.criteria = false) ∧
      ∀ a, f.Holds a → a.node = label.node → Frontier.replaces q.direction a label = false := by
  have hhandled := hv.handled hq hs hget
  obtain ⟨other, ho, hother⟩ := hx
  rcases hhandled.settled x.node other ho with hold | ⟨rfl, hmine, -, hresult, hplace⟩
  · obtain ⟨-, l, hl, -⟩ := (hs.settled x.node other).1 hold
    have hsame := (hhandled.carries.settled x.node other l hold hl).2
    rw [hother] at hsame
    cases hsame
    exact Or.inl ⟨other, hold, hl⟩
  · rw [hother] at hmine
    cases hmine
    refine Or.inr ⟨rfl, fun a ha => ?_, fun a ha hnode => ?_⟩
    · obtain ⟨i, hi, hai⟩ := ha
      have hnot := List.any_eq_false.1 hresult i hi
      unfold Frontier.criteriaIn at hnot
      rw [hai] at hnot
      exact Bool.eq_false_iff.2 hnot
    · obtain ⟨i, hi, hai⟩ := ha
      rw [hnode] at hi
      have hnot := List.any_eq_false.1 hplace i hi
      rw [hai] at hnot
      exact Bool.eq_false_iff.2 hnot

/-- Only the label in the hand comes up among the results. -/
theorem Visits.reports (hq : q.Sound) (hs : Frontier.Sound q settings measures f order [id])
    (hget : f.pool.get? id = some label) (hv : Visits q settings f id label f') {x : Label}
    (hx : f'.Reports x) : f.Reports x ∨ x = label := by
  obtain ⟨other, ho, hother⟩ := hx
  cases hv with
  | beaten hb =>
    have ho' : other ∈ f.results := ho
    have hne := hs.ne_of_held (List.mem_append_left _ (hs.results other ho').1)
    have hsame := hs.discard.2 other hne
    rw [hother] at hsame
    exact Or.inl ⟨other, ho', hsame.symm⟩
  | result hgoal hkept =>
    rcases mem_insert_results ho with ho' | rfl
    · exact Or.inl ⟨other, ho', hother⟩
    · have hsame : f.pool.get? other = some x := hother
      rw [hget] at hsame
      exact Or.inr (Option.some.inj hsame).symm
  | expanded r r' hgoal hr hexp hkept =>
    obtain ⟨-, hgrow, -⟩ := expanded_sound hq hs hget hgoal hr hexp
    rw [hr] at hgrow
    have ho' : other ∈ f.results := by
      rw [hgrow.results_eq] at ho
      exact ho
    obtain ⟨-, l, hl, -⟩ := hs.results other ho'
    have hsame := hgrow.keeps other l hl
    rw [hother] at hsame
    cases hsame
    exact Or.inl ⟨other, ho', hl⟩

/-- Nothing is settled when the starts have been queued. -/
theorem not_holds_start (hf : f.Blank) (h : Run.start q settings measures f = .ok r) :
    ¬ r.frontier.Holds label := by
  rintro ⟨id, hid, -⟩
  exact absurd (((start_sound hf h).settled _ id).1 hid).1 List.not_mem_nil

/-- What has been settled goes before all that wait. -/
theorem Reached.settled_first (hq : q.Sound) (hf : f.Blank)
    (hqueue : f.queue = .new settings.maxBucket settings.sortedBuckets)
    (h : Reached q settings Measure.all f r) (hl : r.frontier.Holds label) :
    r.frontier.Behind settings label.criteria := by
  induction h generalizing label with
  | start h => exact absurd hl (not_holds_start hf h)
  | @visit r r₁ r₂ id h hpop hvisit ih =>
    obtain ⟨order, taken, links, hs₁, ht, hv⟩ := h.taken hq hf hpop hvisit
    obtain ⟨htaken, hkeeps⟩ := h.takes_first hq hf hqueue hpop ht.get? hvisit
    rcases hv.holds hq hs₁ ht.get? hl with hold | ⟨rfl, -⟩
    · exact (hkeeps _ (ih ((pop_holds_iff hpop).1 hold))).2
    · exact htaken

/-- In every state of a search the settled labels are apart. -/
theorem Reached.apart (hq : q.Sound) (hf : f.Blank)
    (hqueue : f.queue = .new settings.maxBucket settings.sortedBuckets)
    (h : Reached q settings Measure.all f r) : r.frontier.Apart q.direction := by
  induction h with
  | start h =>
    exact ⟨fun a b ha => absurd ha (not_holds_start hf h),
      fun a b _ hb => absurd hb (not_holds_start hf h)⟩
  | @visit r r₁ r₂ id h hpop hvisit ih =>
    obtain ⟨order, label, links, hs₁, ht, hv⟩ := h.taken hq hf hpop hvisit
    obtain ⟨-, hkeeps⟩ := h.takes_first hq hf hqueue hpop ht.get? hvisit
    have hholds : ∀ x, r₁.frontier.Holds x ↔ r.frontier.Holds x := fun x => pop_holds_iff hpop
    -- what was settled before is in no later bucket than the label in the hand
    have hlate : ∀ b, r.frontier.Holds b → ¬ label.criteria.bucket < b.criteria.bucket :=
      fun b hb => Nat.not_lt_of_le (hkeeps _ (h.settled_first hq hf hqueue hb)).1.1
    refine ⟨fun a b ha hb hnode hlt => ?_, fun a b ha hb hlt => ?_⟩
    · rcases hv.holds hq hs₁ ht.get? ha with ha | ⟨rfl, -⟩
      · rcases hv.holds hq hs₁ ht.get? hb with hb | ⟨rfl, -, hplace⟩
        · exact ih.places a b ((hholds a).1 ha) ((hholds b).1 hb) hnode hlt
        · exact hplace a ha hnode
      · rcases hv.holds hq hs₁ ht.get? hb with hb | ⟨rfl, -⟩
        · exact absurd hlt (hlate b ((hholds b).1 hb))
        · exact absurd hlt (Nat.lt_irrefl _)
    · rcases hv.reports hq hs₁ ht.get? ha with ha | rfl
      · rcases hv.holds hq hs₁ ht.get? hb with hb | ⟨rfl, hresult, -⟩
        · exact ih.results a b ((pop_reports_iff hpop).1 ha) ((hholds b).1 hb) hlt
        · exact hresult a ha
      · rcases hv.holds hq hs₁ ht.get? hb with hb | ⟨rfl, -⟩
        · exact absurd hlt (hlate b ((hholds b).1 hb))
        · exact absurd hlt (Nat.lt_irrefl _)

end Run

end JourneyPlanner
