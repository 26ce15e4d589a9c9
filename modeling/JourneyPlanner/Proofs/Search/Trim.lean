import JourneyPlanner.Proofs.Search.Horizon
import JourneyPlanner.Proofs.Search.StandIn

/-!
# Leaving out what tighter limits do not allow

`View.trim` leaves out of what is seen of a search the labels that some tighter limits do
not allow. The main result of this file is that trimming and handling a label can be done
in either order:

> `View.Orderly.trim_handle`: what becomes of a label that the tighter limits allow, once
> trimmed, is what becomes of it under them among the labels that they allow.
> `View.Orderly.trim_handle_of_not_allowed`: what becomes of any other label leaves no
> trace once trimmed.

What the tighter limits do not allow has no influence on the rest. It does not beat or
replace what they allow, since whatever does so can come to no more; it leads to nothing
that they allow, since no bound falls along an edge; and among those that wait it changes
nothing in the order of the others. All of this needs what is known of the labels of a
search: they are proper, settled at their nodes, and wait in order (`View.Orderly`).
-/

namespace JourneyPlanner

/-- Leaves out what limits do not allow. -/
def View.trim (settings : Settings) (v : View) : View where
  waiting := v.waiting.filter (Label.allowed settings)
  settled node := (v.settled node).filter (Label.allowed settings)
  results := v.results.filter (Label.allowed settings)

/-! ## Labels seen without their slots -/

section Bare

variable {q : Query} {settings : Settings} {a b label next : Label}

theorem Label.Proper.bare (h : label.Proper q) : label.bare.Proper q :=
  ⟨⟨h.placed.station, h.placed.stop, h.placed.apart, h.placed.ridden⟩,
    ⟨h.riding.vehicle, h.riding.route, h.riding.day_lt, h.riding.through⟩, h.full, h.least_eq⟩

theorem Label.Timed.bare (h : label.Timed q) : label.bare.Timed q :=
  ⟨h.toProper.bare, h.inOrder, h.minutes_eq⟩

/-- What can come to no more than an allowed label is allowed as well. -/
theorem Label.Proper.allowed_of_least_le (ha : a.Proper q) (hb : b.Proper q)
    (hin : b.allowed settings = true) (hle : ∀ m, a.criteria.least m ≤ b.criteria.least m) :
    a.allowed settings = true :=
  allowed_iff.2 (ha.not_isBeyond_of_least_le hb (allowed_iff.1 hin) hle)

/-- The labels that edges lead to are proper. -/
theorem Query.proper_of_mem_nexts (q : Query) (hq : q.Sound) (h : label.Timed q)
    (hnext : next ∈ q.nexts settings label) : next.Proper q := by
  obtain ⟨ref, href, hnext⟩ := List.mem_filterMap.1 hnext
  obtain ⟨cost, now, ht, -, -, rfl⟩ := Query.next?_eq_some_iff.1 hnext
  exact (h.toProper.after hq href ht).1.bare

theorem Label.Timed.least_le_of_mem_nexts (hq : q.Sound) (h : label.Timed q)
    (hin : label.allowed settings = true) (hnext : next ∈ q.nexts settings label) (m : Measure) :
    label.criteria.least m ≤ next.criteria.least m := by
  obtain ⟨ref, href, hnext⟩ := List.mem_filterMap.1 hnext
  obtain ⟨cost, now, ht, hnow, -, rfl⟩ := Query.next?_eq_some_iff.1 hnext
  have hleads : q.Leads settings label (q.after 0 label ref cost now) :=
    ⟨0, ref, href, expandEdge_eq_some_iff.2 ⟨cost, now, ht, hnow, rfl⟩⟩
  exact h.toProper.least_le hq (allowed_iff.1 hin) (.single hleads) m

end Bare

namespace View

variable {q : Query} {settings looser : Settings} {sorted : Bool} {v : View} {label : Label}
  {nexts : List Label}

/-! ## Those that wait -/

/-- Those that wait do so in order. -/
structure InLine (sorted : Bool) (v : View) : Prop where
  ordered : v.waiting.Pairwise fun a b =>
    BucketQueue.GoesFirst Criteria.bucket Criteria.bounds sorted a.criteria b.criteria
  full : ∀ label ∈ v.waiting, label.criteria.Full

theorem InLine.order_ne_gt_iff (hv : v.InLine sorted) (hfull : label.criteria.Full) {x : Label}
    (hx : x ∈ v.waiting) : x.criteria.order label.criteria ≠ .gt ↔
      x.criteria.bounds ≤ label.criteria.bounds :=
  Criteria.order_ne_gt_iff ((hv.full x hx).length_eq.trans hfull.length_eq.symm)

theorem InLine.enqueue (hv : v.InLine sorted) (hfull : label.criteria.Full) :
    (v.enqueue sorted label).InLine sorted := by
  constructor
  · refine BucketQueue.pairwise_insertSorted BucketQueue.GoesFirst.trans hv.ordered
      (fun x hx hgt => ?_) fun x hx hne => ?_
    · exact BucketQueue.goesFirst_of_place_eq_gt (hv.order_ne_gt_iff hfull hx) hgt
    · exact BucketQueue.goesFirst_of_place_ne_gt (hv.order_ne_gt_iff hfull hx) hne
  · intro x hx
    rcases BucketQueue.mem_insertSorted.1 hx with rfl | hx
    · exact hfull
    · exact hv.full x hx

/-- A label goes to the same place among those that are left. -/
theorem InLine.trim_enqueue (hv : v.InLine sorted) (hfull : label.criteria.Full)
    (settings : Settings) : (v.enqueue sorted label).trim settings =
      if label.allowed settings then (v.trim settings).enqueue sorted label
      else v.trim settings := by
  have hwaiting : ((v.enqueue sorted label).trim settings).waiting =
      if label.allowed settings then
        BucketQueue.insertSorted (Label.place sorted) label (v.trim settings).waiting
      else (v.trim settings).waiting := by
    show (BucketQueue.insertSorted _ label v.waiting).filter _ =
      if _ then BucketQueue.insertSorted _ label (v.waiting.filter _) else v.waiting.filter _
    rw [← List.filterMap_eq_filter, BucketQueue.filterMap_insertSorted (fun x hx y hy b hb => ?_)
      (hv.ordered.imp_of_mem fun {x y} hx hy hfirst hgt =>
        hfirst.place_eq_gt (hv.order_ne_gt_iff hfull hx) (hv.order_ne_gt_iff hfull hy) hgt)]
    · cases hin : label.allowed settings with
      | false =>
        rw [Option.guard_eq_none_iff.2 hin]
        rfl
      | true =>
        rw [Option.guard_eq_some_iff.2 ⟨rfl, hin⟩]
        rfl
    · obtain ⟨rfl, -⟩ := Option.guard_eq_some_iff.1 hy
      obtain ⟨rfl, -⟩ := Option.guard_eq_some_iff.1 hb
      rfl
  split
  · next hin =>
    rw [if_pos hin] at hwaiting
    exact View.ext hwaiting rfl rfl
  · next hout =>
    rw [if_neg hout] at hwaiting
    exact View.ext hwaiting rfl rfl

/-- Queueing and then leaving out what is not allowed is queueing what is allowed. -/
theorem InLine.trim_foldl (hv : v.InLine sorted) (hfull : ∀ next ∈ nexts, next.criteria.Full)
    (settings : Settings) : (nexts.foldl (View.enqueue sorted) v).trim settings =
      (nexts.filter (Label.allowed settings)).foldl (View.enqueue sorted) (v.trim settings) := by
  induction nexts generalizing v with
  | nil => rfl
  | cons next nexts ih =>
    have hnext := hfull next List.mem_cons_self
    rw [List.foldl_cons, ih (hv.enqueue hnext) fun n hn => hfull n (List.mem_cons_of_mem _ hn),
      hv.trim_enqueue hnext, List.filter_cons]
    split <;> rfl

/-! ## What a label meets -/

/-- What is known of the labels of a search, as they are seen. -/
structure Orderly (q : Query) (settings : Settings) (v : View) : Prop where
  inLine : v.InLine settings.sortedBuckets
  waiting : ∀ label ∈ v.waiting, label.Timed q ∧ label.allowed settings = true
  settled : ∀ node, ∀ label ∈ v.settled node, label.Proper q ∧ label.node = node
  results : ∀ label ∈ v.results, label.Proper q ∧ q.target.isGoal label = true
  allowed : ∀ label ∈ v.results, label.allowed settings = true

theorem Orderly.tail (hv : v.Orderly q settings) {rest : List Label}
    (h : v.waiting = label :: rest) : Orderly q settings { v with waiting := rest } := by
  have hmem : ∀ x ∈ rest, x ∈ v.waiting := by
    intro x hx
    rw [h]
    exact List.mem_cons_of_mem _ hx
  have hordered := hv.inLine.ordered
  rw [h] at hordered
  exact ⟨⟨(List.pairwise_cons.1 hordered).2, fun x hx => hv.inLine.full x (hmem x hx)⟩,
    fun x hx => hv.waiting x (hmem x hx), hv.settled, hv.results, hv.allowed⟩

/-- What beats or replaces a label that limits allow is allowed by them as well. -/
theorem Orderly.beaten_trim (hq : q.Sound) (hv : v.Orderly q looser) (hl : label.Proper q)
    (hin : label.allowed settings = true) :
    (v.trim settings).beaten q.direction label = v.beaten q.direction label := by
  have hresults : (v.trim settings).results.any (fun r => r.criteria.dominates true label.criteria)
      = v.results.any fun r => r.criteria.dominates true label.criteria := by
    show (v.results.filter _).any _ = _
    rw [List.any_filter]
    refine Bool.eq_iff_iff.2 ?_
    rw [List.any_eq_true, List.any_eq_true]
    refine exists_congr fun r => and_congr_right fun hr => ?_
    rw [Bool.and_eq_true]
    refine and_iff_right_of_imp fun hdom => ?_
    obtain ⟨hproper, hgoal⟩ := hv.results r hr
    refine hproper.allowed_of_least_le hl hin fun m => ?_
    exact Nat.le_trans (hproper.least_le_current hq hgoal m)
      (((hproper.full.dominates_true_iff hl.full).1 hdom).1 m)
  have hplace : ((v.trim settings).settled label.node).any
      (fun other => Frontier.replaces q.direction other label) =
      (v.settled label.node).any fun other => Frontier.replaces q.direction other label := by
    show ((v.settled label.node).filter _).any _ = _
    rw [List.any_filter]
    refine Bool.eq_iff_iff.2 ?_
    rw [List.any_eq_true, List.any_eq_true]
    refine exists_congr fun other => and_congr_right fun hother => ?_
    rw [Bool.and_eq_true]
    refine and_iff_right_of_imp fun hrep => ?_
    obtain ⟨hproper, hnode⟩ := hv.settled label.node other hother
    have hrep := (Frontier.replaces_iff hproper.full hl.full).1 hrep
    exact hproper.allowed_of_least_le hl hin fun m => hrep.least_le hnode hproper hl m
  unfold View.beaten
  rw [hresults, hplace]

/-- Only the settling of an allowed label is seen once the others are left out. -/
theorem trim_settle (v : View) (label : Label) (settings : Settings) :
    (v.settle label).trim settings =
      if label.allowed settings then (v.trim settings).settle label else v.trim settings := by
  have hsettled : ∀ node, ((v.settle label).trim settings).settled node =
      if label.allowed settings then ((v.trim settings).settle label).settled node
      else (v.trim settings).settled node := by
    intro node
    unfold View.settle View.trim
    dsimp only
    by_cases hnode : label.node = node
    · rw [if_pos hnode, if_pos hnode, List.filter_cons]
    · rw [if_neg hnode, if_neg hnode, ite_self]
  split
  · next hin =>
    refine View.ext rfl (funext fun node => ?_) rfl
    rw [hsettled, if_pos hin]
  · next hout =>
    refine View.ext rfl (funext fun node => ?_) rfl
    rw [hsettled, if_neg hout]

/-- Results that limits do not allow neither turn away nor drive out any that they allow. -/
theorem trim_report (hq : q.Sound)
    (hv : ∀ r ∈ v.results, r.Proper q ∧ q.target.isGoal r = true) (hl : label.Proper q)
    (hgoal : q.target.isGoal label = true) (settings : Settings) :
    (v.report label).trim settings =
      if label.allowed settings then (v.trim settings).report label else v.trim settings := by
  -- of two results the one that has spent no more can come to no more
  have hallowed : ∀ a b : Label, a.Proper q → b.Proper q → q.target.isGoal a = true →
      q.target.isGoal b = true → a.beats b = true → b.allowed settings = true →
      a.allowed settings = true := by
    intro a b ha hb hgoal hgoal' hbeats hin
    refine ha.allowed_of_least_le hb hin fun m => ?_
    have hle := ((ha.full.dominates_false_iff hb.full).1 hbeats).1 m
    rw [ha.least_of_isGoal hq hgoal, hb.least_of_isGoal hq hgoal']
    omega
  split
  · next hin =>
    refine View.ext rfl rfl ?_
    show (Front.insert _ _ v.results label).2.filter _ = (Front.insert _ _ (v.results.filter _) _).2
    rw [← List.filterMap_eq_filter]
    refine Front.filterMap_insert (Option.guard_eq_some_iff.2 ⟨rfl, hin⟩) (fun r hr hturns => ?_)
      fun r hr y hy => ?_
    · obtain ⟨hproper, hgoal'⟩ := hv r hr
      rw [Bool.or_eq_true] at hturns
      have hin' : r.allowed settings = true := by
        rcases hturns with hbeats | hsame
        · exact hallowed r label hproper hl hgoal' hgoal hbeats hin
        · unfold Label.sameResult at hsame
          rw [Bool.and_eq_true, Bool.and_eq_true, beq_iff_eq] at hsame
          unfold Label.allowed
          rw [hsame.1.1]
          exact hin
      rw [Option.guard_eq_some_iff.2 ⟨rfl, hin'⟩]
      exact Option.some_ne_none _
    · obtain ⟨rfl, -⟩ := Option.guard_eq_some_iff.1 hy
      exact ⟨rfl, rfl, rfl⟩
  · next hout =>
    have hnone : Option.guard (Label.allowed settings) label = none :=
      Option.guard_eq_none_iff.2 (Bool.eq_false_iff.2 hout)
    refine View.ext rfl rfl ?_
    show (Front.insert _ _ v.results label).2.filter _ = v.results.filter _
    rw [← List.filterMap_eq_filter]
    refine Front.filterMap_insert_of_none hnone fun r hr hbeats => ?_
    obtain ⟨hproper, hgoal'⟩ := hv r hr
    exact Option.guard_eq_none_iff.2 <| Bool.eq_false_iff.2 fun hin =>
      hout (hallowed label r hl hproper hgoal hgoal' hbeats hin)

/-! ## Handling a label -/

theorem Orderly.inLine_settle (hv : v.Orderly q looser) (label : Label) :
    (v.settle label).InLine looser.sortedBuckets := ⟨hv.inLine.ordered, hv.inLine.full⟩

/-- What becomes of a label that tighter limits allow. -/
theorem Orderly.trim_handle (hq : q.Sound) (htight : settings.Tightens looser)
    (hv : v.Orderly q looser) (hl : label.Timed q) (hin : label.allowed settings = true) :
    (v.handle q looser label).trim settings = (v.trim settings).handle q settings label := by
  have hsettle : (v.settle label).trim settings = (v.trim settings).settle label := by
    rw [trim_settle, if_pos hin]
  unfold View.handle
  rw [hv.beaten_trim hq hl.toProper hin]
  split
  · rfl
  · split
    · next hgoal =>
      have hresults : ∀ r ∈ (v.settle label).results, r.Proper q ∧ q.target.isGoal r = true :=
        hv.results
      rw [trim_report hq hresults hl.toProper hgoal, if_pos hin, hsettle]
    · rw [(hv.inLine_settle label).trim_foldl fun next hnext =>
          (q.proper_of_mem_nexts hq hl hnext).full, ← q.nexts_tighter hq htight hl, hsettle,
        htight.sorted_eq]

/-- What becomes of any other label leaves no trace. -/
theorem Orderly.trim_handle_of_not_allowed (hq : q.Sound) (hv : v.Orderly q looser)
    (hl : label.Timed q) (hin : label.allowed looser = true)
    (hout : label.allowed settings = false) :
    (v.handle q looser label).trim settings = v.trim settings := by
  have hsettle : (v.settle label).trim settings = v.trim settings := by
    rw [trim_settle, if_neg (Bool.eq_false_iff.1 hout)]
  unfold View.handle
  split
  · rfl
  · split
    · next hgoal =>
      have hresults : ∀ r ∈ (v.settle label).results, r.Proper q ∧ q.target.isGoal r = true :=
        hv.results
      rw [trim_report hq hresults hl.toProper hgoal, if_neg (Bool.eq_false_iff.1 hout), hsettle]
    · -- no bound falls along an edge
      have hnone : (q.nexts looser label).filter (Label.allowed settings) = [] := by
        rw [List.filter_eq_nil_iff]
        intro next hnext hin'
        have hle := hl.least_le_of_mem_nexts hq hin hnext
        have hin'' := hl.allowed_of_least_le (q.proper_of_mem_nexts hq hl hnext) hin' hle
        rw [hout] at hin''
        cases hin''
      rw [(hv.inLine_settle label).trim_foldl fun next hnext =>
          (q.proper_of_mem_nexts hq hl hnext).full, hnone, hsettle]
      rfl

end View

/-! ## The labels of a search -/

/-- In every state of a search its labels are orderly. -/
theorem Run.Reached.orderly {q : Query} {settings : Settings} {f : Frontier} {r : Run}
    (hq : q.Sound) (hf : f.Blank)
    (hqueue : f.queue = .new settings.maxBucket settings.sortedBuckets)
    (h : Run.Reached q settings Measure.all f r) : r.frontier.view.Orderly q settings := by
  obtain ⟨order, hs⟩ := h.sound hq hf
  have hl := h.inLine hq hf hqueue
  have hwaiting : ∀ label ∈ r.frontier.view.waiting,
      label.Timed q ∧ label.allowed settings = true := by
    intro label hlabel
    obtain ⟨id, hid, hbare⟩ := List.mem_filterMap.1 hlabel
    obtain ⟨l, links, ht⟩ := hs.waiting id hid
    rw [Frontier.bare?_eq ht.get?] at hbare
    cases hbare
    exact ⟨(ht.trail.timed hq).bare, Label.allowed_iff.2 ht.trail.not_isBeyond⟩
  have hpassed : ∀ id ∈ order, ∀ label ∈ r.frontier.bare? id,
      label.Proper q ∧ label.allowed settings = true := by
    intro id hid label hbare
    obtain ⟨l, links, ht, -⟩ := hs.passed id hid
    rw [Frontier.bare?_eq ht.get?] at hbare
    cases hbare
    exact ⟨(ht.trail.proper hq).1.bare, Label.allowed_iff.2 ht.trail.not_isBeyond⟩
  refine ⟨⟨?_, fun label hlabel => (hwaiting label hlabel).1.full⟩, hwaiting,
    fun node label hlabel => ?_, fun label hlabel => ?_, fun label hlabel => ?_⟩
  · have hline : r.frontier.view.waiting =
        r.frontier.queue.items.filterMap fun item => r.frontier.bare? item.id :=
      List.filterMap_map
    rw [hline, List.pairwise_filterMap, ← hl.sorted_eq]
    refine hl.ranked.pairwise_items.imp_of_mem fun {x y} hx hy hfirst a ha b hb => ?_
    -- each item carries the criteria of its label
    obtain ⟨l, hget, hcriteria⟩ := hl.tagged x hx
    obtain ⟨l', hget', hcriteria'⟩ := hl.tagged y hy
    rw [Frontier.bare?_eq hget] at ha
    rw [Frontier.bare?_eq hget'] at hb
    cases ha
    cases hb
    show BucketQueue.GoesFirst _ _ _ l.criteria l'.criteria
    rw [hcriteria, hcriteria']
    exact hfirst
  · obtain ⟨id, hid, hbare⟩ := List.mem_filterMap.1 hlabel
    obtain ⟨hin, l, hget, hnode⟩ := (hs.settled node id).1 hid
    refine ⟨(hpassed id hin label hbare).1, ?_⟩
    rw [Frontier.bare?_eq hget] at hbare
    cases hbare
    exact hnode
  · obtain ⟨id, hid, hbare⟩ := List.mem_filterMap.1 hlabel
    obtain ⟨hin, l, hget, hgoal⟩ := hs.results id hid
    refine ⟨(hpassed id hin label hbare).1, ?_⟩
    rw [Frontier.bare?_eq hget] at hbare
    cases hbare
    exact hgoal
  · obtain ⟨id, hid, hbare⟩ := List.mem_filterMap.1 hlabel
    exact (hpassed id (hs.results id hid).1 label hbare).2

end JourneyPlanner
